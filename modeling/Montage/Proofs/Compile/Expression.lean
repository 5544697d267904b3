import Montage.Compile.Zoom
import Montage.Proofs.Decimal.Value

/-! # Expressions as they are read

The filters get their numbers as expressions in the time. An expression is read from left to right,
with the brackets that are open on a stack: products before sums, operators of one kind from the
left, and a sign in front of an operand. Its value is exact. -/

namespace Montage.Expression

/-! ## The reader -/

/-- A bracket that is open: the name in front of it, the arguments that are complete, and of the
current one the terms that are complete and what stands before the next operand in its term. -/
structure Frame where
  name : List Char := []
  args : List Rat := []
  sum : Rat := 0
  product : Rat := 1
  divides : Bool := false

/-- The open brackets, the innermost one apart, and what has been read of an operand: the characters
of a word, or the value of a bracket that was closed. -/
structure Reader where
  outer : List Frame := []
  frame : Frame := {}
  word : List Char := []
  value? : Option Rat := none

/-- The value of a function. A name in front of a bracket may be missing. -/
def call? (name : List Char) (args : List Rat) : Option Rat :=
  match String.ofList name, args with
  | "", [v] => some v
  | "trunc", [v] => some (if 0 ≤ v then v.floor else v.ceil)
  | "min", [a, b] => some (min a b)
  | "between", [v, a, b] => some (if a ≤ v ∧ v ≤ b then 1 else 0)
  | "if", [condition, a, b] => some (if condition ≠ 0 then a else b)
  | _, _ => none

/-- The characters of names and numbers. -/
def isWord (c : Char) : Bool := c.isAlphanum || c = '.'

/-- The term that an operand completes; nothing is divided by zero. -/
def Frame.term? (f : Frame) (operand : Rat) : Option Rat :=
  if f.divides then if operand = 0 then none else some (f.product / operand)
  else some (f.product * operand)

namespace Reader

/-- Whether an operand has been begun. -/
def idle (r : Reader) : Bool := r.word.isEmpty && r.value?.isNone

/-- The value of the operand: of a bracket, of the time, or of a number. -/
def operand? (t : Rat) (r : Reader) : Option Rat :=
  match r.value? with
  | some v => if r.word.isEmpty then some v else none
  | none => if r.word = ['t'] then some t else Decimal.magnitude? r.word

/-- The value of the term that ends here. -/
def term? (t : Rat) (r : Reader) : Option Rat := r.operand? t >>= r.frame.term?

/-- What an operator makes of the term before it. -/
def operator? (r : Reader) (term : Rat) : Char → Option Reader
  | '+' => some { r with
      frame := { r.frame with sum := r.frame.sum + term, product := 1, divides := false }
      word := [], value? := none }
  | '-' => some { r with
      frame := { r.frame with sum := r.frame.sum + term, product := -1, divides := false }
      word := [], value? := none }
  | '*' => some { r with
      frame := { r.frame with product := term, divides := false }, word := [], value? := none }
  | '/' => some { r with
      frame := { r.frame with product := term, divides := true }, word := [], value? := none }
  | ',' => some { r with
      frame := { name := r.frame.name, args := r.frame.args ++ [r.frame.sum + term] }
      word := [], value? := none }
  | ')' =>
      match r.outer with
      | [] => none
      | frame :: outer => do
          let v ← call? r.frame.name (r.frame.args ++ [r.frame.sum + term])
          return { outer, frame, value? := some v }
  | _ => none

/-- Reads a character. -/
def step (t : Rat) (r : Reader) (c : Char) : Option Reader :=
  if isWord c then
    if r.value?.isNone then some { r with word := r.word ++ [c] } else none
  else if c = '(' then
    if r.value?.isNone then some { outer := r.frame :: r.outer, frame := { name := r.word } }
    else none
  else if c = '-' ∧ r.idle then
    some { r with frame := { r.frame with product := -r.frame.product } }
  else do
    let term ← r.term? t
    r.operator? term c

/-- The value of all that has been read, if no bracket is open. -/
def total? (t : Rat) (r : Reader) : Option Rat :=
  if r.outer.isEmpty then (r.term? t).map fun term => r.frame.sum + term else none

end Reader

/-- The value of an expression at a time. -/
def value? (t : Rat) (text : List Char) : Option Rat :=
  text.foldlM (Reader.step t) {} >>= Reader.total? t

example : value? 3 "1+2*t/4-(t-5)".toList = some (9 / 2) ∧
    value? 3 "if(between(t,1,2),7,min(-0.5,t))".toList = some (-1 / 2) ∧
    value? 3 "1/(t-3)".toList = none ∧ value? 3 "trunc(7/2)*2".toList = some 6 := by decide +kernel

/-! ## Phrases

A phrase is a text with a value wherever an operand is expected. A sum needs a bracket of its own, a
term at least that nothing is divided by it, an atom can stand anywhere. -/

/-- An operand is read in a frame, and completes a term. -/
structure Reader.Ends (t : Rat) (r : Reader) (outer : List Frame) (frame : Frame) (term : Rat) :
    Prop where
  outer : r.outer = outer
  name : r.frame.name = frame.name
  args : r.frame.args = frame.args
  sum : r.frame.sum = frame.sum
  term : r.term? t = some term

/-- Reading a text where an operand is expected. -/
def read (t : Rat) (outer : List Frame) (frame : Frame) (text : List Char) : Option Reader :=
  text.foldlM (Reader.step t) { outer, frame }

/-- A text that is an operand anywhere. -/
def Atom (t : Rat) (text : List Char) (v : Rat) : Prop :=
  ∀ outer frame term, frame.term? v = some term →
    ∃ r, read t outer frame text = some r ∧ r.Ends t outer frame term

/-- A text that is an operand where nothing is divided by it. -/
def Term (t : Rat) (text : List Char) (v : Rat) : Prop :=
  ∀ outer (frame : Frame), frame.divides = false →
    ∃ r, read t outer frame text = some r ∧ r.Ends t outer frame (frame.product * v)

/-- A text that is an argument. -/
def Sum (t : Rat) (text : List Char) (v : Rat) : Prop :=
  ∀ outer name args, ∃ r sum term, read t outer { name, args } text = some r ∧
    r.Ends t outer { name, args, sum } term ∧ sum + term = v

section Phrases

variable {t u v w : Rat} {text text' : List Char} {r : Reader} {outer : List Frame} {frame : Frame}

theorem Atom.term (h : Atom t text v) : Term t text v := by
  intro outer frame hframe
  exact h outer frame _ (by simp [Frame.term?, hframe])

theorem Term.sum (h : Term t text v) : Sum t text v := by
  intro outer name args
  obtain ⟨r, hread, hends⟩ := h outer { name, args } rfl
  exact ⟨r, 0, _, hread, hends, by simp⟩

/-- What ends a term is an operator. -/
theorem Reader.step_of_term? (h : r.term? t = some u) {c : Char} (hword : isWord c = false)
    (hopen : c ≠ '(') : r.step t c = r.operator? u c := by
  have hbusy : r.idle = false := by
    by_contra hidle
    obtain ⟨hw, hv⟩ := Bool.and_eq_true_iff.mp (Bool.not_eq_false _ ▸ hidle)
    rw [List.isEmpty_iff] at hw
    rw [Option.isNone_iff_eq_none] at hv
    simp [Reader.term?, Reader.operand?, hw, hv, Decimal.magnitude?, Decimal.natOfText?] at h
  rw [Reader.step, hword, hbusy, h]
  simp [hopen]

/-- Reading goes on after an operator. -/
theorem read_append (h : read t outer frame text = some r) {c : Char} {r' : Reader}
    (hstep : r.step t c = some r') : read t outer frame (text ++ c :: text') =
      text'.foldlM (Reader.step t) r' := by
  rw [read] at h ⊢
  rw [List.foldlM_append, h, Option.bind_eq_bind, Option.bind_some, List.foldlM_cons, hstep]
  rfl

/-! ### Operators -/

/-- Behind an operator that closes nothing the operand is read in the frame the operator leaves,
which differs from the frame before it in the sum and in what stands before the operand. -/
theorem Reader.Ends.append (hends : r.Ends t outer frame u) {first next : Frame}
    (hread : read t outer first text = some r)
    (h : ∃ r', read t r.outer next text' = some r' ∧ r'.Ends t r.outer next w)
    (c : Char) (hword : isWord c = false) (hopen : c ≠ '(')
    (hnext : r.operator? u c = some { outer := r.outer, frame := next })
    (hname : next.name = r.frame.name) (hargs : next.args = r.frame.args) :
    ∃ r', read t outer first (text ++ c :: text') = some r' ∧
      r'.Ends t outer { frame with sum := next.sum } w := by
  obtain ⟨r', hread', hends'⟩ := h
  have hstep : r.step t c = some { outer := r.outer, frame := next } :=
    (Reader.step_of_term? hends.term hword hopen).trans hnext
  exact ⟨r', (read_append hread hstep).trans hread', hends'.outer.trans hends.outer,
    hends'.name.trans (hname.trans hends.name), hends'.args.trans (hargs.trans hends.args),
    hends'.sum, hends'.term⟩

theorem Term.mul (h : Term t text v) (h' : Atom t text' w) :
    Term t (text ++ '*' :: text') (v * w) := by
  intro outer frame hframe
  obtain ⟨r, hread, hends⟩ := h outer frame hframe
  have hoperand := h' r.outer
    { r.frame with product := frame.product * v, divides := false } (frame.product * v * w) rfl
  have hafter := hends.append hread hoperand '*' (by decide) (by decide) rfl rfl rfl
  rwa [hends.sum, mul_assoc] at hafter

theorem Term.div (h : Term t text v) (h' : Atom t text' w) (hw : w ≠ 0) :
    Term t (text ++ '/' :: text') (v / w) := by
  intro outer frame hframe
  obtain ⟨r, hread, hends⟩ := h outer frame hframe
  have hoperand := h' r.outer
    { r.frame with product := frame.product * v, divides := true } (frame.product * v / w)
    (by simp [Frame.term?, hw])
  have hafter := hends.append hread hoperand '/' (by decide) (by decide) rfl rfl rfl
  rwa [hends.sum, mul_div_assoc] at hafter

theorem Sum.add (h : Sum t text v) (h' : Term t text' w) :
    Sum t (text ++ '+' :: text') (v + w) := by
  intro outer name args
  obtain ⟨r, sum, term, hread, hends, rfl⟩ := h outer name args
  have hoperand := h' r.outer
    { r.frame with sum := r.frame.sum + term, product := 1, divides := false } rfl
  obtain ⟨r', hread', hends'⟩ :=
    hends.append hread hoperand '+' (by decide) (by decide) rfl rfl rfl
  rw [hends.sum, one_mul] at hends'
  exact ⟨r', sum + term, w, hread', hends', rfl⟩

theorem Sum.sub (h : Sum t text v) (h' : Term t text' w) :
    Sum t (text ++ '-' :: text') (v - w) := by
  intro outer name args
  obtain ⟨r, sum, term, hread, hends, rfl⟩ := h outer name args
  have hoperand := h' r.outer
    { r.frame with sum := r.frame.sum + term, product := -1, divides := false } rfl
  obtain ⟨r', hread', hends'⟩ :=
    hends.append hread hoperand '-' (by decide) (by decide) rfl rfl rfl
  rw [hends.sum, neg_one_mul] at hends'
  exact ⟨r', sum + term, -w, hread', hends', (sub_eq_add_neg _ _).symm⟩

/-! ### Operands -/

theorem foldlM_word {word : List Char} (h : text.all isWord) :
    text.foldlM (Reader.step t) { outer, frame, word } =
      some { outer, frame, word := word ++ text } := by
  induction text generalizing word with
  | nil => simp
  | cons c text ih =>
      obtain ⟨hc, hrest⟩ := Bool.and_eq_true_iff.mp (List.all_cons.symm.trans h)
      have hstep : Reader.step t { outer, frame, word } c =
          some { outer, frame, word := word ++ [c] } := by
        simp [Reader.step, hc]
      rw [List.foldlM_cons, hstep, Option.bind_eq_bind, Option.bind_some, ih hrest,
        List.append_assoc, List.singleton_append]

theorem read_word (h : text.all isWord) :
    read t outer frame text = some { outer, frame, word := text } := foldlM_word h

theorem Atom.time : Atom t ['t'] t := by
  intro outer frame term hterm
  exact ⟨_, read_word (by decide), rfl, rfl, rfl, rfl, hterm⟩

theorem Atom.digits (hword : text.all isWord) (h : Decimal.magnitude? text = some v) :
    Atom t text v := by
  intro outer frame term hterm
  refine ⟨_, read_word hword, rfl, rfl, rfl, rfl, ?_⟩
  have htime : text ≠ ['t'] := by
    rintro rfl
    cases h
  simpa [Reader.term?, Reader.operand?, htime, h] using hterm

/-- A sign in front of an operand. -/
theorem Atom.neg (h : Atom t text v) : Atom t ('-' :: text) (-v) := by
  intro outer frame term hterm
  have hflip : ({ frame with product := -frame.product } : Frame).term? v = some term := by
    rw [← hterm]
    simp [Frame.term?, div_neg, neg_div]
  obtain ⟨r, hread, hends⟩ := h outer { frame with product := -frame.product } term hflip
  exact ⟨r, hread, hends.outer, hends.name, hends.args, hends.sum, hends.term⟩

/-- The arguments of a function, as far as the last one. -/
theorem read_args {texts : List (List Char)} {values : List Rat}
    (h : List.Forall₂ (Sum t) texts values) (hne : texts ≠ []) (outer : List Frame)
    (name : List Char) (args : List Rat) :
    ∃ r last, read t outer { name, args } ([','].intercalate texts) = some r ∧ r.outer = outer ∧
      r.frame.name = name ∧ r.term? t = some last ∧
      r.frame.args ++ [r.frame.sum + last] = args ++ values := by
  induction h generalizing args with
  | nil => exact absurd rfl hne
  | @cons text v texts values hsum hrest ih =>
      obtain ⟨r, sum, term, hread, hends, rfl⟩ := hsum outer name args
      cases texts with
      | nil =>
          obtain rfl := List.forall₂_nil_left_iff.mp hrest
          refine ⟨r, term, by simpa [List.intercalate] using hread, hends.outer, hends.name,
            hends.term, ?_⟩
          rw [hends.args, hends.sum]
      | cons next texts =>
          have hstep := Reader.step_of_term? (c := ',') hends.term (by decide) (by decide)
          obtain ⟨r', last, hread', houter, hname, hlast, hargs⟩ :=
            ih (by simp) (args ++ [sum + term])
          refine ⟨r', last, ?_, houter, hname, hlast, by simpa using hargs⟩
          rw [List.intercalate_cons_cons, List.append_assoc, List.singleton_append,
            read_append hread hstep, ← hread', read, hends.outer, hends.name, hends.args, hends.sum]

/-- A function of some arguments, or a bracket. -/
theorem Atom.call (name : List Char) (hword : name.all isWord) {texts : List (List Char)}
    {values : List Rat} (h : List.Forall₂ (Sum t) texts values) (hne : texts ≠ [])
    (hcall : call? name values = some v) :
    Atom t (name ++ '(' :: ([','].intercalate texts ++ [')'])) v := by
  intro outer frame term hterm
  obtain ⟨r, last, hread, houter, hname, hlast, hargs⟩ :=
    read_args h hne (frame :: outer) name []
  have hopen : Reader.step t { outer, frame, word := name } '(' =
      some { outer := frame :: outer, frame := { name } } := rfl
  have hclose := Reader.step_of_term? (c := ')') hlast (by decide) (by decide)
  have hvalue : r.operator? last ')' = some { outer, frame, value? := some v } := by
    simp only [Reader.operator?, houter, hname, hargs, List.nil_append, hcall, Option.bind_eq_bind,
      Option.bind_some, Option.pure_def]
  refine ⟨{ outer, frame, value? := some v }, ?_, rfl, rfl, rfl, rfl, hterm⟩
  rw [read_append (read_word hword) hopen, List.foldlM_append]
  change (read t (frame :: outer) { name } _ >>= _) = _
  rw [hread, Option.bind_eq_bind, Option.bind_some, List.foldlM_cons, hclose, hvalue]
  rfl

theorem Atom.bracket (h : Sum t text v) : Atom t ('(' :: (text ++ [')'])) v := by
  have hcall := Atom.call [] (by simp) (.cons h .nil) (by simp) (v := v) rfl
  simpa [List.intercalate] using hcall

/-! ### Written numbers -/

theorem isWord_of_isDigit {c : Char} (h : c.isDigit) : isWord c := by
  simp [isWord, Char.isAlphanum, h]

theorem Atom.nat (n : Nat) : Atom t (toString n).toList n :=
  .digits (List.all_eq_true.mpr (Decimal.forall_mem_toString (fun _ => isWord_of_isDigit) n))
    (Decimal.magnitude?_toString n)

theorem Atom.fixed {x : Binary64} (h : x.Has v) (places : Nat) :
    Atom t (Decimal.fixed places x).toList (Decimal.roundedTo places v) := by
  have hdigits (digits : Nat) :
      Atom t (Decimal.pointed digits places) ((digits : Rat) / 10 ^ places) :=
    .digits (List.all_eq_true.mpr
      (Decimal.forall_mem_pointed (fun _ => isWord_of_isDigit) (by decide) digits places))
      (Decimal.magnitude?_pointed digits places)
  obtain ⟨digits, ⟨htext, hvalue⟩ | ⟨htext, hvalue⟩⟩ := Decimal.fixed_eq h places
  · rw [htext, hvalue]
    exact hdigits digits
  · rw [htext, hvalue]
    exact (hdigits digits).neg

/-! ### Whole expressions -/

theorem value?_of_sum (h : Sum t text v) : value? t text = some v := by
  obtain ⟨r, sum, term, hread, hends, rfl⟩ := h [] [] []
  rw [value?, show text.foldlM (Reader.step t) {} = some r from hread, Option.bind_eq_bind,
    Option.bind_some, Reader.total?, hends.outer, hends.term, hends.sum]
  rfl

end Phrases

end Montage.Expression
