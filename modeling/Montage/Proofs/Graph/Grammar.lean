import Montage.Graph.Builder

/-! # Reading a program text

The grammar of program texts. Nodes are separated by semicolons and filters by commas; pads stand in
square brackets before and after the filters of a node, and a filter has a name up to the first
equals sign. A run between two quotes is literal, and so is a character after a backslash outside
quotes.

A graph is read back from its text if each filter is readable: its name is a word, and its
arguments end outside quotes and have separators only where they are literal. -/

namespace Montage

namespace Grammar

/-! ## Bare and literal characters -/

/-- How the next character is read. -/
inductive Mode where
  | bare
  | quoted
  | escaped
  deriving DecidableEq, Repr

/-- How a text is read after one more character. -/
def Mode.next : Mode → Char → Mode
  | .bare, '\'' => .quoted
  | .bare, '\\' => .escaped
  | .bare, _ => .bare
  | .quoted, '\'' => .bare
  | .quoted, _ => .quoted
  | .escaped, _ => .bare

/-- How a text is read on after some characters. -/
def Mode.after (mode : Mode) (text : List Char) : Mode := text.foldl Mode.next mode

/-- A character of a program text, and whether it is bare, so that it may separate. -/
abbrev Mark := Char × Bool

/-- The characters of a text. -/
def marks : Mode → List Char → List Mark
  | _, [] => []
  | mode, c :: rest => (c, mode = .bare) :: marks (mode.next c) rest

/-- The text of some characters. -/
def textOf (ks : List Mark) : String := String.ofList (ks.map Prod.fst)

/-! ## The reader -/

/-- The pad that a text in brackets stands for: an input and the letter of a kind, or a label, which
begins with that letter. -/
def pad? (text : String) : Option Pad :=
  match text.toList.splitOn ':' with
  | [input, [letter]] => do return .source (← Decimal.natOfText? input) (← kind? letter)
  | [letter :: _] => do return .link text (← kind? letter)
  | _ => none
where
  kind? : Char → Option Stream
    | 'v' => some .video
    | 'a' => some .audio
    | _ => none

/-- The texts in brackets that stand first, and what follows them. A bracket that is open has the
characters `label` so far, the last one first. -/
def groups : Option (List Char) → List Mark → Option (List String × List Mark)
  | none, [] => some ([], [])
  | none, k :: rest =>
      if k = ('[', true) then groups (some []) rest else some ([], k :: rest)
  | some _, [] => none
  | some label, k :: rest =>
      if k = (']', true) then
        (groups none rest).map fun (labels, tail) => (String.ofList label.reverse :: labels, tail)
      else groups (some (k.1 :: label)) rest

/-- A filter: a name, and arguments if there is an equals sign. -/
def filter? (ks : List Mark) : Option Filter :=
  let name := textOf (ks.takeWhile (· ≠ ('=', true)))
  if name = "" then none
  else some ⟨name, (ks.dropWhile (· ≠ ('=', true))).tail?.map textOf⟩

/-- What the program text tells of a node. -/
structure Written where
  inputs : List Pad
  filters : List Filter
  outputs : List Pad
  deriving DecidableEq, Repr

/-- A node: pads, filters and pads. -/
def node? (ks : List Mark) : Option Written := do
  let (inputs, rest) ← groups none ks
  let chain := rest.takeWhile (· ≠ ('[', true))
  let (outputs, tail) ← groups none (rest.dropWhile (· ≠ ('[', true)))
  if (']', true) ∈ chain ∨ tail ≠ [] then none
  else return {
    inputs := ← inputs.mapM pad?
    filters := ← (chain.splitOn (',', true)).mapM filter?
    outputs := ← outputs.mapM pad? }

/-- The nodes of a program text. It must not end inside quotes or in a backslash. -/
def read? (text : String) : Option (List Written) :=
  if Mode.bare.after text.toList = .bare then
    ((marks .bare text.toList).splitOn (';', true)).mapM node?
  else none

end Grammar

/-- What the program text tells of a node. -/
def Node.written (n : Node) : Grammar.Written := ⟨n.inputs, n.filters, n.outputs⟩

namespace Grammar

example : read? "[0:v]scale=w='min(1,2)',hflip[v0];anullsrc[a0]" =
    some [⟨[.source 0 .video], [⟨"scale", some "w='min(1,2)'"⟩, ⟨"hflip", none⟩],
        [.link "v0" .video]⟩,
      ⟨[], [⟨"anullsrc", none⟩], [.link "a0" .audio]⟩] := by
  decide +kernel

example : read? "a=x\\,y" = some [⟨[], [⟨"a", some "x\\,y"⟩], []⟩] ∧ read? "a=x,y=" =
    some [⟨[], [⟨"a", some "x"⟩, ⟨"y", some ""⟩], []⟩] ∧ read? "a='x" = none ∧
    read? "a=x]" = none := by
  decide +kernel

/-! ## Texts that end as they began -/

/-- The characters that separate. -/
def separators : List Char := ['[', ']', ';', ',']

/-- How a text is read on after some characters, if no separator among them is bare. -/
def Mode.exit? : Mode → List Char → Option Mode
  | mode, [] => some mode
  | mode, c :: rest =>
      if mode = .bare ∧ c ∈ separators then none else (mode.next c).exit? rest

variable {mode mode' : Mode} {xs ys : List Char}

theorem marks_append (mode : Mode) (xs ys : List Char) :
    marks mode (xs ++ ys) = marks mode xs ++ marks (mode.after xs) ys := by
  induction xs generalizing mode with
  | nil => rfl
  | cons c xs ih =>
      rw [List.cons_append, marks, ih, marks, List.cons_append]
      rfl

@[simp] theorem map_fst_marks (mode : Mode) (xs : List Char) :
    (marks mode xs).map Prod.fst = xs := by
  induction xs generalizing mode with
  | nil => rfl
  | cons c xs ih => rw [marks, List.map_cons, ih]

theorem textOf_marks (mode : Mode) (text : String) : textOf (marks mode text.toList) = text := by
  rw [textOf, map_fst_marks, String.ofList_toList]

theorem after_append (mode : Mode) (xs ys : List Char) :
    mode.after (xs ++ ys) = (mode.after xs).after ys := List.foldl_append

theorem exit?_append (mode : Mode) (xs ys : List Char) :
    mode.exit? (xs ++ ys) = (mode.exit? xs).bind (·.exit? ys) := by
  induction xs generalizing mode with
  | nil => rfl
  | cons c xs ih =>
      rw [List.cons_append, Mode.exit?, Mode.exit?]
      split
      · rfl
      · exact ih _

theorem after_of_exit? (h : mode.exit? xs = some mode') : mode.after xs = mode' := by
  induction xs generalizing mode with
  | nil => exact Option.some.inj h
  | cons c xs ih =>
      rw [Mode.exit?, Option.ite_none_left_eq_some] at h
      exact ih h.2

/-- No separator of such a text is bare. -/
theorem not_mem_marks_of_exit? (h : mode.exit? xs = some mode') {c : Char} (hc : c ∈ separators) :
    (c, true) ∉ marks mode xs := by
  induction xs generalizing mode with
  | nil => exact List.not_mem_nil
  | cons d xs ih =>
      rw [Mode.exit?, Option.ite_none_left_eq_some] at h
      obtain ⟨hseparator, hrest⟩ := h
      rw [marks, List.mem_cons, not_or]
      refine ⟨fun heq => ?_, ih hrest⟩
      obtain ⟨rfl, hmode⟩ := Prod.mk.inj heq
      exact hseparator ⟨of_decide_eq_true hmode.symm, hc⟩

/-! ## Words -/

/-- The characters that mean something to the reader. -/
def special : List Char := ['\'', '\\', '=', '[', ']', ';', ',']

theorem separators_subset_special : separators ⊆ special := by decide

/-- A text without special characters. -/
def Word (xs : List Char) : Prop := ∀ c ∈ xs, c ∉ special

instance (xs : List Char) : Decidable (Word xs) := List.decidableBAll (fun c => c ∉ special) xs

theorem isDigit_of_special {c : Char} (h : c ∈ special) : c.isDigit = false := by
  have hall : special.all fun d => !d.isDigit := by decide
  simpa using List.all_eq_true.mp hall c h

theorem Word.append (hx : Word xs) (hy : Word ys) : Word (xs ++ ys) :=
  List.forall_mem_append.mpr ⟨hx, hy⟩

theorem Word.next {c : Char} (hmode : mode ≠ .escaped) (hc : c ∉ special) : mode.next c = mode := by
  simp only [special, List.mem_cons, List.not_mem_nil, or_false, not_or] at hc
  cases mode with
  | bare => simp [Mode.next, hc]
  | quoted => simp [Mode.next, hc]
  | escaped => exact absurd rfl hmode

/-- A word is read with no change, inside quotes or outside. -/
theorem Word.exit? (hmode : mode ≠ .escaped) (h : Word xs) : mode.exit? xs = some mode := by
  induction xs with
  | nil => rfl
  | cons c xs ih =>
      obtain ⟨hc, hrest⟩ := List.forall_mem_cons.mp h
      have hseparator : c ∉ separators := fun hmem => hc (separators_subset_special hmem)
      rw [Mode.exit?, if_neg fun hand => hseparator hand.2, Word.next hmode hc, ih hrest]

/-- All characters of a word are bare. -/
theorem Word.marks_eq (h : Word xs) : marks .bare xs = xs.map (·, true) := by
  induction xs with
  | nil => rfl
  | cons c xs ih =>
      obtain ⟨hc, hrest⟩ := List.forall_mem_cons.mp h
      rw [marks, Word.next (by decide) hc, ih hrest]
      rfl

/-- No special character is among them. -/
theorem Word.not_mem_map (h : Word xs) {c : Char} (hc : c ∈ special) :
    (c, true) ∉ xs.map (·, true) := by
  intro hmem
  obtain ⟨d, hd, heq⟩ := List.mem_map.mp hmem
  obtain rfl := (Prod.mk.inj heq).1
  exact h d hd hc

end Grammar

end Montage
