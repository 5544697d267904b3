import Montage.Json.Decode
import Montage.Json.Printer
import Montage.Json.Reader
import Montage.Json.Token

/-! # Reading what is written

A value is read back from every text that spells its tokens, and in particular from the one that is
written for it.

Blanks may stand around every token. A word or a number ends where a character follows that cannot
belong to it. -/

/-! ## How tokens are spelled -/

namespace Montage.Json

/-- A character that only separates tokens. -/
def IsBlank (c : Char) : Prop := c = ' ' ∨ c = '\t' ∨ c = '\n' ∨ c = '\r'

/-- The tokens of one character. -/
def mark? : Char → Option Token
  | '\x7b' => some .openObject
  | '\x7d' => some .closeObject
  | '[' => some .openArray
  | ']' => some .closeArray
  | ':' => some .colon
  | ',' => some .comma
  | _ => none

/-- A text that spells some tokens. -/
inductive Spells : List Token → List Char → Prop
  | nil : Spells [] []
  | blank {toks : List Token} {c : Char} {text : List Char} (hc : IsBlank c)
      (h : Spells toks text) : Spells toks (c :: text)
  | mark {tok : Token} {toks : List Token} {c : Char} {text : List Char}
      (hc : mark? c = some tok) (h : Spells toks text) : Spells (tok :: toks) (c :: text)
  | word {toks : List Token} {first : Char} {more text : List Char}
      (hword : ∀ c ∈ first :: more, isWordChar c) (hend : ∀ c ∈ text.head?, isWordChar c = false)
      (h : Spells toks text) : Spells (.word (first :: more) :: toks) (first :: more ++ text)
  | number {toks : List Token} {first : Char} {more text : List Char}
      (hfirst : first = '-' ∨ '0' ≤ first ∧ first ≤ '9') (hmore : ∀ c ∈ more, isNumberChar c)
      (hend : ∀ c ∈ text.head?, isNumberChar c = false) (h : Spells toks text) :
      Spells (.number (first :: more) :: toks) (first :: more ++ text)
  | string {toks : List Token} {s : String} {text : List Char} (h : Spells toks text) :
      Spells (.string (some s) :: toks) (quoted s ++ text)

namespace Scan

/-- The tokens when the rest of the text has been passed over. -/
def after? (scan : Scan) (text : List Char) : Option (List Token) := do
  (← text.foldlM Scan.next scan).finish

variable {done : List Token} {c : Char} {text : List Char}

theorem after?_cons {scan scan' : Scan} (h : scan.next c = some scan') :
    scan.after? (c :: text) = scan'.after? text := by
  rw [after?, after?, List.foldlM_cons, h]
  rfl

/-- Characters that each belong to the current phase are all taken up. -/
theorem after?_append {α : Type} (scan : α → Scan) (step : α → Char → α) {cs : List Char}
    (h : ∀ c ∈ cs, ∀ a, (scan a).next c = some (scan (step a c))) (a : α) :
    (scan a).after? (cs ++ text) = (scan (cs.foldl step a)).after? text := by
  induction cs generalizing a with
  | nil => rfl
  | cons c cs ih =>
      obtain ⟨hc, hcs⟩ := List.forall_mem_cons.mp h
      rw [List.cons_append, after?_cons (hc a), ih hcs, List.foldl_cons]

/-! ## Words and numbers -/

theorem after?_word {word more : List Char} (hmore : ∀ c ∈ more, isWordChar c)
    (hend : ∀ c ∈ text.head?, isWordChar c = false) :
    after? ⟨done, .word word⟩ (more ++ text) =
      after? ⟨.word (word.reverse ++ more) :: done, .between⟩ text := by
  rw [after?_append (fun word => ⟨done, .word word⟩) (fun word c => c :: word)
    fun c hc word => if_pos (hmore c hc), List.foldl_flip_cons_eq_append']
  cases text with
  | nil => simp [after?, finish]
  | cons c text =>
      have hnext : next ⟨done, .word (more.reverse ++ word)⟩ c =
          next ⟨.word (word.reverse ++ more) :: done, .between⟩ c := by
        simp [next, hend c rfl]
      simp only [after?, List.foldlM_cons, hnext]

theorem after?_number {number more : List Char} (hmore : ∀ c ∈ more, isNumberChar c)
    (hend : ∀ c ∈ text.head?, isNumberChar c = false) :
    after? ⟨done, .number number⟩ (more ++ text) =
      after? ⟨.number (number.reverse ++ more) :: done, .between⟩ text := by
  rw [after?_append (fun number => ⟨done, .number number⟩) (fun number c => c :: number)
    fun c hc number => if_pos (hmore c hc), List.foldl_flip_cons_eq_append']
  cases text with
  | nil => simp [after?, finish]
  | cons c text =>
      have hnext : next ⟨done, .number (more.reverse ++ number)⟩ c =
          next ⟨.number (number.reverse ++ more) :: done, .between⟩ c := by
        simp [next, hend c rfl]
      simp only [after?, List.foldlM_cons, hnext]

/-! ## Strings -/

theorem hexDigit?_hexDigit : ∀ n < 16, hexDigit? (hexDigit n) = some n := by decide

theorem next_hex {pieces : List Piece} {value n : Nat} (h : n < 16) :
    next ⟨done, .hex pieces 2 value⟩ (hexDigit n) = some ⟨done, .hex pieces 3 (16 * value + n)⟩ ∧
      next ⟨done, .hex pieces 3 value⟩ (hexDigit n) =
        some ⟨done, .string (pieceOfUnit (16 * value + n) :: pieces)⟩ := by
  constructor <;> simp [next, hexDigit?_hexDigit n h]

/-- What is written for a character of a string is read as that character. -/
theorem after?_escape (pieces : List Piece) (c : Char) :
    after? ⟨done, .string pieces⟩ (escape c ++ text) =
      after? ⟨done, .string (.char c :: pieces)⟩ text := by
  unfold escape
  split
  case h_8 hquote hslash _ _ _ _ _ =>
    split
    case isTrue hcontrol =>
      have hhigh : c.toNat / 16 < 16 := by omega
      have hlow : c.toNat % 16 < 16 := Nat.mod_lt _ (by decide)
      have hunit : pieceOfUnit (16 * (16 * 0 + c.toNat / 16) + c.toNat % 16) = .char c := by
        rw [show 16 * (16 * 0 + c.toNat / 16) + c.toNat % 16 = c.toNat by omega, pieceOfUnit,
          if_neg (by omega), Char.ofNat_toNat]
      refine (after?_cons rfl).trans ((after?_cons rfl).trans ((after?_cons rfl).trans
        ((after?_cons rfl).trans ((after?_cons (next_hex hhigh).1).trans
          ((after?_cons (next_hex hlow).2).trans ?_)))))
      rw [← hunit]
      rfl
    case isFalse hcontrol =>
      refine after?_cons ?_
      simp only [next]
      rw [if_neg hquote, if_neg hslash, if_neg hcontrol]
  all_goals exact (after?_cons rfl).trans (after?_cons rfl)

theorem joinPieces_chars (cs rest : List Char) :
    joinPieces (cs.map Piece.char) rest = some (cs.reverse ++ rest) := by
  induction cs generalizing rest with
  | nil => rfl
  | cons c cs ih => rw [List.map_cons, joinPieces, ih, List.reverse_cons, List.append_assoc]; rfl

/-- A quoted string is read as one token. -/
theorem after?_quoted (s : String) :
    after? ⟨done, .between⟩ (quoted s ++ text) =
      after? ⟨.string (some s) :: done, .between⟩ text := by
  have hbody (cs : List Char) (pieces : List Piece) :
      after? ⟨done, .string pieces⟩ (cs.flatMap escape ++ '"' :: text) =
        after? ⟨done, .string ((cs.map Piece.char).reverse ++ pieces)⟩ ('"' :: text) := by
    induction cs generalizing pieces with
    | nil => rfl
    | cons c cs ih =>
        rw [List.flatMap_cons, List.append_assoc, after?_escape, ih, List.map_cons,
          List.reverse_cons, List.append_assoc]
        rfl
  have hjoin : (joinPieces (s.toList.map Piece.char).reverse []).map String.ofList = some s := by
    rw [← List.map_reverse, joinPieces_chars, List.reverse_reverse, List.append_nil,
      Option.map_some, String.ofList_toList]
  rw [quoted, List.append_assoc]
  refine (after?_cons rfl).trans ((hbody s.toList []).trans (after?_cons ?_))
  simp only [next, List.append_nil, if_pos, hjoin]

/-! ## Texts -/

theorem next_of_mark? {tok : Token} (h : mark? c = some tok) :
    next ⟨done, .between⟩ c = some ⟨tok :: done, .between⟩ := by
  unfold mark? at h
  split at h <;> cases h <;> rfl

theorem next_of_isWordChar (h : isWordChar c) :
    next ⟨done, .between⟩ c = some ⟨done, .word [c]⟩ := by
  have hdigit : ¬ (c = '-' ∨ '0' ≤ c ∧ c ≤ '9') := by
    rintro (rfl | ⟨-, hle⟩)
    · exact absurd h (by decide)
    · rw [isWordChar, Bool.and_eq_true, decide_eq_true_eq] at h
      exact absurd (Char.le_trans h.1 hle) (by decide)
  simp only [next]
  unfold between
  split <;> first | exact absurd h (by decide) | rw [if_neg hdigit, if_pos h]

theorem next_of_digit (h : c = '-' ∨ '0' ≤ c ∧ c ≤ '9') :
    next ⟨done, .between⟩ c = some ⟨done, .number [c]⟩ := by
  simp only [next]
  unfold between
  split <;> first | exact absurd h (by decide) | rw [if_pos h]

theorem after?_of_spells {toks : List Token} (h : Spells toks text) (done : List Token) :
    after? ⟨done, .between⟩ text = some (done.reverse ++ toks) := by
  induction h generalizing done with
  | nil => simp [after?, finish]
  | blank hc _ ih =>
      rcases hc with rfl | rfl | rfl | rfl <;> exact (after?_cons rfl).trans (ih done)
  | mark hc _ ih =>
      rw [after?_cons (next_of_mark? hc), ih, List.reverse_cons, List.append_assoc]
      rfl
  | word hword hend _ ih =>
      obtain ⟨hfirst, hmore⟩ := List.forall_mem_cons.mp hword
      rw [List.cons_append, after?_cons (next_of_isWordChar hfirst), after?_word hmore hend, ih,
        List.reverse_cons, List.append_assoc]
      rfl
  | number hfirst hmore hend _ ih =>
      rw [List.cons_append, after?_cons (next_of_digit hfirst), after?_number hmore hend, ih,
        List.reverse_cons, List.append_assoc]
      rfl
  | string _ ih =>
      rw [after?_quoted, ih, List.reverse_cons, List.append_assoc]
      rfl

end Scan

/-- A text is cut into the tokens that it spells. -/
theorem tokens?_of_spells {toks : List Token} {text : List Char} (h : Spells toks text) :
    tokens? text = some toks :=
  Scan.after?_of_spells h []

/-! ## The tokens of a value -/

mutual

/-- The tokens of a value, in order. -/
def tokens : Json → List Token
  | .null => [.word "null".toList]
  | .bool b => [.word (if b then "true" else "false").toList]
  | .number text => [.number text]
  | .string s => [.string s]
  | .array [] => [.openArray, .closeArray]
  | .array (j :: rest) => .openArray :: tokens j ++ itemTokens rest
  | .object [] => [.openObject, .closeObject]
  | .object ((key, j) :: rest) =>
      .openObject :: .string key :: .colon :: tokens j ++ memberTokens rest

/-- The tokens of the items after the first one, up to the end of the array. -/
def itemTokens : List Json → List Token
  | [] => [.closeArray]
  | j :: rest => .comma :: tokens j ++ itemTokens rest

/-- The tokens of the members after the first one, up to the end of the object. -/
def memberTokens : List (Option String × Json) → List Token
  | [] => [.closeObject]
  | (key, j) :: rest => .comma :: .string key :: .colon :: tokens j ++ memberTokens rest

end

mutual

/-- Whether all strings form characters and all numbers are well formed. -/
def IsSound : Json → Prop
  | .number text => (NumberParts.ofText? text).isSome ∧
      (∀ c ∈ text.head?, c = '-' ∨ '0' ≤ c ∧ c ≤ '9') ∧ ∀ c ∈ text.tail, isNumberChar c
  | .string s => s.isSome
  | .array items => ItemsSound items
  | .object members => MembersSound members
  | _ => True

def ItemsSound : List Json → Prop
  | [] => True
  | j :: rest => j.IsSound ∧ ItemsSound rest

def MembersSound : List (Option String × Json) → Prop
  | [] => True
  | (key, j) :: rest => key.isSome ∧ j.IsSound ∧ MembersSound rest

end

/-! ## The machine -/

namespace Machine

variable {toks : List Token} {frames : List Frame}

/-- The machine after some tokens. -/
def run (m : Machine) (toks : List Token) : Option Machine := toks.foldlM next m

theorem run_cons {m m' : Machine} {tok : Token} (h : m.next tok = some m') :
    m.run (tok :: toks) = m'.run toks := by
  rw [run, run, List.foldlM_cons, h]
  rfl

mutual

/-- A value is read where one is awaited, or at the beginning of an array. -/
theorem run_tokens : (j : Json) → j.IsSound → ∀ (frames : List Frame) (toks : List Token),
    run ⟨frames, .value⟩ (tokens j ++ toks) = (put frames j).run toks ∧
      run ⟨frames, .valueOrClose⟩ (tokens j ++ toks) = (put frames j).run toks
  | .null, _, frames, toks => ⟨run_cons rfl, run_cons rfl⟩
  | .bool b, _, frames, toks => by cases b <;> exact ⟨run_cons rfl, run_cons rfl⟩
  | .number text, h, frames, toks => by
      rw [IsSound] at h
      obtain ⟨parts, hparts⟩ := Option.isSome_iff_exists.mp h.1
      have hstart : start frames (.number text) = some (put frames (.number text)) := by
        rw [start, hparts]
        rfl
      exact ⟨run_cons hstart, run_cons hstart⟩
  | .string s, _, frames, toks => ⟨run_cons rfl, run_cons rfl⟩
  | .array [], _, frames, toks =>
      ⟨(run_cons rfl).trans (run_cons rfl), (run_cons rfl).trans (run_cons rfl)⟩
  | .array (j :: rest), h, frames, toks => by
      rw [IsSound, ItemsSound] at h
      have hrest :
          run ⟨.array [] :: frames, .valueOrClose⟩ (tokens j ++ (itemTokens rest ++ toks)) =
            (put frames (.array (j :: rest))).run toks := by
        rw [(run_tokens j h.1 _ _).2]
        exact run_itemTokens rest h.2 _ _ _
      simp only [tokens, List.cons_append, List.append_assoc]
      exact ⟨(run_cons rfl).trans hrest, (run_cons rfl).trans hrest⟩
  | .object [], _, frames, toks =>
      ⟨(run_cons rfl).trans (run_cons rfl), (run_cons rfl).trans (run_cons rfl)⟩
  | .object ((key, j) :: rest), h, frames, toks => by
      rw [IsSound, MembersSound] at h
      have hrest :
          run ⟨.object [] key :: frames, .value⟩ (tokens j ++ (memberTokens rest ++ toks)) =
            (put frames (.object ((key, j) :: rest))).run toks := by
        rw [(run_tokens j h.2.1 _ _).1]
        exact run_memberTokens rest h.2.2 _ _ _ _
      simp only [tokens, List.cons_append, List.append_assoc]
      exact ⟨(run_cons rfl).trans ((run_cons rfl).trans ((run_cons rfl).trans hrest)),
        (run_cons rfl).trans ((run_cons rfl).trans ((run_cons rfl).trans hrest))⟩

theorem run_itemTokens : (rest : List Json) → ItemsSound rest →
    ∀ (done : List Json) (frames : List Frame) (toks : List Token),
      run ⟨.array done :: frames, .separator⟩ (itemTokens rest ++ toks) =
        (put frames (.array (done.reverse ++ rest))).run toks
  | [], _, done, frames, toks => by
      rw [List.append_nil]
      exact run_cons rfl
  | j :: rest, h, done, frames, toks => by
      rw [ItemsSound] at h
      simp only [itemTokens, List.cons_append, List.append_assoc]
      refine (run_cons rfl).trans ((run_tokens j h.1 _ _).1.trans ?_)
      refine (run_itemTokens rest h.2 _ _ _).trans ?_
      rw [List.reverse_cons, List.append_assoc]
      rfl

theorem run_memberTokens : (rest : List (Option String × Json)) → MembersSound rest →
    ∀ (done : List (Option String × Json)) (key : Option String) (frames : List Frame)
      (toks : List Token),
      run ⟨.object done key :: frames, .separator⟩ (memberTokens rest ++ toks) =
        (put frames (.object (done.reverse ++ rest))).run toks
  | [], _, done, _, frames, toks => by
      rw [List.append_nil]
      exact run_cons rfl
  | (key, j) :: rest, h, done, _, frames, toks => by
      rw [MembersSound] at h
      simp only [memberTokens, List.cons_append, List.append_assoc]
      refine (run_cons rfl).trans ((run_cons rfl).trans ((run_cons rfl).trans
        ((run_tokens j h.2.1 _ _).1.trans ?_)))
      refine (run_memberTokens rest h.2.2 _ _ _ _).trans ?_
      rw [List.reverse_cons, List.append_assoc]
      rfl

end

end Machine

/-- A value is read from its tokens. -/
theorem ofTokens?_tokens {j : Json} (h : j.IsSound) : ofTokens? (tokens j) = some j := by
  have hrun := (Machine.run_tokens j h [] []).1
  rw [List.append_nil] at hrun
  rw [ofTokens?]
  change (Machine.run ⟨[], .value⟩ (tokens j) >>= _) = _
  rw [hrun]
  rfl

/-- A value is read from every text that spells it. -/
theorem read?_of_spells {j : Json} {text : String} (hsound : j.IsSound)
    (h : Spells (tokens j) text.toList) : read? text = some j := by
  rw [read?, tokens?_of_spells h]
  exact ofTokens?_tokens hsound

/-! ## The layout that is written -/

/-- What may follow a value. -/
def Ends (text : List Char) : Prop :=
  ∀ c ∈ text.head?, isWordChar c = false ∧ isNumberChar c = false

variable {toks : List Token} {text : List Char}

theorem spells_newline (level : Nat) (h : Spells toks text) :
    Spells toks (newline level ++ text) := by
  have hblanks (n : Nat) : Spells toks (List.replicate n ' ' ++ text) := by
    induction n with
    | zero => exact h
    | succ n ih => exact .blank (.inl rfl) ih
  exact .blank (.inr (.inr (.inl rfl))) (hblanks _)

theorem ends_newline (level : Nat) : Ends (newline level ++ text) := fun c hc => by
  cases hc
  decide

theorem spells_key {key : Option String} (hkey : key.isSome) (h : Spells toks text) :
    Spells (.string key :: .colon :: toks) (quoted (key.getD "") ++ ':' :: ' ' :: text) := by
  obtain ⟨s, rfl⟩ := Option.isSome_iff_exists.mp hkey
  exact .string (.mark rfl (.blank (.inl rfl) h))

theorem ends_items (level level' : Nat) (rest : List Json) :
    Ends (prettyItems level rest ++ (newline level' ++ text)) := by
  cases rest with
  | nil => exact ends_newline level'
  | cons => exact fun c hc => by cases hc; decide

theorem ends_members (level level' : Nat) (rest : List (Option String × Json)) :
    Ends (prettyMembers level rest ++ (newline level' ++ text)) := by
  cases rest with
  | nil => exact ends_newline level'
  | cons => exact fun c hc => by cases hc; decide

mutual

/-- What is written for a value spells it, whatever follows. -/
theorem spells_prettyAt : (j : Json) → j.IsSound → ∀ (level : Nat) {toks : List Token}
    {text : List Char}, Ends text → Spells toks text →
      Spells (tokens j ++ toks) (prettyAt level j ++ text)
  | .null, _, level, toks, text, hend, h =>
      .word (List.all_eq_true.mp rfl) (fun c hc => (hend c hc).1) h
  | .bool b, _, level, toks, text, hend, h => by
      cases b <;> exact .word (List.all_eq_true.mp rfl) (fun c hc => (hend c hc).1) h
  | .number digits, hsound, level, toks, text, hend, h => by
      rw [IsSound] at hsound
      obtain ⟨hparts, hfirst, hmore⟩ := hsound
      cases digits with
      | nil => exact absurd hparts (by decide)
      | cons first more =>
          exact .number (hfirst first rfl) hmore (fun c hc => (hend c hc).2) h
  | .string s, hsound, level, toks, text, hend, h => by
      rw [IsSound] at hsound
      obtain ⟨s, rfl⟩ := Option.isSome_iff_exists.mp hsound
      exact .string h
  | .array [], _, level, toks, text, hend, h => .mark rfl (.mark rfl h)
  | .array (j :: rest), hsound, level, toks, text, hend, h => by
      rw [IsSound, ItemsSound] at hsound
      simp only [tokens, prettyAt, List.cons_append, List.append_assoc]
      exact .mark rfl (spells_newline _ (spells_prettyAt j hsound.1 _ (ends_items _ _ rest)
        (spells_prettyItems rest hsound.2 _ _ h)))
  | .object [], _, level, toks, text, hend, h => .mark rfl (.mark rfl h)
  | .object ((key, j) :: rest), hsound, level, toks, text, hend, h => by
      rw [IsSound, MembersSound] at hsound
      simp only [tokens, prettyAt, List.cons_append, List.append_assoc]
      exact .mark rfl (spells_newline _ (spells_key hsound.1 (spells_prettyAt j hsound.2.1 _
        (ends_members _ _ rest) (spells_prettyMembers rest hsound.2.2 _ _ h))))

theorem spells_prettyItems : (rest : List Json) → ItemsSound rest → ∀ (level level' : Nat)
    {toks : List Token} {text : List Char}, Spells toks text →
      Spells (itemTokens rest ++ toks)
        (prettyItems level rest ++ (newline level' ++ ']' :: text))
  | [], _, level, level', toks, text, h => spells_newline _ (.mark rfl h)
  | j :: rest, hsound, level, level', toks, text, h => by
      rw [ItemsSound] at hsound
      simp only [itemTokens, prettyItems, List.cons_append, List.append_assoc]
      exact .mark rfl (spells_newline _ (spells_prettyAt j hsound.1 _ (ends_items _ _ rest)
        (spells_prettyItems rest hsound.2 _ _ h)))

theorem spells_prettyMembers : (rest : List (Option String × Json)) → MembersSound rest →
    ∀ (level level' : Nat) {toks : List Token} {text : List Char}, Spells toks text →
      Spells (memberTokens rest ++ toks)
        (prettyMembers level rest ++ (newline level' ++ '\x7d' :: text))
  | [], _, level, level', toks, text, h => spells_newline _ (.mark rfl h)
  | (key, j) :: rest, hsound, level, level', toks, text, h => by
      rw [MembersSound] at hsound
      simp only [memberTokens, prettyMembers, List.cons_append, List.append_assoc]
      exact .mark rfl (spells_newline _ (spells_key hsound.1 (spells_prettyAt j hsound.2.1 _
        (ends_members _ _ rest) (spells_prettyMembers rest hsound.2.2 _ _ h))))

end

/-- What is written for a value is read as that value. -/
theorem read?_pretty {j : Json} (h : j.IsSound) : read? (pretty j) = some j := by
  refine read?_of_spells h ?_
  rw [pretty, String.toList_ofList]
  have hspells := spells_prettyAt j h 0 (by simp [Ends]) Spells.nil
  rwa [List.append_nil, List.append_nil] at hspells

end Montage.Json
