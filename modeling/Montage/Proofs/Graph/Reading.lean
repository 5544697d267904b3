import Montage.Proofs.Decimal.Digits
import Montage.Proofs.Graph.Building
import Montage.Proofs.Graph.Grammar

/-! # Graphs that are read back

A graph is read back from its text if its pads are as a builder gives them and its filters are
readable: names are words, and arguments end as they began. -/

namespace Montage.Grammar

variable {mode : Mode} {xs : List Char}

/-! ## Filters -/

/-- Arguments that end as they began. -/
def Closed (text : String) : Prop := Mode.bare.exit? text.toList = some .bare

/-- A filter that is read back from its text. -/
structure Readable (f : Filter) : Prop where
  name_ne : f.name ≠ ""
  name : Word f.name.toList
  args : ∀ args ∈ f.args, Closed args

/-- A reader that reads each text of a list reads them all. -/
theorem mapM_map {α β γ : Type} {write : α → β} {read : β → Option γ} {value : α → γ} {xs : List α}
    (h : ∀ x ∈ xs, read (write x) = some (value x)) :
    (xs.map write).mapM read = some (xs.map value) := by
  induction xs with
  | nil => rfl
  | cons x xs ih =>
      obtain ⟨hx, hrest⟩ := List.forall_mem_cons.mp h
      rw [List.map_cons, List.mapM_cons, hx, ih hrest]
      rfl

section Cutting

variable {k : Mark} {ks ls : List Mark}

/-- What stands before the first occurrence of a mark. -/
theorem takeWhile_ne (h : k ∉ ks) (hls : ∀ x ∈ ls.head?, x = k) :
    (ks ++ ls).takeWhile (· ≠ k) = ks := by
  have hks : ∀ x ∈ ks, decide (x ≠ k) = true := fun x hx =>
    decide_eq_true fun heq => h (heq ▸ hx)
  rw [List.takeWhile_append_of_pos hks]
  cases ls with
  | nil => simp
  | cons x ls => simp [hls x rfl]

/-- The first occurrence of a mark and what follows it. -/
theorem dropWhile_ne (h : k ∉ ks) (hls : ∀ x ∈ ls.head?, x = k) :
    (ks ++ ls).dropWhile (· ≠ k) = ls := by
  have hks : ∀ x ∈ ks, decide (x ≠ k) = true := fun x hx =>
    decide_eq_true fun heq => h (heq ▸ hx)
  rw [List.dropWhile_append_of_pos hks]
  cases ls with
  | nil => rfl
  | cons x ls => simp [hls x rfl]

end Cutting

/-- What follows the name of a filter. -/
def argsText : Option String → List Char
  | some args => '=' :: args.toList
  | none => []

theorem toList_filterText (f : Filter) : f.text.toList = f.name.toList ++ argsText f.args := by
  rw [Filter.text]
  split
  case h_1 args hargs => simp [hargs, argsText, toString]
  case h_2 hargs => simp [hargs, argsText]

namespace Readable

variable {f : Filter}

theorem exit? (h : Readable f) : Mode.bare.exit? f.text.toList = some .bare := by
  rw [toList_filterText, exit?_append, h.name.exit? (by decide), Option.bind_some]
  cases hargs : f.args with
  | none => rfl
  | some args => exact h.args args hargs

/-- A readable filter is read back. -/
theorem filter?_eq (h : Readable f) : filter? (marks .bare f.text.toList) = some f := by
  have hequals : ('=', true) ∉ marks .bare f.name.toList := by
    rw [h.name.marks_eq]
    exact h.name.not_mem_map (by decide)
  have hhead : ∀ k ∈ (marks .bare (argsText f.args)).head?, k = ('=', true) := by
    cases f.args <;> simp [argsText, marks]
  have hargs : (marks .bare (argsText f.args)).tail?.map textOf = f.args := by
    cases f.args with
    | none => rfl
    | some args => exact congrArg some (textOf_marks .bare args)
  rw [toList_filterText, marks_append, after_of_exit? (h.name.exit? (by decide)), filter?,
    takeWhile_ne hequals hhead, dropWhile_ne hequals hhead, textOf_marks, if_neg h.name_ne, hargs]

end Readable

/-! ## Pads -/

/-- A pad without its brackets. -/
def padBody : Pad → String
  | .source input kind => s!"{input}:{kind.letter}"
  | .link label _ => label

/-- A pad that is read back from its text. -/
structure PadReadable (pad : Pad) : Prop where
  word : Word (padBody pad).toList
  pad?_eq : pad? (padBody pad) = some pad

theorem toList_padText (pad : Pad) :
    pad.text.toList = '[' :: ((padBody pad).toList ++ [']']) := by
  cases pad <;> simp [Pad.text, padBody, toString]

theorem word_toDigits (n : Nat) : Word (Nat.toDigits 10 n) := by
  intro c hc hspecial
  have hdigit := Nat.isDigit_of_mem_toDigits (by decide) (by decide) hc
  exact Bool.false_ne_true ((isDigit_of_special hspecial).symm.trans hdigit)

theorem word_toString (n : Nat) : Word (toString n).toList := by
  rw [Nat.toString_eq_repr, Nat.toList_repr]
  exact word_toDigits n

theorem colon_not_mem_toDigits (n : Nat) : ':' ∉ Nat.toDigits 10 n := fun hc =>
  absurd (Nat.isDigit_of_mem_toDigits (by decide) (by decide) hc) (by decide)

/-- A stream of an input is read back. -/
theorem padReadable_source (input : Nat) (kind : Stream) : PadReadable (.source input kind) := by
  have htext : (padBody (.source input kind)).toList =
      Nat.toDigits 10 input ++ ':' :: kind.letter.toList := by
    simp [padBody, toString]
  have hsplit : (Nat.toDigits 10 input ++ ':' :: kind.letter.toList).splitOn ':' =
      [Nat.toDigits 10 input, kind.letter.toList] := by
    rw [List.splitOn, List.splitOnP_append_cons _ _ (by decide), ← List.splitOn,
      List.splitOn_eq_singleton (colon_not_mem_toDigits input)]
    cases kind <;> rfl
  refine ⟨?_, ?_⟩
  · rw [htext]
    refine (word_toDigits input).append ?_
    cases kind <;> decide
  · rw [pad?, htext, hsplit]
    cases kind <;> simp [Stream.letter, Decimal.natOfText?_toDigits, pad?.kind?]

/-- A label that a builder gives is read back. -/
theorem padReadable_label (kind : Stream) (n : Nat) :
    PadReadable (.link (Builder.label kind n) kind) := by
  have htext := Builder.toList_label kind n
  have hsplit : (kind.letter.toList ++ Nat.toDigits 10 n).splitOn ':' =
      [kind.letter.toList ++ Nat.toDigits 10 n] := by
    refine List.splitOn_eq_singleton fun hmem => ?_
    rcases List.mem_append.mp hmem with hletter | hdigit
    · cases kind <;> exact absurd hletter (by decide)
    · exact colon_not_mem_toDigits n hdigit
  refine ⟨?_, ?_⟩
  · rw [padBody, htext]
    refine Word.append ?_ (word_toDigits n)
    cases kind <;> decide
  · rw [padBody, pad?, htext, hsplit]
    cases kind <;> simp [Stream.letter, pad?.kind?]

/-! ## Nodes -/

/-- A node that is read back from its text. -/
structure NodeReadable (n : Node) : Prop where
  filters_ne : n.filters ≠ []
  filters : ∀ f ∈ n.filters, Readable f
  inputs : ∀ pad ∈ n.inputs, PadReadable pad
  outputs : ∀ pad ∈ n.outputs, PadReadable pad

/-- A label in brackets. -/
theorem groups_label (label : List Char) {ks : List Mark} (h : (']', true) ∉ ks)
    (rest : List Mark) : groups (some label) (ks ++ (']', true) :: rest) =
      (groups none rest).map fun (labels, tail) =>
        (String.ofList (label.reverse ++ ks.map Prod.fst) :: labels, tail) := by
  induction ks generalizing label with
  | nil => simp [groups]
  | cons k ks ih =>
      rw [List.mem_cons, not_or] at h
      rw [List.cons_append, groups, if_neg (Ne.symm h.1), ih _ h.2]
      simp

theorem PadReadable.marks_eq {pad : Pad} (h : PadReadable pad) :
    marks .bare pad.text.toList =
      ('[', true) :: (padBody pad).toList.map (·, true) ++ [(']', true)] := by
  rw [toList_padText]
  have hnext : Mode.next .bare '[' = .bare := rfl
  rw [marks, hnext, marks_append, h.word.marks_eq, after_of_exit? (h.word.exit? (by decide))]
  rfl

theorem PadReadable.after_eq {pad : Pad} (h : PadReadable pad) :
    Mode.bare.after pad.text.toList = .bare := by
  have hnext : Mode.after .bare ['['] = .bare := rfl
  rw [toList_padText, ← List.singleton_append, after_append, hnext, after_append,
    after_of_exit? (h.word.exit? (by decide))]
  rfl

/-- The texts of some pads. -/
def padsText (pads : List Pad) : List Char := pads.flatMap (·.text.toList)

section Pads

variable {pads : List Pad}

theorem after_padsText (h : ∀ pad ∈ pads, PadReadable pad) :
    Mode.bare.after (padsText pads) = .bare := by
  induction pads with
  | nil => rfl
  | cons pad pads ih =>
      obtain ⟨hpad, hrest⟩ := List.forall_mem_cons.mp h
      rw [padsText, List.flatMap_cons, after_append, hpad.after_eq]
      exact ih hrest

/-- Pads are read back, one after the other. -/
theorem groups_padsText (h : ∀ pad ∈ pads, PadReadable pad) {rest : List Mark}
    (hrest : groups none rest = some ([], rest)) :
    groups none (marks .bare (padsText pads) ++ rest) = some (pads.map padBody, rest) := by
  induction pads with
  | nil => exact hrest
  | cons pad pads ih =>
      obtain ⟨hpad, hpads⟩ := List.forall_mem_cons.mp h
      have hbody : (']', true) ∉ (padBody pad).toList.map (·, true) :=
        hpad.word.not_mem_map (by decide)
      rw [padsText, List.flatMap_cons, marks_append, hpad.after_eq, hpad.marks_eq]
      simp only [List.cons_append, List.append_assoc, List.nil_append]
      rw [groups, if_pos rfl, groups_label [] hbody]
      have hlater := ih hpads
      rw [padsText] at hlater
      rw [hlater]
      simp [Function.comp_def]

theorem head?_padsText (pads : List Pad) :
    ∀ k ∈ (marks .bare (padsText pads)).head?, k = ('[', true) := by
  cases pads with
  | nil => simp [padsText, marks]
  | cons pad pads => simp [padsText, toList_padText, marks]

/-- Only brackets separate in the text of pads. -/
theorem semicolon_not_mem_padsText (h : ∀ pad ∈ pads, PadReadable pad) :
    (';', true) ∉ marks .bare (padsText pads) := by
  induction pads with
  | nil => exact List.not_mem_nil
  | cons pad pads ih =>
      obtain ⟨hpad, hrest⟩ := List.forall_mem_cons.mp h
      rw [padsText, List.flatMap_cons, marks_append, hpad.after_eq, hpad.marks_eq]
      refine fun hmem => ?_
      rcases List.mem_append.mp hmem with hfirst | hlater
      · have hc : ';' ∈ (padBody pad).toList := by simpa using hfirst
        exact hpad.word ';' hc (by decide)
      · exact ih hrest hlater

end Pads

section Chains

/-- Texts that end bare, with a bare character between each two. -/
theorem marks_intercalate {c : Char} (hc : Mode.next .bare c = .bare) {texts : List (List Char)}
    (h : ∀ text ∈ texts, Mode.bare.after text = .bare) :
    marks .bare ([c].intercalate texts) =
      [(c, true)].intercalate (texts.map (marks .bare)) ∧
    Mode.bare.after ([c].intercalate texts) = .bare := by
  induction texts with
  | nil => exact ⟨rfl, rfl⟩
  | cons text texts ih =>
      obtain ⟨htext, hrest⟩ := List.forall_mem_cons.mp h
      obtain ⟨hmarks, hafter⟩ := ih hrest
      have hmark : marks .bare [c] = [(c, true)] := rfl
      have hnext : Mode.bare.after [c] = .bare := hc
      cases texts with
      | nil => simpa using htext
      | cons text' texts =>
          rw [List.map_cons, List.map_cons, List.intercalate_cons_cons,
            List.intercalate_cons_cons, ← List.map_cons, ← hmarks]
          refine ⟨?_, ?_⟩
          · rw [marks_append, marks_append, after_append, htext, hmark, hnext]
          · rw [after_append, after_append, htext, hnext, hafter]

theorem not_mem_intercalate {k : Mark} {sep : List Mark} {texts : List (List Mark)}
    (hsep : k ∉ sep) (h : ∀ text ∈ texts, k ∉ text) : k ∉ sep.intercalate texts := by
  induction texts with
  | nil => exact List.not_mem_nil
  | cons text texts ih =>
      obtain ⟨htext, hrest⟩ := List.forall_mem_cons.mp h
      cases texts with
      | nil => simpa using htext
      | cons text' texts =>
          rw [List.intercalate_cons_cons, List.mem_append, List.mem_append, not_or, not_or]
          exact ⟨⟨htext, hsep⟩, ih hrest⟩

end Chains

namespace NodeReadable

variable {n : Node}

/-- The filters of a node, as written. -/
def chainText (n : Node) : List Char := [','].intercalate (n.filters.map (·.text.toList))

theorem toList_nodeText (n : Node) :
    n.text.toList = padsText n.inputs ++ (chainText n ++ padsText n.outputs) := by
  simp [Node.text, padsText, chainText, List.flatMap_map, Function.comp_def]

theorem marks_chainText (h : NodeReadable n) :
    marks .bare (chainText n) =
        [(',', true)].intercalate (n.filters.map fun f => marks .bare f.text.toList) ∧
      Mode.bare.after (chainText n) = .bare := by
  have htexts : ∀ text ∈ n.filters.map (·.text.toList), Mode.bare.after text = .bare := by
    intro text htext
    obtain ⟨f, hf, rfl⟩ := List.mem_map.mp htext
    exact after_of_exit? (h.filters f hf).exit?
  have hchain := marks_intercalate (c := ',') rfl htexts
  rwa [List.map_map] at hchain

/-- No separator but the comma is bare between the filters. -/
theorem not_mem_chainText (h : NodeReadable n) {c : Char} (hc : c ∈ separators) (hne : c ≠ ',') :
    (c, true) ∉ marks .bare (chainText n) := by
  rw [h.marks_chainText.1]
  refine not_mem_intercalate (by simpa using hne) fun text htext => ?_
  obtain ⟨f, hf, rfl⟩ := List.mem_map.mp htext
  exact not_mem_marks_of_exit? (h.filters f hf).exit? hc

/-- The filters are read back. -/
theorem mapM_filter? (h : NodeReadable n) :
    ((marks .bare (chainText n)).splitOn (',', true)).mapM filter? = some n.filters := by
  have hsplit : ∀ text ∈ n.filters.map fun f => marks .bare f.text.toList,
      (',', true) ∉ text := by
    intro text htext
    obtain ⟨f, hf, rfl⟩ := List.mem_map.mp htext
    exact not_mem_marks_of_exit? (h.filters f hf).exit? (by decide)
  rw [h.marks_chainText.1, List.splitOn_intercalate _ hsplit (by simpa using h.filters_ne),
    mapM_map fun f hf => (h.filters f hf).filter?_eq, List.map_id']

/-- What begins with a filter does not begin with pads. -/
theorem groups_chainText (h : NodeReadable n) (rest : List Mark) :
    groups none (marks .bare (chainText n) ++ rest) =
      some ([], marks .bare (chainText n) ++ rest) := by
  have hopen : ('[', true) ∉ marks .bare (chainText n) :=
    h.not_mem_chainText (by decide) (by decide)
  have hread := h.mapM_filter?
  cases hmarks : marks .bare (chainText n) with
  | nil =>
      -- nothing is read as a filter without a name
      have hnone : (([] : List Mark).splitOn (',', true)).mapM filter? = none := rfl
      rw [hmarks, hnone] at hread
      cases hread
  | cons k ks =>
      rw [hmarks, List.mem_cons, not_or] at hopen
      rw [List.cons_append, groups, if_neg (Ne.symm hopen.1)]

/-- A readable node is read back. -/
theorem node?_eq (h : NodeReadable n) : node? (marks .bare n.text.toList) = some n.written := by
  have hopen : ('[', true) ∉ marks .bare (chainText n) :=
    h.not_mem_chainText (by decide) (by decide)
  have hclose : (']', true) ∉ marks .bare (chainText n) :=
    h.not_mem_chainText (by decide) (by decide)
  have hinputs := groups_padsText h.inputs (h.groups_chainText (marks .bare (padsText n.outputs)))
  have houtputs : groups none (marks .bare (padsText n.outputs) ++ []) =
      some (n.outputs.map padBody, []) := groups_padsText h.outputs rfl
  have hpads {pads : List Pad} (hpads : ∀ pad ∈ pads, PadReadable pad) :
      (pads.map padBody).mapM pad? = some pads := by
    rw [mapM_map fun pad hpad => (hpads pad hpad).pad?_eq, List.map_id']
  rw [List.append_nil] at houtputs
  rw [toList_nodeText, marks_append, after_padsText h.inputs, marks_append, h.marks_chainText.2,
    node?, hinputs]
  simp only [Option.bind_eq_bind, Option.bind_some,
    takeWhile_ne hopen (head?_padsText n.outputs), dropWhile_ne hopen (head?_padsText n.outputs),
    houtputs, hpads h.inputs, hpads h.outputs, h.mapM_filter?]
  rw [if_neg (by simpa using hclose)]
  rfl

theorem after_text (h : NodeReadable n) : Mode.bare.after n.text.toList = .bare := by
  rw [toList_nodeText, after_append, after_padsText h.inputs, after_append, h.marks_chainText.2,
    after_padsText h.outputs]

theorem semicolon_not_mem_text (h : NodeReadable n) : (';', true) ∉ marks .bare n.text.toList := by
  rw [toList_nodeText, marks_append, after_padsText h.inputs, marks_append, h.marks_chainText.2,
    List.mem_append, List.mem_append, not_or, not_or]
  exact ⟨semicolon_not_mem_padsText h.inputs, h.not_mem_chainText (by decide) (by decide),
    semicolon_not_mem_padsText h.outputs⟩

end NodeReadable

/-! ## Graphs -/

/-- A graph whose nodes are readable is read back from its text. -/
theorem read?_filterText {g : Graph} (hne : g.nodes ≠ []) (h : ∀ n ∈ g.nodes, NodeReadable n) :
    read? g.filterText = some (g.nodes.map Node.written) := by
  have htext : g.filterText.toList = [';'].intercalate (g.nodes.map (·.text.toList)) := by
    simp [Graph.filterText, Function.comp_def]
  have hafter : ∀ text ∈ g.nodes.map (·.text.toList), Mode.bare.after text = .bare := by
    intro text htext
    obtain ⟨n, hn, rfl⟩ := List.mem_map.mp htext
    exact (h n hn).after_text
  obtain ⟨hmarks, hend⟩ := marks_intercalate (c := ';') rfl hafter
  have hsplit : ∀ text ∈ g.nodes.map fun n => marks .bare n.text.toList, (';', true) ∉ text := by
    intro text htext
    obtain ⟨n, hn, rfl⟩ := List.mem_map.mp htext
    exact (h n hn).semicolon_not_mem_text
  rw [List.map_map] at hmarks
  rw [read?, htext, if_pos hend, hmarks]
  refine (congrArg _ (List.splitOn_intercalate _ hsplit (by simpa using hne))).trans ?_
  exact mapM_map fun n hn => (h n hn).node?_eq

end Montage.Grammar
