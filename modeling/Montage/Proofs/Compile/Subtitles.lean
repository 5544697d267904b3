import Montage.Proofs.Compile.Arguments

/-! # Paths in the options of a filter

The arguments of a filter are read twice: once where they stand in the program text, and what that
gives once more, option by option. Quotes and backslashes mean the same both times. A path that is
written for both readings comes out as it was, but for its backslashes, whatever characters it
has. -/

namespace Montage

namespace Grammar

/-! ## The reader of options -/

/-- Whether a character stands for itself, and does not only say how others are read. -/
def Mode.keeps : Mode → Char → Bool
  | .bare, '\'' => false
  | .bare, '\\' => false
  | .quoted, '\'' => false
  | _, _ => true

/-- What a text says: the quotes and backslashes that made others literal are gone. -/
def literal : Mode → List Char → List Char
  | _, [] => []
  | mode, c :: rest =>
      if mode.keeps c then c :: literal (mode.next c) rest else literal (mode.next c) rest

/-- What the name of an option is made of. -/
def isNameChar (c : Char) : Bool := c.isAlphanum || c == '_'

/-- An option: a name up to an equals sign, and what the value says. -/
def option? (text : List Char) : Option (String × String) :=
  match text.takeWhile isNameChar, text.dropWhile isNameChar with
  | c :: name, '=' :: value => some (String.ofList (c :: name), String.ofList (literal .bare value))
  | _, _ => none

/-- The options of a text, with bare colons between them. It must not end inside quotes or in a
backslash. -/
def options? (text : List Char) : Option (List (String × String)) :=
  if Mode.bare.after text = .bare then
    ((marks .bare text).splitOn (':', true)).mapM fun option => option? (option.map Prod.fst)
  else none

end Grammar

/-- The options of a filter. Its arguments are read as a part of the program text first, where they
must end outside quotes and before any separator. -/
def Filter.options? (f : Filter) : Option (List (String × String)) := do
  let args ← f.args
  if Grammar.Mode.bare.exit? args.toList = some .bare then
    Grammar.options? (Grammar.literal .bare args.toList)
  else none

namespace Grammar

variable {name : String}

/-! ## What a text says -/

theorem literal_append (mode : Mode) (xs ys : List Char) :
    literal mode (xs ++ ys) = literal mode xs ++ literal (mode.after xs) ys := by
  induction xs generalizing mode with
  | nil => rfl
  | cons c xs ih =>
      simp only [List.cons_append, literal, ih]
      split <;> rfl

/-- Texts that end bare say the same one after the other. -/
theorem literal_intercalate {texts : List (List Char)}
    (h : ∀ text ∈ texts, Mode.bare.after text = .bare) :
    literal .bare ([':'].intercalate texts) = [':'].intercalate (texts.map (literal .bare)) := by
  induction texts with
  | nil => rfl
  | cons text texts ih =>
      obtain ⟨htext, hrest⟩ := List.forall_mem_cons.mp h
      cases texts with
      | nil => simp
      | cons text' texts =>
          have hcolon : literal .bare [':'] = [':'] := rfl
          have hnext : Mode.bare.after [':'] = .bare := rfl
          rw [List.map_cons, List.map_cons, List.intercalate_cons_cons,
            List.intercalate_cons_cons, ← List.map_cons, ← ih hrest, literal_append, after_append,
            literal_append, htext, hcolon, hnext]

/-- A word says what it is. -/
theorem Word.literal_eq {xs : List Char} (h : Word xs) : literal .bare xs = xs := by
  induction xs with
  | nil => rfl
  | cons c xs ih =>
      obtain ⟨hc, hrest⟩ := List.forall_mem_cons.mp h
      have hkeeps : Mode.keeps .bare c = true := by
        simp only [special, List.mem_cons, not_or] at hc
        simp [Mode.keeps, hc.1, hc.2.1]
      rw [literal, if_pos hkeeps, Word.next (by decide) hc, ih hrest]

/-! ## Paths -/

/-- A character of a path after the first reading: a quote and a colon are still literal. -/
def onceRead : Char → List Char
  | '\\' => ['/']
  | '\'' => ['\\', '\'']
  | ':' => ['\\', ':']
  | c => [c]

/-- A character of a path after both readings. -/
def slashedChar (c : Char) : Char := if c = '\\' then '/' else c

/-- A path with slashes for backslashes. -/
def slashed (path : String) : String := String.ofList (path.toList.map slashedChar)

/-- A character of a path comes out of the first reading as the second one needs it. -/
theorem literal_escapePathChar (c : Char) :
    literal .quoted (Video.escapePathChar c) = onceRead c ∧
      Mode.quoted.after (Video.escapePathChar c) = .quoted := by
  by_cases hslash : c = '\\'
  · subst hslash
    exact ⟨rfl, rfl⟩
  by_cases hquote : c = '\''
  · subst hquote
    exact ⟨rfl, rfl⟩
  by_cases hcolon : c = ':'
  · subst hcolon
    exact ⟨rfl, rfl⟩
  simp [Video.escapePathChar, onceRead, literal, Mode.keeps, Mode.after, Mode.next, hquote]

/-- What the second reading makes of such a character: it stays outside quotes, and a colon does not
separate. -/
theorem literal_onceRead (c : Char) :
    literal .bare (onceRead c) = [slashedChar c] ∧ Mode.bare.after (onceRead c) = .bare ∧
      (':', true) ∉ marks .bare (onceRead c) := by
  by_cases hslash : c = '\\'
  · subst hslash
    exact ⟨rfl, rfl, by decide⟩
  by_cases hquote : c = '\''
  · subst hquote
    exact ⟨rfl, rfl, by decide⟩
  by_cases hcolon : c = ':'
  · subst hcolon
    exact ⟨rfl, rfl, by decide⟩
  simp [onceRead, slashedChar, literal, marks, Mode.keeps, Mode.after, Mode.next, hslash, hquote,
    Ne.symm hcolon]

theorem literal_escapePath (path : String) :
    literal .quoted (Video.escapePath path).toList = path.toList.flatMap onceRead := by
  rw [Video.escapePath, String.toList_ofList]
  induction path.toList with
  | nil => rfl
  | cons c rest ih =>
      obtain ⟨hliteral, hafter⟩ := literal_escapePathChar c
      rw [List.flatMap_cons, List.flatMap_cons, literal_append, hliteral, hafter, ih]

theorem literal_flatMap_onceRead (chars : List Char) :
    literal .bare (chars.flatMap onceRead) = chars.map slashedChar ∧
      Mode.bare.after (chars.flatMap onceRead) = .bare ∧
      (':', true) ∉ marks .bare (chars.flatMap onceRead) := by
  induction chars with
  | nil => exact ⟨rfl, rfl, List.not_mem_nil⟩
  | cons c chars ih =>
      obtain ⟨hliteral, hafter, hcolon⟩ := literal_onceRead c
      obtain ⟨hliteral', hafter', hcolon'⟩ := ih
      rw [List.flatMap_cons, literal_append, after_append, marks_append, hliteral, hafter,
        hliteral', hafter', List.mem_append, not_or]
      exact ⟨rfl, rfl, hcolon, hcolon'⟩

/-! ## Options with paths -/

/-- A name that an option can have. -/
def IsName (name : String) : Prop := name ≠ "" ∧ ∀ c ∈ name.toList, isNameChar c

/-- An option whose value is a path, as it is written. -/
def pathOption (o : String × String) : List Char :=
  o.1.toList ++ '=' :: '\'' :: ((Video.escapePath o.2).toList ++ ['\''])

/-- The same option after the first reading. -/
def onceReadOption (o : String × String) : List Char :=
  o.1.toList ++ '=' :: o.2.toList.flatMap onceRead

variable {o : String × String}

theorem IsName.not_mem (h : IsName name) {c : Char} (hc : ¬ isNameChar c) : c ∉ name.toList :=
  fun hmem => hc (h.2 c hmem)

theorem IsName.word (h : IsName name) : Word name.toList := by
  intro c hc hspecial
  have hall : special.all fun c => !isNameChar c := by decide
  have hnone := List.all_eq_true.mp hall c hspecial
  simp [h.2 c hc] at hnone

theorem literal_pathOption (h : IsName o.1) :
    literal .bare (pathOption o) = onceReadOption o ∧ Mode.bare.after (pathOption o) = .bare := by
  have hafter : Mode.bare.after o.1.toList = .bare := after_of_exit? (h.word.exit? (by decide))
  have hopen : Mode.bare.after ['=', '\''] = .quoted := rfl
  have hpath : Mode.quoted.after (Video.escapePath o.2).toList = .quoted :=
    after_of_exit? (exit?_escapePath o.2)
  have hsplit : pathOption o =
      o.1.toList ++ (['=', '\''] ++ ((Video.escapePath o.2).toList ++ ['\''])) := rfl
  rw [hsplit]
  constructor
  · rw [literal_append, literal_append, literal_append, hafter, hopen, hpath, h.word.literal_eq,
      literal_escapePath, onceReadOption]
    have hmarks : literal .bare ['=', '\''] = ['='] := rfl
    have hclose : literal .quoted ['\''] = [] := rfl
    rw [hmarks, hclose, List.append_nil]
    rfl
  · rw [after_append, after_append, after_append, hafter, hopen, hpath]
    rfl

theorem option?_onceReadOption (h : IsName o.1) :
    option? (onceReadOption o) = some (o.1, slashed o.2) := by
  have hequals : ¬ isNameChar '=' := by decide
  have hname : (onceReadOption o).takeWhile isNameChar = o.1.toList := by
    rw [onceReadOption, List.takeWhile_append_of_pos h.2, List.takeWhile_cons_of_neg hequals,
      List.append_nil]
  have hvalue : (onceReadOption o).dropWhile isNameChar =
      '=' :: o.2.toList.flatMap onceRead := by
    rw [onceReadOption, List.dropWhile_append_of_pos h.2, List.dropWhile_cons_of_neg hequals]
  obtain ⟨hliteral, -, -⟩ := literal_flatMap_onceRead o.2.toList
  have htext : String.ofList o.1.toList = o.1 := String.ofList_toList
  rw [option?, hname, hvalue]
  cases hchars : o.1.toList with
  | nil => exact absurd (String.toList_inj.mp hchars) h.1
  | cons c name =>
      rw [hchars] at htext
      simp only [htext, hliteral, slashed]

theorem onceReadOption_spec (h : IsName o.1) :
    Mode.bare.after (onceReadOption o) = .bare ∧
      (':', true) ∉ marks .bare (onceReadOption o) := by
  obtain ⟨-, hafter, hcolon⟩ := literal_flatMap_onceRead o.2.toList
  have hname : Mode.bare.after o.1.toList = .bare := after_of_exit? (h.word.exit? (by decide))
  have hequals : Mode.bare.after ['='] = .bare := rfl
  have hsplit : onceReadOption o = o.1.toList ++ (['='] ++ o.2.toList.flatMap onceRead) := rfl
  rw [hsplit, after_append, after_append, marks_append, marks_append, hname, hequals,
    h.word.marks_eq]
  refine ⟨hafter, fun hmem => ?_⟩
  rcases List.mem_append.mp hmem with hfirst | hlater
  · exact h.not_mem (c := ':') (by decide) (by simpa using hfirst)
  · rcases List.mem_append.mp hlater with hmark | hpath
    · simp [marks] at hmark
    · exact hcolon hpath

/-- Options whose values are paths are read back, the paths with slashes. -/
theorem options?_literal {options : List (String × String)} (h : ∀ o ∈ options, IsName o.1)
    (hne : options ≠ []) :
    options? (literal .bare ([':'].intercalate (options.map pathOption))) =
      some (options.map fun o => (o.1, slashed o.2)) := by
  have hbare : ∀ text ∈ options.map pathOption, Mode.bare.after text = .bare := by
    intro text htext
    obtain ⟨o, ho, rfl⟩ := List.mem_map.mp htext
    exact (literal_pathOption (h o ho)).2
  have honce : (options.map pathOption).map (literal .bare) = options.map onceReadOption := by
    rw [List.map_map]
    exact List.map_congr_left fun o ho => (literal_pathOption (h o ho)).1
  have hends : ∀ text ∈ options.map onceReadOption, Mode.bare.after text = .bare := by
    intro text htext
    obtain ⟨o, ho, rfl⟩ := List.mem_map.mp htext
    exact (onceReadOption_spec (h o ho)).1
  have hsplit : ∀ text ∈ (options.map onceReadOption).map (marks .bare), (':', true) ∉ text := by
    intro text htext
    obtain ⟨_, hmem, rfl⟩ := List.mem_map.mp htext
    obtain ⟨o, ho, rfl⟩ := List.mem_map.mp hmem
    exact (onceReadOption_spec (h o ho)).2
  obtain ⟨hmarks, hend⟩ := marks_intercalate (c := ':') rfl hends
  rw [literal_intercalate hbare, honce, options?, if_pos hend, hmarks,
    List.splitOn_intercalate _ hsplit (by simpa using hne), List.map_map]
  refine mapM_map fun o ho => ?_
  rw [Function.comp_apply, map_fst_marks]
  exact option?_onceReadOption (h o ho)

end Grammar

/-! ## The captions -/

namespace Video

/-- The options of the filter that burns captions in, as they are meant. -/
def captionPaths (path : String) (fontsDir : Option String) : List (String × String) :=
  ("filename", path) :: (fontsDir.map fun dir => ("fontsdir", dir)).toList

variable (path : String) (fontsDir : Option String)

theorem isName_captionPaths : ∀ o ∈ captionPaths path fontsDir, Grammar.IsName o.1 := by
  have hfilename : Grammar.IsName "filename" := ⟨by decide, List.all_eq_true.mp (by decide)⟩
  have hfontsdir : Grammar.IsName "fontsdir" := ⟨by decide, List.all_eq_true.mp (by decide)⟩
  intro o ho
  rcases List.mem_cons.mp ho with rfl | hfonts
  · exact hfilename
  · obtain ⟨dir, -, rfl⟩ := Option.map_eq_some_iff.mp (Option.mem_toList.mp hfonts)
    exact hfontsdir

theorem args_subtitleFilter : ∃ args, (subtitleFilter path fontsDir).args = some args ∧
    args.toList = [':'].intercalate ((captionPaths path fontsDir).map Grammar.pathOption) := by
  refine ⟨_, rfl, ?_⟩
  cases fontsDir with
  | none => simp [captionPaths, Grammar.pathOption, toString]
  | some dir => simp [captionPaths, Grammar.pathOption, toString]

/-- The filter that burns captions in says where they are and, if that is given, where the fonts
are, and nothing else. -/
theorem options?_subtitleFilter :
    (subtitleFilter path fontsDir).options? =
      some (("filename", Grammar.slashed path) ::
        (fontsDir.map fun dir => ("fontsdir", Grammar.slashed dir)).toList) := by
  obtain ⟨args, hargs, htext⟩ := args_subtitleFilter path fontsDir
  have hclosed : Grammar.Mode.bare.exit? args.toList = some .bare :=
    (Grammar.readable_subtitle path fontsDir).args args hargs
  have hread := Grammar.options?_literal (isName_captionPaths path fontsDir) (List.cons_ne_nil _ _)
  rw [Filter.options?, hargs, Option.bind_eq_bind, Option.bind_some, if_pos hclosed, htext, hread]
  cases fontsDir <;> rfl

example : (subtitleFilter "C:\\it's, a [talk].ass" (some "/fonts;'")).args =
      some "filename='C\\:/it'\\\\\\''s, a [talk].ass':fontsdir='/fonts;'\\\\\\'''" ∧
    Grammar.options? "filename=C\\:/it\\'s, a [talk].ass:fontsdir=/fonts;\\'".toList =
      some [("filename", "C:/it's, a [talk].ass"), ("fontsdir", "/fonts;'")] := by
  decide +kernel

end Video

end Montage
