import Montage.Proofs.Caption.Words
import Montage.Proofs.Decimal.Digits

/-! # Captions with markup

The text of a cue is plain text with blocks of tags in braces. It is read here on its own terms: a
brace may only open a block outside of one and close it again inside. Plain text that was made safe
opens no block and ends no row, and neither do the tags of a cue. -/

namespace Montage

open List (Disjoint disjoint_left disjoint_append_left)

namespace Caption

instance decidableDisjoint (xs ys : List Char) : Decidable (xs.Disjoint ys) :=
  @decidable_of_iff _ _ disjoint_left.symm (List.decidableBAll (fun c => c ∉ ys) xs)

/-! ## Reading markup -/

/-- A text cut at its blocks: the plain text before the first one, and the tags of each block with
the plain text after it. -/
structure Marked where
  lead : List Char
  runs : List (List Char × List Char)
  deriving DecidableEq, Repr

namespace Marked

/-- The plain texts, in order. -/
def plain (t : Marked) : List (List Char) := t.lead :: t.runs.map Prod.snd

/-- The tags of the blocks, in order. -/
def tags (t : Marked) : List (List Char) := t.runs.map Prod.fst

/-- What is left without the blocks. -/
def visible (t : Marked) : List Char := t.plain.flatten

/-- Reads on outside of a block, or inside of one that has some tags so far, the last character
first. A brace that opens a block inside of another one, closes none or is never closed is
refused. -/
def readFrom? : Option (List Char) → List Char → Option Marked
  | none, [] => some ⟨[], []⟩
  | none, c :: rest =>
      if c = '\x7b' then readFrom? (some []) rest
      else if c = '\x7d' then none
      else (readFrom? none rest).map fun t => { t with lead := c :: t.lead }
  | some _, [] => none
  | some tags, c :: rest =>
      if c = '\x7b' then none
      else if c = '\x7d' then
        (readFrom? none rest).map fun t => ⟨[], (tags.reverse, t.lead) :: t.runs⟩
      else readFrom? (some (c :: tags)) rest

/-- The reading of a text with markup. -/
def read? (text : String) : Option Marked := readFrom? none text.toList

example : read? "so \x7b\\r\x7dit" = some ⟨['s', 'o', ' '], [(['\\', 'r'], ['i', 't'])]⟩ ∧
    read? "\x7ba\x7bb\x7d\x7d" = none ∧ read? "a\x7d" = none ∧ read? "\x7ba" = none := by
  decide +kernel

end Marked

/-- The characters that open and close blocks. -/
def braces : List Char := ['\x7b', '\x7d']

/-- The characters that end the rows of a document. -/
def rowEnds : List Char := ['\n', '\r']

/-- A backslash stands only in front of the letter with which it breaks the line. -/
def BreaksOnly : List Char → Prop
  | [] => True
  | c :: rest => (c = '\\' → rest.head? = some 'N') ∧ BreaksOnly rest

/-- A text that is read as markup, is one row, and has no tags outside of its blocks. -/
structure Marked.Reads (text : String) (t : Marked) : Prop where
  read? : Marked.read? text = some t
  oneRow : text.toList.Disjoint rowEnds
  breaks : ∀ piece ∈ t.plain, BreaksOnly piece

/-! ## Chunks of markup -/

namespace Marked

variable {xs : List Char}

theorem readFrom?_plain (h : xs.Disjoint braces) (rest : List Char) :
    readFrom? none (xs ++ rest) =
      (readFrom? none rest).map fun t => { t with lead := xs ++ t.lead } := by
  induction xs with
  | nil => simp
  | cons c xs ih =>
      obtain ⟨hc, hxs⟩ := List.disjoint_cons_left.mp h
      simp only [braces, List.mem_cons, List.not_mem_nil, or_false, not_or] at hc
      rw [List.cons_append, readFrom?, if_neg hc.1, if_neg hc.2, ih hxs, Option.map_map]
      rfl

theorem readFrom?_inside (h : xs.Disjoint braces) (tags rest : List Char) :
    readFrom? (some tags) (xs ++ '\x7d' :: rest) =
      (readFrom? none rest).map fun t => ⟨[], (tags.reverse ++ xs, t.lead) :: t.runs⟩ := by
  induction xs generalizing tags with
  | nil => simp [readFrom?]
  | cons c xs ih =>
      obtain ⟨hc, hxs⟩ := List.disjoint_cons_left.mp h
      simp only [braces, List.mem_cons, List.not_mem_nil, or_false, not_or] at hc
      rw [List.cons_append, readFrom?, if_neg hc.1, if_neg hc.2, ih hxs]
      simp

theorem readFrom?_block {tags : String} (h : tags.toList.Disjoint braces) (rest : List Char) :
    readFrom? none ((block tags).toList ++ rest) =
      (readFrom? none rest).map fun t => ⟨[], (tags.toList, t.lead) :: t.runs⟩ := by
  have htext : (block tags).toList ++ rest = '\x7b' :: (tags.toList ++ '\x7d' :: rest) := by
    simp [block]
  rw [htext, readFrom?, if_pos rfl, readFrom?_inside h]
  rfl

/-- The texts of words in a row: a blank follows each but the last one. -/
def spaced : List (List Char) → List (List Char)
  | [] => []
  | [word] => [word]
  | word :: next :: rest => (word ++ [' ']) :: spaced (next :: rest)

theorem flatten_spaced (words : List (List Char)) :
    (spaced words).flatten = [' '].intercalate words := by
  induction words with
  | nil => rfl
  | cons word words ih =>
      cases words with
      | nil => simp [spaced]
      | cons next rest => rw [spaced, List.flatten_cons, ih, List.intercalate_cons_cons]

theorem length_spaced (words : List (List Char)) : (spaced words).length = words.length := by
  induction words with
  | nil => rfl
  | cons word words ih =>
      cases words with
      | nil => rfl
      | cons next rest => exact congrArg (· + 1) ih

/-- Words in a row, each after a block of its own. -/
def ofWords (tags words : List (List Char)) : Marked := ⟨[], tags.zip (spaced words)⟩

variable {tags words : List (List Char)}

theorem tags_ofWords (h : tags.length = words.length) : (ofWords tags words).tags = tags :=
  List.map_fst_zip (by rw [length_spaced, h])

theorem plain_ofWords (h : tags.length = words.length) :
    (ofWords tags words).plain = [] :: spaced words :=
  congrArg _ (List.map_snd_zip (by rw [length_spaced, h]))

theorem visible_ofWords (h : tags.length = words.length) :
    (ofWords tags words).visible = [' '].intercalate words := by
  rw [visible, plain_ofWords h, List.flatten_cons, flatten_spaced, List.nil_append]

theorem readFrom?_ofWords {pairs : List (String × String)}
    (h : ∀ p ∈ pairs, p.1.toList.Disjoint braces ∧ p.2.toList.Disjoint braces) :
    readFrom? none ([' '].intercalate (pairs.map fun p => (block p.1).toList ++ p.2.toList)) =
      some (ofWords (pairs.map (·.1.toList)) (pairs.map (·.2.toList))) := by
  induction pairs with
  | nil => rfl
  | cons p pairs ih =>
      obtain ⟨⟨htags, hword⟩, hrest⟩ := List.forall_mem_cons.mp h
      have hnil : readFrom? none [] = some ⟨[], []⟩ := rfl
      cases pairs with
      | nil =>
          have hlast := readFrom?_plain hword []
          rw [List.append_nil, hnil] at hlast
          simp [readFrom?_block htags, hlast, ofWords, spaced]
      | cons q pairs =>
          have hblank : (p.2.toList ++ [' ']).Disjoint braces :=
            disjoint_append_left.mpr ⟨hword, by simp [braces]⟩
          have hlater := ih hrest
          rw [List.map_cons] at hlater
          rw [List.map_cons, List.map_cons, List.intercalate_cons_cons, List.append_assoc,
            List.append_assoc, readFrom?_block htags, ← List.append_assoc,
            readFrom?_plain hblank, hlater]
          simp [ofWords, spaced]

end Marked

/-! ## Plain text -/

theorem disjoint_escapeChar (c : Char) : (escapeChar c).Disjoint (braces ++ rowEnds) := by
  unfold escapeChar
  split
  case h_6 hopen hclose _ hreturn hend =>
    simp only [braces, rowEnds, List.singleton_disjoint, List.cons_append, List.nil_append,
      List.mem_cons, List.not_mem_nil, or_false, not_or]
    exact ⟨hopen, hclose, hend, hreturn⟩
  all_goals simp [braces, rowEnds]

theorem breaksOnly_escapeChar (c : Char) : BreaksOnly (escapeChar c) := by
  unfold escapeChar
  split
  case h_6 hbackslash _ _ => exact ⟨fun heq => absurd heq hbackslash, trivial⟩
  all_goals simp [BreaksOnly]

theorem BreaksOnly.append {xs ys : List Char} (hx : BreaksOnly xs) (hy : BreaksOnly ys) :
    BreaksOnly (xs ++ ys) := by
  induction xs with
  | nil => exact hy
  | cons c xs ih =>
      have hhead (hc : c = '\\') : (xs ++ ys).head? = some 'N' := by
        rw [List.head?_append, hx.1 hc, Option.some_or]
      exact ⟨hhead, ih hx.2⟩

/-- Plain text made safe opens and closes no block and is one row. -/
theorem disjoint_escape (text : String) : (escape text).toList.Disjoint (braces ++ rowEnds) := by
  rw [escape, String.toList_ofList, disjoint_left]
  intro c hc
  obtain ⟨c', -, hmem⟩ := List.mem_flatMap.mp hc
  exact disjoint_left.mp (disjoint_escapeChar c') hmem

theorem breaksOnly_escape (text : String) : BreaksOnly (escape text).toList := by
  rw [escape, String.toList_ofList]
  induction text.toList with
  | nil => trivial
  | cons c rest ih => exact (breaksOnly_escapeChar c).append ih

/-! ## Colours -/

/-- The digits of colours, in either case. -/
theorem mem_of_isHexDigit {c : Char} (h : isHexDigit c) :
    c ∈ "0123456789ABCDEFabcdef".toList := by
  have hrange : c.toNat ∈ List.range' 48 10 ++ List.range' 65 6 ++ List.range' 97 6 := by
    simp only [isHexDigit, Bool.or_eq_true, Bool.and_eq_true, decide_eq_true_eq, Char.le_def,
      UInt32.le_iff_toNat_le] at h
    simp only [List.mem_append, List.mem_range'_1, Char.toNat]
    have h0 : ('0' : Char).val.toNat = 48 := rfl
    have h9 : ('9' : Char).val.toNat = 57 := rfl
    have ha : ('a' : Char).val.toNat = 97 := rfl
    have hf : ('f' : Char).val.toNat = 102 := rfl
    have hA : ('A' : Char).val.toNat = 65 := rfl
    have hF : ('F' : Char).val.toNat = 70 := rfl
    omega
  have hall : ∀ n ∈ List.range' 48 10 ++ List.range' 65 6 ++ List.range' 97 6,
      Char.ofNat n ∈ "0123456789ABCDEFabcdef".toList := by decide
  have hc := hall _ hrange
  rwa [Char.ofNat_toNat] at hc

theorem colourDigits?_eq_some {text : String} {digits : List Char}
    (h : colourDigits? text = some digits) : digits.length = 6 ∧
      ∀ c ∈ digits, c ∈ "0123456789ABCDEF".toList := by
  have hupper : "0123456789ABCDEFabcdef".toList.all fun c =>
      c.toUpper ∈ "0123456789ABCDEF".toList := by decide
  obtain ⟨⟨hlength, hall⟩, rfl⟩ := by simpa [colourDigits?] using h
  refine ⟨by simpa using hlength, ?_⟩
  rw [List.forall_mem_map]
  intro c hc
  exact of_decide_eq_true (List.all_eq_true.mp hupper c (mem_of_isHexDigit (hall c hc)))

/-- A colour is written with its six digits, those of blue first. -/
theorem colour_eq_ok {text tag : String} (h : colour text = .ok tag) : ∃ r r' g g' b b',
    colourDigits? text = some [r, r', g, g', b, b'] ∧
      tag.toList = ['&', 'H', '0', '0', b, b', g, g', r, r'] := by
  unfold colour at h
  split at h
  case h_1 r r' g g' b b' hdigits =>
    obtain rfl := Except.ok.inj h
    exact ⟨r, r', g, g', b, b', hdigits, String.toList_ofList⟩
  case h_2 => cases h

/-- Colours are made of a mark and digits. -/
theorem mem_of_colour {text tag : String} (h : colour text = .ok tag) :
    ∀ c ∈ tag.toList, c ∈ "&H0123456789ABCDEF".toList := by
  obtain ⟨r, r', g, g', b, b', hdigits, htag⟩ := colour_eq_ok h
  have hdigit : "0123456789ABCDEF".toList ⊆ "&H0123456789ABCDEF".toList := by decide
  have hzero : '0' ∈ "&H0123456789ABCDEF".toList := by decide
  have hall := (colourDigits?_eq_some hdigits).2
  simp only [List.forall_mem_cons, List.not_mem_nil, false_implies, implies_true, and_true] at hall
  obtain ⟨hr, hr', hg, hg', hb, hb'⟩ := hall
  simp only [htag, List.forall_mem_cons]
  exact ⟨by decide, by decide, hzero, hzero, hdigit hb, hdigit hb', hdigit hg, hdigit hg',
    hdigit hr, hdigit hr', List.forall_mem_nil _⟩

theorem disjoint_colour {text tag : String} (h : colour text = .ok tag) {bad : List Char}
    (hbad : "&H0123456789ABCDEF".toList.Disjoint bad) : tag.toList.Disjoint bad :=
  disjoint_left.mpr fun c hc => disjoint_left.mp hbad (mem_of_colour h c hc)

theorem disjoint_toString {bad : List Char} (hbad : bad.all fun c => !c.isDigit) (n : Nat) :
    (toString n).toList.Disjoint bad := by
  refine disjoint_left.mpr (Decimal.forall_mem_toString (fun c hdigit hmem => ?_) n)
  have hnot := List.all_eq_true.mp hbad c hmem
  rw [hdigit] at hnot
  cases hnot

/-! ## Tags -/

namespace Maker

variable {m : Maker}

theorem disjoint_tags (hcolour : m.highlightColour.toList.Disjoint (braces ++ rowEnds))
    (pulseMs : Nat) (turn : Turn) : (m.tags pulseMs turn).toList.Disjoint (braces ++ rowEnds) := by
  have hnumber (n : Nat) : (toString n).toList.Disjoint (braces ++ rowEnds) :=
    disjoint_toString (by decide) n
  have hmark : "\\r\\1c".toList.Disjoint (braces ++ rowEnds) := by decide
  have hend : "&".toList.Disjoint (braces ++ rowEnds) := by decide
  have hgrow : "\\t(0,".toList.Disjoint (braces ++ rowEnds) := by decide
  have hshrink : "\\t(".toList.Disjoint (braces ++ rowEnds) := by decide
  have hcomma : ",".toList.Disjoint (braces ++ rowEnds) := by decide
  have hwidth : ",\\fscx".toList.Disjoint (braces ++ rowEnds) := by decide
  have hheight : "\\fscy".toList.Disjoint (braces ++ rowEnds) := by decide
  have hclose : ")".toList.Disjoint (braces ++ rowEnds) := by decide
  have hback : ",\\fscx100\\fscy100)".toList.Disjoint (braces ++ rowEnds) := by decide
  cases turn with
  | spoken => exact (by decide : "\\r".toList.Disjoint (braces ++ rowEnds))
  | coming => exact (by decide : "\\r\\1a&H80&".toList.Disjoint (braces ++ rowEnds))
  | active =>
      simp only [tags]
      split <;> simp only [String.toList_append, disjoint_append_left]
      · exact ⟨⟨hmark, hcolour⟩, hend⟩
      · refine ⟨⟨⟨⟨hmark, hcolour⟩, hend⟩, ?_⟩, ?_⟩
        · exact ⟨⟨⟨⟨⟨⟨hgrow, hnumber _⟩, hwidth⟩, hnumber _⟩, hheight⟩, hnumber _⟩, hclose⟩
        · exact ⟨⟨⟨⟨hshrink, hnumber _⟩, hcomma⟩, hnumber _⟩, hback⟩

end Maker

end Caption

end Montage
