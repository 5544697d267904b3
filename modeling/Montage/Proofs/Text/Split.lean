import Mathlib.Data.List.Infix
import Montage.Text.Split

/-! # Pieces of a text

A text that is cut at a mark or at a character is the pieces with what they were cut at between
them. -/

namespace Montage.Text

/-! ## White space -/

theorem trimChars_eq {text : List Char} (h : ∀ c ∈ text, isBlank c = false) :
    trimChars text = text := by
  have hkeep {l : List Char} (hl : ∀ c ∈ l, isBlank c = false) : l.dropWhile isBlank = l := by
    cases l with
    | nil => rfl
    | cons c l => rw [List.dropWhile_cons_of_neg (by simp [hl c])]
  have hreverse : ∀ c ∈ text.reverse, isBlank c = false := by simpa using h
  rw [trimChars, hkeep h, hkeep hreverse, List.reverse_reverse]

/-! ## Marks -/

variable {mark text before rest : List Char}

theorem eq_of_splitAt? (h : splitAt? mark text = some (before, rest)) :
    text = before ++ mark ++ rest := by
  induction text generalizing before with
  | nil =>
      rw [splitAt?, Option.ite_none_right_eq_some] at h
      obtain ⟨rfl, heq⟩ := h
      cases heq
      rfl
  | cons c text ih =>
      rw [splitAt?] at h
      split at h
      case isTrue hbegun =>
        cases h
        exact (List.prefix_iff_eq_append.mp (List.isPrefixOf_iff_prefix.mp hbegun)).symm
      case isFalse =>
        obtain ⟨⟨start, _⟩, hsplit, heq⟩ := Option.map_eq_some_iff.mp h
        cases heq
        rw [ih hsplit, List.cons_append, List.cons_append]

/-- A mark whose first character does not come again in it cannot overlap itself. -/
theorem splitAt?_append {c : Char} (hc : c ∉ mark) (h : ¬ c :: mark <:+: before) :
    splitAt? (c :: mark) (before ++ c :: mark ++ rest) = some (before, rest) := by
  induction before with
  | nil =>
      have hbegun : (c :: mark).isPrefixOf (c :: (mark ++ rest)) := by simp
      rw [List.nil_append, List.cons_append, splitAt?, if_pos hbegun]
      simp
  | cons d before ih =>
      rw [List.infix_cons_iff, not_or] at h
      have hbegun : ¬ c :: mark <+: d :: (before ++ c :: mark ++ rest) := by
        intro hprefix
        obtain ⟨hd, hmark⟩ := List.cons_prefix_cons.mp hprefix
        have hfirst : before ++ [c] <+: before ++ c :: mark ++ rest := ⟨mark ++ rest, by simp⟩
        rcases List.prefix_or_prefix_of_prefix hmark hfirst with hin | hout
        · rcases List.prefix_concat_iff.mp hin with heq | hin
          · exact hc (by simp [heq])
          · exact h.1 (List.cons_prefix_cons.mpr ⟨hd, hin⟩)
        · exact hc (hout.subset (by simp))
      rw [List.cons_append, List.cons_append, splitAt?,
        if_neg (by rwa [List.isPrefixOf_iff_prefix]), ih h.2, Option.map_some]

/-! ## Runs -/

theorem splitOnChar_ne_nil (c : Char) (xs : List Char) : splitOnChar c xs ≠ [] := by
  cases xs with
  | nil => exact List.cons_ne_nil _ _
  | cons x xs =>
      rw [splitOnChar]
      split
      · exact List.cons_ne_nil _ _
      · split <;> exact List.cons_ne_nil _ _

theorem splitOnChar_append (c : Char) (xs ys : List Char) :
    splitOnChar c (xs ++ c :: ys) = splitOnChar c xs ++ splitOnChar c ys := by
  induction xs with
  | nil => simp [splitOnChar]
  | cons x xs ih =>
      rw [List.cons_append, splitOnChar, splitOnChar, ih]
      by_cases hx : x = c
      · rw [if_pos hx, if_pos hx, List.cons_append]
      · rw [if_neg hx, if_neg hx]
        cases hruns : splitOnChar c xs with
        | nil => exact absurd hruns (splitOnChar_ne_nil c xs)
        | cons run runs => rfl

theorem splitOnChar_of_not_mem {c : Char} {xs : List Char} (h : c ∉ xs) :
    splitOnChar c xs = [xs] := by
  induction xs with
  | nil => rfl
  | cons x xs ih =>
      rw [List.mem_cons, not_or] at h
      rw [splitOnChar, if_neg (Ne.symm h.1), ih h.2]

/-- The first run and what follows it are told by the text. -/
theorem eq_of_append_cons {c : Char} {xs xs' ys ys' : List Char} (hxs : c ∉ xs) (hxs' : c ∉ xs')
    (h : xs ++ c :: ys = xs' ++ c :: ys') : xs = xs' ∧ ys = ys' := by
  have hruns := congrArg (splitOnChar c) h
  rw [splitOnChar_append, splitOnChar_append, splitOnChar_of_not_mem hxs,
    splitOnChar_of_not_mem hxs'] at hruns
  obtain rfl : xs = xs' := (List.cons.inj hruns).1
  exact ⟨rfl, (List.cons.inj (List.append_cancel_left h)).2⟩

theorem intercalate_splitOnChar (c : Char) (xs : List Char) :
    [c].intercalate (splitOnChar c xs) = xs := by
  induction xs with
  | nil => rfl
  | cons x xs ih =>
      rw [splitOnChar]
      split
      case isTrue hx =>
        rw [List.intercalate_cons_of_ne_nil (splitOnChar_ne_nil c xs), ih, hx]
        rfl
      case isFalse =>
        cases hruns : splitOnChar c xs with
        | nil => exact absurd hruns (splitOnChar_ne_nil c xs)
        | cons run runs => simp only [List.intercalate_cons_cons_left, ← hruns, ih]

theorem splitOnChar_intercalate {c : Char} {runs : List (List Char)} (hne : runs ≠ [])
    (hruns : ∀ run ∈ runs, c ∉ run) : splitOnChar c ([c].intercalate runs) = runs := by
  induction runs with
  | nil => exact absurd rfl hne
  | cons run runs ih =>
      obtain ⟨hrun, hrest⟩ := List.forall_mem_cons.mp hruns
      by_cases hnil : runs = []
      · rw [hnil, List.intercalate_singleton, splitOnChar_of_not_mem hrun]
      · rw [List.intercalate_cons_of_ne_nil hnil, List.append_assoc, List.singleton_append,
          splitOnChar_append, splitOnChar_of_not_mem hrun, ih hnil hrest, List.singleton_append]

theorem not_mem_of_mem_splitOnChar {c : Char} {xs run : List Char}
    (h : run ∈ splitOnChar c xs) : c ∉ run := by
  induction xs generalizing run with
  | nil =>
      rw [List.mem_singleton.mp h]
      exact List.not_mem_nil
  | cons x xs ih =>
      rw [splitOnChar] at h
      split at h
      case isTrue =>
        rcases List.mem_cons.mp h with rfl | h
        · exact List.not_mem_nil
        · exact ih h
      case isFalse hx =>
        cases hruns : splitOnChar c xs with
        | nil => exact absurd hruns (splitOnChar_ne_nil c xs)
        | cons first runs =>
            rw [hruns] at h ih
            rcases List.mem_cons.mp h with rfl | h
            · rw [List.mem_cons, not_or]
              exact ⟨Ne.symm hx, ih List.mem_cons_self⟩
            · exact ih (List.mem_cons_of_mem _ h)

end Montage.Text
