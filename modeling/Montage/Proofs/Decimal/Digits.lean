import Mathlib.Algebra.Ring.Nat
import Mathlib.Data.List.Basic
import Montage.Decimal.Fixed

/-! # Written numbers

Natural numbers are read back from their digits, also from padded ones, and numbers with a fixed
count of places are written with few characters. -/

namespace Montage.Decimal

/-- The reader of numbers reads what is written for a number. -/
theorem natOfText?_toDigits (n : Nat) : natOfText? (Nat.toDigits 10 n) = some n := by
  have hdigits : (Nat.toDigits 10 n).all isDigit := by
    rw [List.all_eq_true]
    intro c hc
    have hdigit := Nat.isDigit_of_mem_toDigits (by decide) (by decide) hc
    simpa [isDigit, Char.isDigit, Char.le_def] using hdigit
  rw [natOfText?, if_pos ⟨Nat.toDigits_ne_nil, hdigits⟩]
  exact congrArg some (Nat.ofDigitChars_toDigits (by decide) (by decide))

theorem isDigit_of_mem_toDigits {n : Nat} {c : Char} (h : c ∈ Nat.toDigits 10 n) : isDigit c := by
  have hread := natOfText?_toDigits n
  rw [natOfText?, Option.ite_none_right_eq_some] at hread
  exact List.all_eq_true.mp hread.1.2 c h

theorem ofDigits_toDigits (n : Nat) : ofDigits (Nat.toDigits 10 n) = n := by
  have hread := natOfText?_toDigits n
  rw [natOfText?, Option.ite_none_right_eq_some] at hread
  exact Option.some.inj hread.2

theorem digitChar_ne_zero : ∀ n < 10, n ≠ 0 → n.digitChar ≠ '0' := by decide

/-- Only zero is written with a zero in front. -/
theorem head?_toDigits {n : Nat} (h : (Nat.toDigits 10 n).head? = some '0') : n = 0 := by
  induction n using Nat.strongRecOn with
  | ind n ih =>
      rw [Nat.toDigits_eq_if (by decide)] at h
      split at h
      case isTrue hsmall =>
        by_contra hn
        exact digitChar_ne_zero n hsmall hn (Option.some.inj h)
      case isFalse hlarge =>
        rw [List.head?_append_of_ne_nil _ Nat.toDigits_ne_nil] at h
        have hzero := ih (n / 10) (by omega) h
        omega

theorem natOfText?_toString (n : Nat) : natOfText? (toString n).toList = some n := by
  rw [Nat.toString_eq_repr, Nat.toList_repr, natOfText?_toDigits]

theorem ofDigits_replicate_zero (count : Nat) (digits : List Char) :
    ofDigits (List.replicate count '0' ++ digits) = ofDigits digits := by
  induction count with
  | zero => rfl
  | succ count ih => rwa [List.replicate_succ, List.cons_append]

/-- Zeros in front change nothing. -/
theorem natOfText?_padded (width n : Nat) : natOfText? (padded width n) = some n := by
  have hread := natOfText?_toDigits n
  rw [natOfText?, Option.ite_none_right_eq_some] at hread
  obtain ⟨⟨hne, hdigits⟩, hvalue⟩ := hread
  rw [padded, List.leftpad, natOfText?, ofDigits_replicate_zero, if_pos, hvalue]
  refine ⟨by simp [hne], ?_⟩
  rw [List.all_append, hdigits, Bool.and_true, List.all_replicate]
  simp [isDigit]

theorem isDigit_of_mem_padded {width n : Nat} {c : Char} (h : c ∈ padded width n) :
    c.isDigit = true := by
  rw [padded, List.leftpad] at h
  rcases List.mem_append.mp h with hzero | hdigit
  · rw [List.eq_of_mem_replicate hzero]
    rfl
  · exact Nat.isDigit_of_mem_toDigits (by decide) (by decide) hdigit

theorem not_mem_padded {c : Char} (hc : c.isDigit = false) (width n : Nat) : c ∉ padded width n :=
  fun hmem => Bool.false_ne_true (hc.symm.trans (isDigit_of_mem_padded hmem))

/-- A number that fits has exactly as many digits as it is padded to. -/
theorem length_padded {width n : Nat} (hwidth : 0 < width) (h : n < 10 ^ width) :
    (padded width n).length = width := by
  have hcount : (Nat.toDigits 10 n).length ≤ width :=
    (Nat.length_toDigits_le_iff (by decide) hwidth).mpr h
  rw [padded, List.length_leftpad]
  omega

/-- Zeros are only put in front of a number that fits. -/
theorem length_padded_of_head? {width n : Nat} (hwidth : 0 < width)
    (h : (padded width n).head? = some '0') : (padded width n).length = width := by
  rcases lt_or_ge n (10 ^ width) with hn | hn
  · exact length_padded hwidth hn
  · have hlength : width < (Nat.toDigits 10 n).length := by
      by_contra hshort
      exact absurd ((Nat.length_toDigits_le_iff (by decide) hwidth).mp (not_lt.mp hshort))
        (not_lt.mpr hn)
    rw [padded, List.leftpad, Nat.sub_eq_zero_of_le (Nat.le_of_lt hlength), List.replicate_zero,
      List.nil_append] at h
    have hpos : 0 < 10 ^ width := Nat.pow_pos (by decide)
    rw [head?_toDigits h] at hn
    omega

theorem padded_inj {width m n : Nat} (h : padded width m = padded width n) : m = n := by
  have hread := natOfText?_padded width m
  rw [h, natOfText?_padded] at hread
  exact (Option.some.inj hread).symm

/-- Numbers that fit have the same width, so that what follows them starts at the same place. -/
theorem padded_append_inj {width m n : Nat} {rest rest' : List Char} (hwidth : 0 < width)
    (hm : m < 10 ^ width) (hn : n < 10 ^ width)
    (h : padded width m ++ rest = padded width n ++ rest') : m = n ∧ rest = rest' := by
  have hlength : (padded width m).length = (padded width n).length := by
    rw [length_padded hwidth hm, length_padded hwidth hn]
  exact (List.append_inj h hlength).imp_left padded_inj

/-! ## Integers -/

/-- Digits with or without a sign, and the integer that they denote. -/
inductive IsInteger : List Char → Int → Prop
  | plain {digits : List Char} {n : Nat} (h : natOfText? digits = some n) : IsInteger digits n
  | plus {digits : List Char} {n : Nat} (h : natOfText? digits = some n) :
      IsInteger ('+' :: digits) n
  | minus {digits : List Char} {n : Nat} (h : natOfText? digits = some n) :
      IsInteger ('-' :: digits) (-n)

theorem intOfText?_eq_some {text : List Char} {n : Int} :
    intOfText? text = some n ↔ IsInteger text n := by
  constructor
  · intro h
    rw [intOfText?.eq_def] at h
    split at h <;> simp only [Option.map_eq_some_iff, Option.bind_eq_bind, Option.bind_eq_some_iff,
      Option.pure_def, Option.some.injEq] at h <;> obtain ⟨_, ⟨n, hn, rfl⟩, rfl⟩ := h
    · exact .minus hn
    · exact .plus hn
    · exact .plain hn
  · intro h
    cases h with
    | plus h | minus h => simp [intOfText?, h]
    | plain h =>
        have hfirst : ∀ c rest, text = c :: rest → isDigit c := by
          rintro c rest rfl
          rw [natOfText?, Option.ite_none_right_eq_some] at h
          exact List.all_eq_true.mp h.1.2 c List.mem_cons_self
        rw [intOfText?]
        · simp [h]
        · exact fun rest heq => absurd (hfirst _ _ heq) (by decide)
        · exact fun rest heq => absurd (hfirst _ _ heq) (by decide)

/-! ## Characters of a written number -/

variable {P : Char → Prop}

theorem forall_mem_toString (hdigit : ∀ c : Char, c.isDigit → P c) (n : Nat) :
    ∀ c ∈ (toString n).toList, P c := by
  intro c hc
  rw [Nat.toString_eq_repr, Nat.toList_repr] at hc
  exact hdigit c (Nat.isDigit_of_mem_toDigits (by decide) (by decide) hc)

theorem not_mem_toString {c : Char} (hc : c.isDigit = false) (n : Nat) :
    c ∉ (toString n).toList := by
  intro hmem
  have hdigit : c.isDigit = true := forall_mem_toString (P := (·.isDigit)) (fun _ h => h) n c hmem
  rw [hc] at hdigit
  cases hdigit

theorem forall_mem_pointed (hdigit : ∀ c : Char, c.isDigit → P c) (hpoint : P '.')
    (digits places : Nat) : ∀ c ∈ pointed digits places, P c := by
  have hwritten : ∀ c ∈ padded (places + 1) digits, P c := fun c hc =>
    hdigit c (isDigit_of_mem_padded hc)
  rw [pointed]
  split
  · exact fun c hc => hwritten c (List.mem_of_mem_take hc)
  · rw [List.forall_mem_append, List.forall_mem_cons]
    exact ⟨fun c hc => hwritten c (List.mem_of_mem_take hc), hpoint,
      fun c hc => hwritten c (List.mem_of_mem_drop hc)⟩

/-- What numbers with a fixed count of places are made of. -/
theorem forall_mem_fixed (hdigit : ∀ c : Char, c.isDigit → P c)
    (hmark : ∀ c ∈ ['-', '.', 'N', 'a', 'i', 'n', 'f'], P c) (places : Nat) (x : Binary64) :
    ∀ c ∈ (fixed places x).toList, P c := by
  have hword {text : List Char} (h : text ⊆ ['-', '.', 'N', 'a', 'i', 'n', 'f']) :
      ∀ c ∈ text, P c := fun c hc => hmark c (h hc)
  have hsign (negative : Bool) : ∀ c ∈ if negative then ['-'] else [], P c := by
    cases negative <;> exact hword (by decide)
  rw [fixed, String.toList_ofList]
  cases x with
  | undefined => exact hword (by decide : ['N', 'a', 'N'] ⊆ _)
  | infinite negative => exact List.forall_mem_append.mpr ⟨hsign negative, hword (by decide)⟩
  | finite negative mant exp h =>
      have hpointed := forall_mem_pointed hdigit (hmark '.' (by decide))
      exact List.forall_mem_append.mpr ⟨hsign negative, hpointed _ places⟩

theorem not_mem_fixed {c : Char} (hc : c.isDigit = false)
    (hmark : c ∉ ['-', '.', 'N', 'a', 'i', 'n', 'f']) (places : Nat) (x : Binary64) :
    c ∉ (fixed places x).toList := by
  intro hmem
  refine forall_mem_fixed (P := (· ≠ c)) (fun d hdigit heq => ?_) (fun d hd heq => ?_) places x c
    hmem rfl
  · rw [heq, hc] at hdigit
    cases hdigit
  · exact hmark (heq ▸ hd)

end Montage.Decimal
