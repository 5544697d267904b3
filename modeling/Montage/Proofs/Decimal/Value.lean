import Mathlib.Data.List.TakeWhile
import Montage.Proofs.Binary64.Values
import Montage.Proofs.Decimal.Digits

/-! # The value of a written number

A decimal text is read back as an exact rational. What is read of a number with a fixed count of
places is the number rounded to so many places. -/

namespace Montage.Decimal

/-! ## Reading -/

/-- The number that digits denote, with a point and more digits or without. -/
def magnitude? (text : List Char) : Option Rat :=
  let whole := text.takeWhile isDigit
  match text.dropWhile isDigit with
  | [] => do
      let n ← natOfText? whole
      return (n : Rat)
  | '.' :: fraction => do
      let n ← natOfText? whole
      let part ← natOfText? fraction
      return (n : Rat) + (part : Rat) / 10 ^ fraction.length
  | _ => none

/-- The number that a decimal text denotes. -/
def value? : List Char → Option Rat
  | '-' :: rest => (magnitude? rest).map fun v => -v
  | text => magnitude? text

/-! ## What is written -/

theorem ofDigits_append (a b : List Char) :
    ofDigits (a ++ b) = 10 ^ b.length * ofDigits a + ofDigits b :=
  (Nat.ofDigitChars_append (b := 10) (l := a) (m := b) 0).trans
    Nat.ofDigitChars_eq_ofDigitChars_zero

theorem natOfText?_eq_some {text : List Char} (hne : text ≠ []) (hdigits : ∀ c ∈ text, isDigit c) :
    natOfText? text = some (ofDigits text) := if_pos ⟨hne, List.all_eq_true.mpr hdigits⟩

/-- Digits end where a character follows that is none. -/
theorem takeWhile_digits {text : List Char} (rest : List Char) (hdigits : ∀ c ∈ text, isDigit c)
    (hrest : ∀ c ∈ rest.head?, isDigit c = false) :
    (text ++ rest).takeWhile isDigit = text ∧ (text ++ rest).dropWhile isDigit = rest := by
  rw [List.takeWhile_append_of_pos hdigits, List.dropWhile_append_of_pos hdigits]
  cases rest with
  | nil => simp
  | cons c rest => simp [hrest c rfl]

theorem magnitude?_of_natOfText? {text : List Char} {n : Nat} (h : natOfText? text = some n) :
    magnitude? text = some (n : Rat) := by
  have hread := h
  rw [natOfText?, Option.ite_none_right_eq_some] at hread
  have hdigits := List.all_eq_true.mp hread.1.2
  rw [magnitude?, List.dropWhile_eq_nil_iff.mpr hdigits, List.takeWhile_eq_self_iff.mpr hdigits]
  simp only [h, Option.bind_eq_bind, Option.bind_some, Option.pure_def]

theorem magnitude?_toString (n : Nat) : magnitude? (toString n).toList = some (n : Rat) :=
  magnitude?_of_natOfText? (natOfText?_toString n)

/-- Digits around a point. -/
theorem magnitude?_append {whole fraction : List Char} (hwhole : whole ≠ [])
    (hfraction : fraction ≠ []) (hdigits : ∀ c ∈ whole ++ fraction, isDigit c) :
    magnitude? (whole ++ '.' :: fraction) =
      some ((ofDigits (whole ++ fraction) : Rat) / 10 ^ fraction.length) := by
  rw [List.forall_mem_append] at hdigits
  obtain ⟨htake, hdrop⟩ := takeWhile_digits ('.' :: fraction) hdigits.1 (by simp [isDigit])
  rw [magnitude?, htake, hdrop]
  simp only [natOfText?_eq_some hwhole hdigits.1, natOfText?_eq_some hfraction hdigits.2,
    Option.bind_eq_bind, Option.bind_some, Option.pure_def, ofDigits_append]
  congr 1
  push_cast
  rw [add_div, mul_div_cancel_left₀ _ (by positivity)]

/-- The places behind the point and the digits before it are together the digits of the number. Only
a zero that stands alone is before the point. -/
theorem pointed_spec (digits : Nat) {places : Nat} (hplaces : places ≠ 0) :
    ∃ whole fraction, pointed digits places = whole ++ '.' :: fraction ∧ whole ≠ [] ∧
      fraction.length = places ∧ (∀ c ∈ whole ++ fraction, isDigit c) ∧
      ofDigits (whole ++ fraction) = digits ∧ (whole.head? = some '0' → whole.length = 1) := by
  have hread := natOfText?_padded (places + 1) digits
  have hlength : places < (padded (places + 1) digits).length := by
    rw [padded, List.length_leftpad]
    omega
  rw [pointed, if_neg hplaces]
  have hlead := length_padded_of_head? (n := digits) (Nat.succ_pos places)
  generalize padded (places + 1) digits = written at hread hlength hlead ⊢
  rw [natOfText?, Option.ite_none_right_eq_some, Option.some.injEq] at hread
  have hsplit := List.take_append_drop (written.length - places) written
  refine ⟨_, _, rfl, ?_, ?_, ?_, ?_, fun hzero => ?_⟩
  · rw [← List.length_pos_iff_ne_nil, List.length_take]
    omega
  · rw [List.length_drop]
    omega
  · rw [hsplit]
    exact List.all_eq_true.mp hread.1.2
  · rw [hsplit]
    exact hread.2
  · rw [List.head?_take, if_neg (by omega)] at hzero
    rw [List.length_take, hlead hzero]
    omega

/-- The point stands where it divides by the right power of ten. -/
theorem magnitude?_pointed (digits places : Nat) :
    magnitude? (pointed digits places) = some ((digits : Rat) / 10 ^ places) := by
  by_cases hplaces : places = 0
  · have hread := natOfText?_padded 1 digits
    rw [hplaces, pointed, if_pos rfl, Nat.sub_zero, List.take_length,
      magnitude?_of_natOfText? hread, pow_zero, div_one]
  · obtain ⟨whole, fraction, htext, hwhole, hlength, hdigits, hvalue, -⟩ :=
      pointed_spec digits hplaces
    have hfraction : fraction ≠ [] := by
      rw [← List.length_pos_iff_ne_nil]
      omega
    rw [htext, magnitude?_append hwhole hfraction hdigits, hvalue, hlength]

/-! ## Numbers with a fixed count of places -/

/-- A number rounded to so many places. -/
def roundedTo (places : Nat) (q : Rat) : Rat :=
  (Rounding.nearestEven (q * 10 ^ places) : Rat) / 10 ^ places

theorem roundedTo_mono (places : Nat) {q r : Rat} (h : q ≤ r) :
    roundedTo places q ≤ roundedTo places r := by
  have hscaled := Rounding.nearestEven_mono
    (mul_le_mul_of_nonneg_right h (by positivity : (0 : Rat) ≤ 10 ^ places))
  exact div_le_div_of_nonneg_right (by exact_mod_cast hscaled) (by positivity)

theorem abs_roundedTo_sub_le (places : Nat) (q : Rat) :
    |roundedTo places q - q| ≤ 1 / 2 / 10 ^ places := by
  have hpow : (0 : Rat) < 10 ^ places := by positivity
  have hsplit : roundedTo places q - q =
      (Rounding.nearestEven (q * 10 ^ places) - q * 10 ^ places) / 10 ^ places := by
    rw [roundedTo, sub_div, mul_div_cancel_right₀ _ hpow.ne']
  rw [hsplit, abs_div, abs_of_pos hpow]
  exact div_le_div_of_nonneg_right (Rounding.abs_nearestEven_sub_le _) hpow.le

theorem roundedTo_intCast (places : Nat) (n : Int) : roundedTo places n = n := by
  have hscaled : (n : Rat) * 10 ^ places = ((n * 10 ^ places : Int) : Rat) := by push_cast; rfl
  rw [roundedTo, hscaled, Rounding.nearestEven_intCast, Int.cast_mul, Int.cast_pow, Int.cast_ofNat,
    mul_div_cancel_right₀ _ (by positivity)]

theorem roundedTo_pos_iff {places : Nat} {q : Rat} :
    0 < roundedTo places q ↔ 1 / 2 / 10 ^ places < q := by
  have hpow : (0 : Rat) < 10 ^ places := by positivity
  rw [roundedTo, div_pos_iff_of_pos_right hpow, div_lt_iff₀ hpow]
  have hhalf : Rounding.nearestEven (1 / 2) = 0 := by simpa using Rounding.nearestEven_half 0
  constructor
  · intro h
    by_contra hle
    have hmono := Rounding.nearestEven_mono (not_lt.mp hle)
    rw [hhalf] at hmono
    exact absurd h (not_lt.mpr (by exact_mod_cast hmono))
  · intro h
    have hnear := abs_le.mp (Rounding.abs_nearestEven_sub_le (q * 10 ^ places))
    linarith

/-- A number is rounded to the nearest one of so many places. -/
theorem roundedTo_eq {places : Nat} {q : Rat} {k : Int} (h : |q * 10 ^ places - k| < 1 / 2) :
    roundedTo places q = k / 10 ^ places := by
  obtain ⟨hlow, hhigh⟩ := abs_lt.mp h
  rw [roundedTo, Rounding.nearestEven_eq (k := k) (by linarith) (by linarith)]

/-- What is missing to one is rounded to what is missing to one. -/
theorem roundedTo_one_sub {places : Nat} (hplaces : places ≠ 0) (q : Rat) :
    roundedTo places (1 - q) = 1 - roundedTo places q := by
  have hpow : (10 : Rat) ^ places ≠ 0 := by positivity
  have heven : (10 : Int) ^ places % 2 = 0 :=
    Int.emod_eq_zero_of_dvd ((by norm_num : (2 : Int) ∣ 10).trans (dvd_pow_self 10 hplaces))
  have hscaled : (1 - q) * 10 ^ places = ((10 ^ places : Int) : Rat) + -(q * 10 ^ places) := by
    push_cast
    ring
  rw [roundedTo, hscaled, Rounding.nearestEven_add heven, Rounding.nearestEven_neg, roundedTo,
    ← sub_eq_add_neg, Int.cast_sub, Int.cast_pow, Int.cast_ofNat, sub_div, div_self hpow]

theorem value?_eq_magnitude? {text : List Char} (h : '-' ∉ text) :
    value? text = magnitude? text := by
  cases text with
  | nil => rfl
  | cons c rest =>
      rw [value?]
      rintro more heq
      rw [heq] at h
      exact h List.mem_cons_self

theorem value?_pointed (digits places : Nat) :
    value? (pointed digits places) = some ((digits : Rat) / 10 ^ places) := by
  have hsign := forall_mem_pointed (P := (· ≠ '-')) (by rintro c hc rfl; cases hc) (by decide)
    digits places
  rw [value?_eq_magnitude? fun hmem => hsign _ hmem rfl, magnitude?_pointed]

/-- What is written of a number: a sign if it has one, and the digits of the number, rounded. -/
theorem fixed_eq {x : Binary64} {v : Rat} (h : x.Has v) (places : Nat) :
    ∃ digits : Nat,
      (fixed places x).toList = pointed digits places ∧ roundedTo places v = digits / 10 ^ places ∨
      (fixed places x).toList = '-' :: pointed digits places ∧
        roundedTo places v = -(digits / 10 ^ places) := by
  obtain ⟨hfinite, rfl⟩ := h
  obtain ⟨negative, mant, exp, hc, rfl⟩ := Binary64.exists_eq_finite hfinite
  have hpow : (0 : Rat) < (2 : Rat) ^ exp := zpow_pos (by norm_num) _
  have hmagnitude : 0 ≤ (mant : Rat) * (2 : Rat) ^ exp := mul_nonneg (Nat.cast_nonneg mant) hpow.le
  have hscaled :
      ((Rounding.nearestEven ((mant : Rat) * (2 : Rat) ^ exp * 10 ^ places)).toNat : Rat) =
        Rounding.nearestEven ((mant : Rat) * (2 : Rat) ^ exp * 10 ^ places) := by
    have hnonneg : 0 ≤ Rounding.nearestEven ((mant : Rat) * (2 : Rat) ^ exp * 10 ^ places) :=
      Rounding.le_nearestEven (by exact_mod_cast mul_nonneg hmagnitude (by positivity))
    exact_mod_cast Int.toNat_of_nonneg hnonneg
  refine ⟨(Rounding.nearestEven ((mant : Rat) * (2 : Rat) ^ exp * 10 ^ places)).toNat, ?_⟩
  rw [fixed, String.toList_ofList, fixedChars, hscaled]
  cases negative with
  | false =>
      left
      simp only [Binary64.toRat, Bool.false_eq_true, if_false, List.nil_append,
        Rat.abs_of_nonneg hmagnitude, roundedTo, and_self]
  | true =>
      right
      simp only [Binary64.toRat, if_true, List.singleton_append, Rat.abs_neg,
        Rat.abs_of_nonneg hmagnitude, roundedTo, true_and]
      rw [neg_mul, Rounding.nearestEven_neg, Int.cast_neg, neg_div]

/-- What is read of a number is the number, rounded. -/
theorem value?_fixed {x : Binary64} {v : Rat} (h : x.Has v) (places : Nat) :
    value? (fixed places x).toList = some (roundedTo places v) := by
  obtain ⟨digits, ⟨htext, hvalue⟩ | ⟨htext, hvalue⟩⟩ := fixed_eq h places
  · rw [htext, value?_pointed, hvalue]
  · rw [htext, value?, magnitude?_pointed, Option.map_some, hvalue]

/-! ## Three places -/

/-- The thousandths of a number that is written with exactly three places and no sign. -/
def thousandths? (text : List Char) : Option Nat :=
  match text.splitOn '.' with
  | [whole, fraction] =>
      if fraction.length = 3 then do
        return 1000 * (← natOfText? whole) + (← natOfText? fraction)
      else none
  | _ => none

example : thousandths? "12.050".toList = some 12050 ∧ thousandths? "12.05".toList = none ∧
    thousandths? "0".toList = none := by decide +kernel

theorem thousandths?_pointed (digits : Nat) : thousandths? (pointed digits 3) = some digits := by
  obtain ⟨whole, fraction, htext, hwhole, hlength, hdigits, rfl, -⟩ :=
    pointed_spec digits (by decide : 3 ≠ 0)
  rw [List.forall_mem_append] at hdigits
  have hpoint {text : List Char} (h : ∀ c ∈ text, isDigit c) : '.' ∉ text := fun hmem =>
    absurd (h '.' hmem) (by decide)
  have hfraction : fraction ≠ [] := by
    rw [← List.length_pos_iff_ne_nil]
    omega
  rw [thousandths?, htext, List.splitOn_append_cons_self_of_not_mem (hpoint hdigits.1),
    List.splitOn_eq_singleton (hpoint hdigits.2)]
  simp only [hlength, if_true, natOfText?_eq_some hwhole hdigits.1,
    natOfText?_eq_some hfraction hdigits.2, Option.bind_eq_bind, Option.bind_some, Option.pure_def,
    ofDigits_append, Nat.reducePow]

/-- A number that is less than half a thousandth off is written as the thousandths it is close to,
unless it gets a sign. -/
theorem thousandths?_fixed {x : Binary64} {v : Rat} (h : x.Has v) {n : Nat}
    (hnear : |v * 10 ^ 3 - n| < 1 / 2) (hsign : n = 0 → '-' ∉ (fixed 3 x).toList) :
    thousandths? (fixed 3 x).toList = some n := by
  have hrounded : roundedTo 3 v = ((n : Int) : Rat) / 10 ^ 3 :=
    roundedTo_eq (by rwa [Int.cast_natCast])
  rw [Int.cast_natCast] at hrounded
  obtain ⟨digits, ⟨htext, hvalue⟩ | ⟨htext, hvalue⟩⟩ := fixed_eq h 3
  · have hdigits : (digits : Rat) = n := by
      rw [hrounded] at hvalue
      linarith
    rw [htext, thousandths?_pointed, Nat.cast_injective hdigits]
  · have hzero : n = 0 := by
      rw [hrounded, ← neg_div] at hvalue
      have hsum : (n : Rat) + digits = 0 := by linarith
      exact (Nat.add_eq_zero_iff.mp (by exact_mod_cast hsum)).1
    exact absurd (htext ▸ List.mem_cons_self) (hsign hzero)

end Montage.Decimal
