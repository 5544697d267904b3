import Montage.Clip.Basic
import Montage.Proofs.Binary64.Bounds
import Montage.Proofs.Decimal.Value

/-! # Seconds as they are written

Clip times are whole milliseconds. The filters get them in seconds, divided by a thousand in
binary64 and written with three places after the point. Two roundings are made, and as long as a
binary64 number of seconds is less than half a millisecond off, the second one takes back the
first. -/

namespace Montage.Window

open Binary64 (Has rounded mantBound)

variable {ms : Nat}

theorem has_thousand : (1000 : Binary64).Has 1000 := Binary64.has_literal 1000 (by decide)

/-- Any time of 64 bits is some number of seconds. -/
theorem exists_has_seconds (h : ms ≤ Binary64.top64) : ∃ v, 0 ≤ v ∧ (seconds ms).Has v := by
  have hms : (ms : Rat) ≤ 2 ^ 64 := by exact_mod_cast h.trans (by decide)
  have hkept : rounded (ms : Rat) ≤ 2 ^ 64 := Binary64.rounded_le_two_pow hms
  have hnonneg : 0 ≤ rounded (ms : Rat) := Binary64.rounded_nonneg (Nat.cast_nonneg ms)
  have hvalue : (Binary64.ofNat ms).Has (rounded ms) :=
    Binary64.has_ofRat (Binary64.abs_lt_overflow_of_le hnonneg (hkept.trans (by norm_num)))
  have hquot : 0 ≤ rounded (ms : Rat) / 1000 := div_nonneg hnonneg (by norm_num)
  have hquot_le : rounded (rounded (ms : Rat) / 1000) ≤ 2 ^ 64 :=
    Binary64.rounded_le_two_pow (by linarith)
  exact ⟨_, Binary64.rounded_nonneg hquot, hvalue.div has_thousand (by norm_num)
    (Binary64.abs_lt_overflow_of_le (Binary64.rounded_nonneg hquot)
      (hquot_le.trans (by norm_num)))⟩

/-- As long as milliseconds are kept, there is only the rounding of the quotient. -/
theorem has_seconds (h : ms ≤ mantBound) : (seconds ms).Has (rounded ((ms : Rat) / 1000)) := by
  have hms : (ms : Rat) ≤ 2 ^ 53 := by exact_mod_cast h
  have hquot : 0 ≤ (ms : Rat) / 1000 := by positivity
  have hquot_le : rounded ((ms : Rat) / 1000) ≤ 2 ^ 53 :=
    Binary64.rounded_le_two_pow (by linarith)
  exact (Binary64.has_ofNat h).div has_thousand (by norm_num)
    (Binary64.abs_lt_overflow_of_le (Binary64.rounded_nonneg hquot)
      (hquot_le.trans (by norm_num)))

theorem abs_seconds_sub_le {k : Nat} (h : ms ≤ 1000 * 2 ^ k) :
    |rounded ((ms : Rat) / 1000) - ms / 1000| ≤ (2 : Rat) ^ ((k : Int) - 54) := by
  have hms : (ms : Rat) ≤ 1000 * 2 ^ k := by exact_mod_cast h
  refine Binary64.abs_rounded_sub_le ?_
  rw [abs_of_nonneg (by positivity), div_le_iff₀ (by norm_num)]
  linarith

/-- How far off three roundings make the time between two instants. -/
theorem has_seconds_sub {firstMs lastMs k : Nat} (hle : firstMs ≤ lastMs)
    (h : lastMs ≤ 1000 * 2 ^ k) (hk : k ≤ 43) : ∃ v, (seconds lastMs - seconds firstMs).Has v ∧
      |v - ((lastMs : Rat) - firstMs) / 1000| ≤ 3 * (2 : Rat) ^ ((k : Int) - 54) := by
  have hbound : lastMs ≤ mantBound := calc
    lastMs ≤ 1000 * 2 ^ k := h
    _ ≤ 1000 * 2 ^ 43 := Nat.mul_le_mul_left _ (Nat.pow_le_pow_right (by decide) hk)
    _ ≤ mantBound := by decide
  have hlast : (lastMs : Rat) ≤ 1000 * 2 ^ k := by exact_mod_cast h
  have hordered : (firstMs : Rat) ≤ lastMs := by exact_mod_cast hle
  have hfirst0 : 0 ≤ rounded ((firstMs : Rat) / 1000) := Binary64.rounded_nonneg (by positivity)
  have hmono : rounded ((firstMs : Rat) / 1000) ≤ rounded ((lastMs : Rat) / 1000) :=
    Binary64.rounded_mono (by linarith)
  have hlast_le : rounded ((lastMs : Rat) / 1000) ≤ 2 ^ k :=
    Binary64.rounded_le_two_pow (by linarith)
  have hdiff := (has_seconds hbound).sub_of_nonneg (has_seconds (hle.trans hbound))
    (hfirst0.trans hmono) hfirst0
  have hlastnear := abs_le.mp (abs_seconds_sub_le h)
  have hfirstnear := abs_le.mp (abs_seconds_sub_le (hle.trans h))
  have hround := abs_le.mp (Binary64.abs_rounded_sub_le (k := k)
    (abs_le.mpr ⟨by linarith, by linarith⟩ :
      |rounded ((lastMs : Rat) / 1000) - rounded ((firstMs : Rat) / 1000)| ≤ 2 ^ k))
  exact ⟨_, hdiff, abs_le.mpr ⟨by linarith, by linarith⟩⟩

/-! ## Three places after the point -/

/-- The seconds of an instant, as they are written. -/
def writtenSeconds (ms : Nat) : Rat := Decimal.roundedTo 3 (seconds ms).toRat

/-- The last instant before the places after the point are too few for milliseconds. -/
def lastExactMs : Nat := 1000 * 2 ^ 43

/-- Less than half a millisecond off is near enough for three places. -/
theorem abs_mul_sub_lt {v : Rat} (h : |v - (ms : Rat) / 1000| ≤ 1 / 2 ^ 11) :
    |v * 10 ^ 3 - ms| < 1 / 2 := by
  have hsplit : v * 10 ^ 3 - ms = (v - ms / 1000) * 1000 := by ring
  rw [hsplit, abs_mul, abs_of_pos (by norm_num : (0 : Rat) < 1000)]
  linarith

theorem abs_seconds_mul_sub_lt (h : ms ≤ lastExactMs) :
    |rounded ((ms : Rat) / 1000) * 10 ^ 3 - ms| < 1 / 2 :=
  abs_mul_sub_lt ((abs_seconds_sub_le h).trans_eq (by norm_num))

theorem writtenSeconds_eq (h : ms ≤ lastExactMs) : writtenSeconds ms = ms / 1000 := by
  have hsmall : ms ≤ mantBound := h.trans (by decide)
  have hscaled : |rounded ((ms : Rat) / 1000) * 10 ^ 3 - ((ms : Int) : Rat)| < 1 / 2 := by
    rw [Int.cast_natCast]
    exact abs_seconds_mul_sub_lt h
  rw [writtenSeconds, (has_seconds hsmall).toRat_eq, Decimal.roundedTo_eq hscaled]
  push_cast
  norm_num

/-- A time is written without a sign. -/
theorem hyphen_not_mem_fixed_seconds (ms : Nat) : '-' ∉ (Decimal.fixed 3 (seconds ms)).toList := by
  have hsign : (seconds ms).Unsigned :=
    Binary64.unsigned_div (Binary64.unsigned_ofNat ms) (by decide +kernel) (by decide +kernel)
  rw [Decimal.fixed, String.toList_ofList]
  cases hx : seconds ms with
  | undefined => simp [Decimal.fixedChars]
  | infinite negative =>
      obtain rfl : negative = false := by simpa [hx, Binary64.signBit] using hsign.sign
      simp [Decimal.fixedChars]
  | finite negative mant exp hc =>
      obtain rfl : negative = false := by simpa [hx, Binary64.signBit] using hsign.sign
      have hdigits : ∀ c ∈ Decimal.fixedChars 3 (.finite false mant exp hc), c ≠ '-' :=
        Decimal.forall_mem_pointed (fun c hdigit hc => by simp [hc] at hdigit) (by decide) _ 3
      exact fun hmem => hdigits _ hmem rfl

/-- A time is written exactly as long as three places are enough. -/
theorem thousandths?_seconds (h : ms ≤ lastExactMs) :
    Decimal.thousandths? (Decimal.fixed 3 (seconds ms)).toList = some ms :=
  Decimal.thousandths?_fixed (has_seconds (h.trans (by decide))) (abs_seconds_mul_sub_lt h)
    fun _ => hyphen_not_mem_fixed_seconds ms

/-- So is the time between two instants, up to a quarter of that: it is rounded once more. -/
theorem thousandths?_seconds_sub {firstMs lastMs : Nat} (hlt : firstMs < lastMs)
    (h : lastMs ≤ 1000 * 2 ^ 41) :
    Decimal.thousandths? (Decimal.fixed 3 (seconds lastMs - seconds firstMs)).toList =
      some (lastMs - firstMs) := by
  obtain ⟨v, hdiff, hnear⟩ := has_seconds_sub hlt.le h (by decide)
  rw [← Nat.cast_sub hlt.le] at hnear
  exact Decimal.thousandths?_fixed hdiff (abs_mul_sub_lt (hnear.trans (by norm_num))) fun hzero =>
    absurd hzero (Nat.sub_ne_zero_of_lt hlt)

end Montage.Window
