import Montage.Proofs.Binary64.TotalOrder
import Montage.Proofs.Binary64.Values

/-! # Bounds that rounding keeps

What bounds an exact result bounds the rounded one as well, if it is a binary64 number itself. So a
share of a size stays within the size, and the whole number next to it does. -/

namespace Montage.Binary64

variable {x y : Binary64} {q v w low high : Rat} {n : Nat}

/-! ## Clamped numbers -/

/-- What is not a number is not moved by clamping. -/
theorem clamp?_of_isNaN {least most : Binary64} (h : x.isNaN) (hle : least ≤ most) :
    x.clamp? least most = some x := by
  have hbelow : ¬ x < least := fun hlt => by simp [(lt_def.mp hlt).1] at h
  have habove : ¬ most < x := fun hlt => by simp [(lt_def.mp hlt).2.1] at h
  rw [clamp?, if_pos hle, if_neg hbelow, if_neg habove]

theorem within_of_clamp? {least most : Binary64} (hx : x.isNaN = false) (hlow : least.Has low)
    (hhigh : most.Has high) (h : x.clamp? least most = some y) : y.Within low high := by
  obtain ⟨hle, hle'⟩ := clamp?_bounds hx h
  have hy := has_toRat (isFinite_of_le_of_le hlow.isFinite hhigh.isFinite hle hle')
  exact ⟨hy.isFinite, (hlow.le_iff hy).mp hle, (hy.le_iff hhigh).mp hle'⟩

/-- A clamped number has the clamped value. -/
theorem Has.clamp? {least most : Binary64} (hx : x.Has v) (hlow : least.Has low)
    (hhigh : most.Has high) (hle : low ≤ high) :
    ∃ y, x.clamp? least most = some y ∧ y.Has (max low (min v high)) := by
  rw [Binary64.clamp?, if_pos ((hlow.le_iff hhigh).mpr hle)]
  refine ⟨_, rfl, ?_⟩
  split
  case isTrue h =>
    rwa [max_eq_left ((min_le_left v high).trans ((hx.lt_iff hlow).mp h).le)]
  case isFalse h =>
    have hlow' : low ≤ v := not_lt.mp fun hlt => h ((hx.lt_iff hlow).mpr hlt)
    split
    case isTrue h' => rwa [min_eq_right ((hhigh.lt_iff hx).mp h').le, max_eq_right hle]
    case isFalse h' =>
      have hhigh' : v ≤ high := not_lt.mp fun hlt => h' ((hhigh.lt_iff hx).mpr hlt)
      rwa [min_eq_left hhigh', max_eq_right hlow']

/-! ## Products and quotients -/

theorem Has.within (h : x.Has v) (hlow : low ≤ v) (hhigh : v ≤ high) : x.Within low high :=
  ⟨h.isFinite, hlow.trans h.toRat_eq.ge, h.toRat_eq.le.trans hhigh⟩

theorem rounded_le_natCast (hn : n ≤ mantBound) (h : q ≤ n) : rounded q ≤ n :=
  (rounded_mono h).trans_eq (rounded_natCast hn)

theorem abs_lt_overflow_of_le (hzero : 0 ≤ q) (h : q ≤ 2 ^ 200) : |q| < overflow := by
  rw [abs_of_nonneg hzero]
  exact h.trans_lt (by decide +kernel)

/-- A product that is not negative and is not rounded past a bound. -/
theorem Has.mul_within (hx : x.Has v) (hy : y.Has w) (hzero : 0 ≤ v * w)
    (hhigh : rounded (v * w) ≤ high) (hsmall : high ≤ 2 ^ 200) : (x * y).Within 0 high := by
  have hlow := rounded_nonneg hzero
  exact (hx.mul hy (abs_lt_overflow_of_le hlow (hhigh.trans hsmall))).within hlow hhigh

/-- A quotient that is not negative and is not rounded past a bound. -/
theorem Has.div_within (hx : x.Has v) (hy : y.Has w) (hne : w ≠ 0) (hzero : 0 ≤ v / w)
    (hhigh : rounded (v / w) ≤ high) (hsmall : high ≤ 2 ^ 200) : (x / y).Within 0 high := by
  have hlow := rounded_nonneg hzero
  exact (hx.div hy hne (abs_lt_overflow_of_le hlow (hhigh.trans hsmall))).within hlow hhigh

/-- From the least power of two with all places on, rounding moves a number by no more than a part
of it. -/
theorem abs_rounded_sub_le_div (h : (2 : Rat) ^ (-1022 : Int) ≤ q) :
    |rounded q - q| ≤ q / 2 ^ 53 := by
  have hpos : 0 < q := (zpow_pos (by norm_num) _).trans_le h
  have hlog : -1022 < Rounding.log2 q + 1 :=
    (zpow_lt_zpow_iff_right₀ (by norm_num : (1 : Rat) < 2)).mp
      (h.trans_lt (Rounding.log2_spec hpos).2)
  have hplace : lastPlace q = Rounding.log2 q - 52 := by
    rw [lastPlace]
    omega
  rw [rounded_of_nonneg hpos.le]
  calc |nearest q - q| ≤ (2 : Rat) ^ lastPlace q / 2 := abs_nearest_sub_le q
    _ = (2 : Rat) ^ Rounding.log2 q / 2 ^ 53 := by
        rw [hplace, zpow_sub₀ two_ne_zero, div_div]
        norm_num
    _ ≤ q / 2 ^ 53 := div_le_div_of_nonneg_right (Rounding.log2_spec hpos).1 (by norm_num)

theorem zpow_le_of_one_le (h : 1 ≤ q) : (2 : Rat) ^ (-1022 : Int) ≤ q :=
  (zpow_le_one_of_nonpos₀ one_le_two (by norm_num)).trans h

/-- A share of a size stays within the size. -/
theorem within_mul (hx : x.Within 0 1) (hn : n ≤ mantBound) : (x * .ofNat n).Within 0 n := by
  obtain ⟨hfinite, hzero, hone⟩ := hx
  have hnonneg : (0 : Rat) ≤ n := Nat.cast_nonneg n
  have hsize : (n : Rat) ≤ 2 ^ 53 := by exact_mod_cast hn
  exact (has_toRat hfinite).mul_within (has_ofNat hn) (mul_nonneg hzero hnonneg)
    (rounded_le_natCast hn (mul_le_of_le_one_left hnonneg hone)) (by linarith)

/-- Half a size is exact. -/
theorem has_half (hn : n ≤ mantBound) : (ofNat n / 2).Has (n / 2) := by
  have htwo : (2 : Binary64).Has 2 := has_literal 2 (by decide)
  have hkept : rounded ((n : Rat) / 2) = n / 2 := by
    simpa using rounded_div_two_pow (k := 1) hn (by decide)
  have hnonneg : (0 : Rat) ≤ n := Nat.cast_nonneg n
  have hsize : (n : Rat) ≤ 2 ^ 53 := by exact_mod_cast hn
  have hhalf := (has_ofNat hn).div htwo two_ne_zero (abs_lt_overflow_of_le
    (rounded_nonneg (by linarith)) (by rw [hkept]; linarith))
  rwa [hkept] at hhalf

theorem within_half (hn : n ≤ mantBound) : (ofNat n / 2).Within 0 n := by
  have hnonneg : (0 : Rat) ≤ n := Nat.cast_nonneg n
  exact (has_half hn).within (by linarith) (by linarith)

section Fraction

variable {size part whole : Nat} (hpart : part < whole) (hwhole : whole ≤ mantBound)

include hpart hwhole

/-- As long as the parts of a proper fraction are written exactly, rounding the product with its
upper part does not make up for what is missing to the whole. -/
theorem rounded_mul_le (size : Nat) : rounded ((size : Rat) * part) ≤ size * whole := by
  have hpart_le : (part : Rat) ≤ 2 ^ 53 := by exact_mod_cast hpart.le.trans hwhole
  have hmissing : (part : Rat) + 1 ≤ whole := by exact_mod_cast hpart
  have hsize_nonneg : (0 : Rat) ≤ size := Nat.cast_nonneg size
  rcases Nat.eq_zero_or_pos (size * part) with hzero | hpos
  · have hzero' : (size : Rat) * part = 0 := by exact_mod_cast hzero
    rw [hzero', rounded_zero]
    positivity
  · have hone : (1 : Rat) ≤ size * part := by exact_mod_cast hpos
    have hnear := (abs_le.mp (abs_rounded_sub_le_div (zpow_le_of_one_le hone))).2
    have hmoved : (size : Rat) * part / 2 ^ 53 ≤ size := by
      rw [div_le_iff₀ (by norm_num)]
      exact mul_le_mul_of_nonneg_left hpart_le hsize_nonneg
    calc rounded ((size : Rat) * part) ≤ size * part + size := by linarith
      _ = size * (part + 1) := by ring
      _ ≤ size * whole := mul_le_mul_of_nonneg_left hmissing hsize_nonneg

/-- A proper fraction of a size, multiplied first. -/
theorem has_fraction (hsize : size ≤ mantBound) :
    (ofNat size * ofNat part / ofNat whole).Has (rounded (rounded (size * part) / whole)) ∧
      0 ≤ rounded (rounded ((size : Rat) * part) / whole) ∧
      rounded (rounded ((size : Rat) * part) / whole) ≤ size := by
  have hsize_le : (size : Rat) ≤ 2 ^ 53 := by exact_mod_cast hsize
  have hwhole_le : (whole : Rat) ≤ 2 ^ 53 := by exact_mod_cast hwhole
  have hwhole_pos : (0 : Rat) < whole := by exact_mod_cast hpart.pos
  have hproduct_nonneg : 0 ≤ rounded ((size : Rat) * part) := rounded_nonneg (by positivity)
  have hproduct_le := rounded_mul_le hpart hwhole size
  have hbound : (size : Rat) * whole ≤ 2 ^ 53 * 2 ^ 53 :=
    mul_le_mul hsize_le hwhole_le hwhole_pos.le (by norm_num)
  have hproduct := (has_ofNat hsize).mul (has_ofNat (hpart.le.trans hwhole))
    (abs_lt_overflow_of_le hproduct_nonneg (hproduct_le.trans (hbound.trans (by norm_num))))
  have hlow := rounded_nonneg (div_nonneg hproduct_nonneg hwhole_pos.le)
  have hhigh := rounded_le_natCast hsize ((div_le_iff₀ hwhole_pos).mpr hproduct_le)
  exact ⟨hproduct.div (has_ofNat hwhole) hwhole_pos.ne' (abs_lt_overflow_of_le hlow (by linarith)),
    hlow, hhigh⟩

theorem within_fraction (hsize : size ≤ mantBound) :
    (ofNat size * ofNat part / ofNat whole).Within 0 size := by
  obtain ⟨hvalue, hlow, hhigh⟩ := has_fraction hpart hwhole hsize
  exact hvalue.within hlow hhigh

/-- What the two roundings of a fraction of a size lose. -/
theorem abs_rounded_fraction_sub_le (size : Nat) :
    |rounded (rounded ((size : Rat) * part) / whole) - size * part / whole| ≤ size / 2 ^ 51 := by
  have hwhole_pos : (0 : Rat) < whole := by exact_mod_cast hpart.pos
  have hsize_nonneg : (0 : Rat) ≤ size := Nat.cast_nonneg size
  rcases Nat.eq_zero_or_pos (size * part) with hzero | hpos
  · have hzero' : (size : Rat) * part = 0 := by exact_mod_cast hzero
    rw [hzero', rounded_zero, zero_div, rounded_zero, sub_zero, abs_zero]
    positivity
  · have hone : (1 : Rat) ≤ size * part := by exact_mod_cast hpos
    have hproduct := abs_rounded_sub_le_div (zpow_le_of_one_le hone)
    have hproduct_le := rounded_mul_le hpart hwhole size
    have hproduct_low := one_le_rounded hone
    generalize rounded ((size : Rat) * part) = product at *
    have hleast : (2 : Rat) ^ (-1022 : Int) ≤ product / whole := by
      have hwhole_le : (whole : Rat) ≤ 2 ^ 53 := by exact_mod_cast hwhole
      calc (2 : Rat) ^ (-1022 : Int) ≤ 2 ^ (-53 : Int) :=
            zpow_le_zpow_right₀ one_le_two (by norm_num)
        _ = 1 / 2 ^ 53 := by norm_num
        _ ≤ product / whole := div_le_div₀ (by linarith) hproduct_low hwhole_pos hwhole_le
    have hquotient_le : product / whole ≤ size := (div_le_iff₀ hwhole_pos).mpr hproduct_le
    have hexact_le : (size : Rat) * part / whole ≤ size := by
      rw [div_le_iff₀ hwhole_pos]
      exact mul_le_mul_of_nonneg_left (by exact_mod_cast hpart.le) hsize_nonneg
    have hdivided : |product / whole - size * part / whole| ≤ size / 2 ^ 53 := by
      rw [← sub_div, abs_div, abs_of_pos hwhole_pos]
      calc |product - size * part| / whole ≤ size * part / 2 ^ 53 / whole := by gcongr
        _ = size * part / whole / 2 ^ 53 := div_right_comm _ _ _
        _ ≤ size / 2 ^ 53 := by gcongr
    calc |rounded (product / whole) - size * part / whole|
        ≤ |rounded (product / whole) - product / whole| +
            |product / whole - size * part / whole| := abs_sub_le _ _ _
      _ ≤ product / whole / 2 ^ 53 + size / 2 ^ 53 :=
          add_le_add (abs_rounded_sub_le_div hleast) hdivided
      _ ≤ size / 2 ^ 51 := by linarith

end Fraction

/-! ## Arithmetic of whole numbers -/

section Whole

variable {a b : Nat}

/-- Sums of whole numbers are exact as long as they need no more than all places. -/
theorem ofNat_add (h : a + b ≤ mantBound) : ofNat a + ofNat b = ofNat (a + b) := by
  have ha := has_ofNat (show a ≤ mantBound by omega)
  have hb := has_ofNat (show b ≤ mantBound by omega)
  have hsign := (unsigned_ofNat a).sign
  obtain ⟨_, _, _, _, hfa⟩ := exists_eq_finite ha.isFinite
  obtain ⟨_, _, _, _, hfb⟩ := exists_eq_finite hb.isFinite
  have hsum : ofNat a + ofNat b =
      ofRatSigned ((ofNat a).signBit && (ofNat b).signBit) ((ofNat a).toRat + (ofNat b).toRat) := by
    rw [hfa, hfb]
    rfl
  rw [hsum, ha.toRat_eq, hb.toRat_eq, hsign, Bool.false_and, ofNat, Nat.cast_add]
  rfl

theorem ofNat_sub_self (h : a ≤ mantBound) : ofNat a - ofNat a = 0 := by
  have ha := has_ofNat h
  have hsign := (unsigned_ofNat a).sign
  obtain ⟨negative, _, _, _, hfa⟩ := exists_eq_finite ha.isFinite
  have hdifference : ofNat a - ofNat a =
      ofRatSigned ((ofNat a).signBit && (-ofNat a).signBit)
        ((ofNat a).toRat + (-ofNat a).toRat) := by
    rw [hfa]
    rfl
  rw [hdifference, ha.toRat_eq, ha.neg.toRat_eq, hsign, Bool.false_and, add_neg_cancel]
  rfl

theorem ofNat_mul (ha : a ≤ mantBound) (hb : b ≤ mantBound) :
    ofNat a * ofNat b = ofNat (a * b) := by
  have ha := has_ofNat ha
  have hb := has_ofNat hb
  rw [mul_eq_ofRat (unsigned_ofNat a) ha.isFinite (unsigned_ofNat b) hb.isFinite, ha.toRat_eq,
    hb.toRat_eq, ofNat, Nat.cast_mul]

/-- A whole quotient is exact. -/
theorem ofNat_mul_div (h : a * b ≤ mantBound) (hb : b ≤ mantBound) (hpos : 0 < b) :
    ofNat (a * b) / ofNat b = ofNat a := by
  have hproduct := has_ofNat h
  have hdivisor := has_ofNat hb
  have hne : (b : Rat) ≠ 0 := by exact_mod_cast hpos.ne'
  rw [div_eq_ofRat (unsigned_ofNat _) hproduct.isFinite hdivisor.isFinite (pos_ofNat hpos),
    hproduct.toRat_eq, hdivisor.toRat_eq, Nat.cast_mul, mul_div_cancel_right₀ _ hne]
  rfl

end Whole

/-! ## Whole numbers next to a number -/

/-- Sizes of 32 bits are written exactly. -/
theorem le_mantBound_of_le_top32 (h : n ≤ top32) : n ≤ mantBound := h.trans (by decide)

theorem Has.toNatUpTo_eq (h : x.Has v) (top : Nat) : x.toNatUpTo top = min top v.floor.toNat := by
  rw [toNatUpTo_of_isFinite h.isFinite, h.toRat_eq]

/-- The whole number next to a number is a number again. -/
theorem Has.round (h : x.Has v) : x.round.Has (Rounding.nearestAway v) := by
  have hkept : rounded (Rounding.nearestAway v) = Rounding.nearestAway v ∧
      |(Rounding.nearestAway v : Rat)| < overflow := by
    rcases le_or_gt ((2 : Rat) ^ 52) |v| with hlarge | hsmall
    · obtain ⟨k, rfl⟩ := h.exists_mul_two_pow 0 hlarge
      rw [Rounding.nearestAway_intCast]
      exact ⟨h.rounded_eq, h.abs_lt_overflow⟩
    · have hnear := abs_le.mp (Rounding.abs_nearestAway_sub_le v)
      have hv := abs_lt.mp hsmall
      have hbound : |(Rounding.nearestAway v : Rat)| ≤ 2 ^ 53 :=
        abs_le.mpr ⟨by linarith, by linarith⟩
      refine ⟨rounded_intCast (by exact_mod_cast hbound), ?_⟩
      rw [← abs_abs]
      exact abs_lt_overflow_of_le (abs_nonneg _) (hbound.trans (by norm_num))
  obtain ⟨hfinite, rfl⟩ := h
  obtain ⟨negative, mant, exp, hc, rfl⟩ := exists_eq_finite hfinite
  have hvalue := has_ofRatSigned negative (by rw [hkept.1]; exact hkept.2)
  rwa [hkept.1] at hvalue

theorem nearestAway_le_of_lt (h : v < n + 1 / 2) : Rounding.nearestAway v ≤ n := by
  rcases le_or_gt 0 v with hv | hv
  · have hlt : (Rounding.nearestAway v : Rat) < n + 1 := by
      linarith [Rounding.nearestAway_le hv]
    exact Int.lt_add_one_iff.mp (by exact_mod_cast hlt)
  · have hfloor : 0 ≤ (-v + 1 / 2).floor := Rat.le_floor_iff.mpr (by push_cast; linarith)
    rw [Rounding.nearestAway, if_neg (not_le.mpr hv)]
    omega

/-- The whole number next to a number between zero and a size is found, and is no greater than the
size. -/
theorem toNat32_round_spec (h : x.Within 0 n) (hn : n ≤ top32) :
    (x.round.toNat32 : Int) = Rounding.nearestAway x.toRat ∧ x.round.toNat32 ≤ n := by
  obtain ⟨hfinite, hzero, hle⟩ := h
  have hlow : 0 ≤ Rounding.nearestAway x.toRat :=
    Rounding.nearestAway_zero.ge.trans
      (Rounding.nearestAway_mono le_rfl hzero)
  have hhigh : Rounding.nearestAway x.toRat ≤ n := nearestAway_le_of_lt (by linarith)
  have hround := (has_toRat hfinite).round
  have hvalue : (x.round.toNat32 : Int) = Rounding.nearestAway x.toRat := by
    rw [toNat32, hround.toNatUpTo_eq, Rat.floor_intCast]
    omega
  exact ⟨hvalue, by omega⟩

theorem toNat32_round_of_isNaN (h : x.isNaN) : x.round.toNat32 = 0 := by
  cases x with
  | finite => cases h
  | infinite => cases h
  | undefined => rfl

/-! ## Numbers that are not beyond a value -/

/-- What is not beyond a value: lesser numbers, and also negative infinity and what is not a number,
which convert to zero. -/
structure NotBeyond (bound : Rat) (x : Binary64) : Prop where
  ne_infinite : x ≠ .infinite false
  toRat_le : x.toRat ≤ bound

theorem notBeyond_ofRatSigned (sign : Bool) (hq : q ≤ high) (hkept : rounded high = high)
    (hzero : 0 ≤ high) (hsmall : high ≤ 2 ^ 200) : (ofRatSigned sign q).NotBeyond high := by
  have hle : rounded q ≤ high := (rounded_mono hq).trans_eq hkept
  by_cases hfits : |rounded q| < overflow
  · obtain ⟨hfinite, hvalue⟩ := has_ofRatSigned sign hfits
    refine ⟨fun heq => ?_, hvalue.trans_le hle⟩
    rw [heq] at hfinite
    cases hfinite
  · -- only a negative number is too great
    have hneg : q < 0 := by
      refine not_le.mp fun h => hfits (abs_lt_overflow_of_le (rounded_nonneg h) (hle.trans hsmall))
    have hinfinite : ofRat (-q) = .infinite false := by
      refine (unsigned_ofRat (by linarith)).eq_infinite fun h => hfits ?_
      have hflip := (isFinite_ofRat_iff (by linarith)).mp h
      rwa [rounded_neg, abs_neg] at hflip
    rw [ofRatSigned_of_neg sign hneg, hinfinite]
    exact ⟨by decide, hzero⟩

theorem Has.mul_infinite (hx : x.Has v) (hv : 0 < v) (negative : Bool) :
    x * .infinite negative = .infinite negative := by
  have hpos : 0 < x := (has_zero.lt_iff hx).mpr hv
  have hsign := (toRat_pos hx.isFinite hpos).2.sign
  have hnonzero := isZero_of_pos hpos
  obtain ⟨_, _, _, _, rfl⟩ := exists_eq_finite hx.isFinite
  simp [HMul.hMul, Mul.mul, Binary64.mul, isNaN, isInfinite, hnonzero, hsign,
    show (infinite negative).isZero = false from rfl,
    show (infinite negative).signBit = negative from rfl]

theorem Has.mul_notBeyond (hx : x.Has v) (hv : 0 < v) (hy : y ≠ .infinite false)
    (hle : v * y.toRat ≤ high) (hkept : rounded high = high) (hzero : 0 ≤ high)
    (hsmall : high ≤ 2 ^ 200) : (x * y).NotBeyond high := by
  cases y with
  | finite negative mant exp hc =>
      obtain ⟨sign, heq⟩ := hx.mul_eq (has_toRat (x := .finite negative mant exp hc) rfl)
      rw [heq]
      exact notBeyond_ofRatSigned sign hle hkept hzero hsmall
  | infinite negative =>
      cases negative with
      | false => exact absurd rfl hy
      | true =>
          rw [hx.mul_infinite hv]
          exact ⟨by decide, hzero⟩
  | undefined =>
      obtain ⟨_, _, _, _, rfl⟩ := exists_eq_finite hx.isFinite
      exact ⟨by rintro ⟨⟩, hzero⟩

theorem Has.div_notBeyond (hx : x.Has v) (hy : y.isFinite → y.toRat ≠ 0 ∧ v / y.toRat ≤ high)
    (hkept : rounded high = high) (hzero : 0 ≤ high) (hsmall : high ≤ 2 ^ 200) :
    (x / y).NotBeyond high := by
  cases y with
  | finite negative mant exp hc =>
      obtain ⟨hne, hle⟩ := hy rfl
      obtain ⟨sign, heq⟩ := hx.div_eq (has_toRat (x := .finite negative mant exp hc) rfl) hne
      rw [heq]
      exact notBeyond_ofRatSigned sign hle hkept hzero hsmall
  | infinite =>
      obtain ⟨_, _, _, _, rfl⟩ := exists_eq_finite hx.isFinite
      exact ⟨by rintro ⟨⟩, by
        simpa [HDiv.hDiv, Div.div, Binary64.div, isNaN, isInfinite, zero, toRat] using hzero⟩
  | undefined =>
      obtain ⟨_, _, _, _, rfl⟩ := exists_eq_finite hx.isFinite
      exact ⟨by rintro ⟨⟩, hzero⟩

theorem NotBeyond.toNatUpTo_le (h : x.NotBeyond n) (top : Nat) : x.toNatUpTo top ≤ n := by
  obtain ⟨hne, hle⟩ := h
  cases x with
  | finite negative mant exp hc =>
      have hfloor := Rounding.floor_mono hle
      rw [← Int.cast_natCast, Rat.floor_intCast] at hfloor
      exact (Nat.min_le_right _ _).trans (Int.toNat_le.mpr hfloor)
  | infinite negative =>
      cases negative with
      | false => exact absurd rfl hne
      | true => exact Nat.zero_le n
  | undefined => exact Nat.zero_le n

theorem NotBeyond.round (h : x.NotBeyond high) (hhigh : high < n + 1 / 2) (hn : n ≤ mantBound) :
    x.round.NotBeyond n := by
  obtain ⟨hne, hle⟩ := h
  have hnonneg : (0 : Rat) ≤ n := Nat.cast_nonneg n
  cases x with
  | finite negative mant exp hc =>
      have hwhole : Rounding.nearestAway (finite negative mant exp hc).toRat ≤ n :=
        nearestAway_le_of_lt (hle.trans_lt hhigh)
      have hsize : (n : Rat) ≤ 2 ^ 53 := by exact_mod_cast hn
      exact notBeyond_ofRatSigned negative (by exact_mod_cast hwhole) (rounded_natCast hn) hnonneg
        (by linarith)
  | infinite negative =>
      cases negative with
      | false => exact absurd rfl hne
      | true => exact ⟨by decide, hnonneg⟩
  | undefined => exact ⟨by rintro ⟨⟩, hnonneg⟩

theorem NotBeyond.toNat32_round_le (h : x.NotBeyond high) (hhigh : high < n + 1 / 2)
    (hn : n ≤ top32) : x.round.toNat32 ≤ n :=
  (h.round hhigh (le_mantBound_of_le_top32 hn)).toNatUpTo_le top32

end Montage.Binary64
