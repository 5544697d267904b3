import Mathlib.Data.Prod.Lex
import Mathlib.Order.BooleanAlgebra.Basic
import Montage.Proofs.Binary64.Rounding

/-! # The total order

Every value has its own standing on one line: first the part of the line, then the place in it, and
of the two zeros the negative one first. Among numbers the total order refines `≤`. -/

namespace Montage.Binary64

/-- What the total order compares. -/
def standing (x : Binary64) : Int ×ₗ Rat ×ₗ Bool :=
  toLex (x.place.1, toLex (x.place.2, x.isZero && !x.signBit))

theorem isZero_of_place_eq {x y : Binary64} (h : x.place = y.place) (hx : x.isZero) : y.isZero := by
  cases x with
  | finite negative mant exp hc =>
      obtain rfl : mant = 0 := of_decide_eq_true hx
      have hplace : y.place = (0, 0) := by rw [← h]; simp [place, toRat]
      cases y with
      | finite negative' mant' exp' hc' =>
          have hpow : (2 : Rat) ^ exp' ≠ 0 := zpow_ne_zero _ (by norm_num)
          have hvalue := congrArg Prod.snd hplace
          cases negative' <;> simpa [place, toRat, hpow, isZero] using hvalue
      | infinite negative' => cases negative' <;> simp [place] at hplace
      | undefined negative' => cases negative' <;> simp [place] at hplace
  | infinite => cases hx
  | undefined => cases hx

theorem totalLe_iff {x y : Binary64} : x.totalLe y ↔ x.standing ≤ y.standing := by
  simp only [totalLe, standing, Prod.Lex.toLex_le_toLex, Bool.or_eq_true, Bool.and_eq_true,
    decide_eq_true_eq, Bool.not_eq_true']
  refine or_congr_right (and_congr_right fun hpart => ?_)
  refine or_congr_right (and_congr_right fun hvalue => ?_)
  have hplace : x.place = y.place := Prod.ext hpart hvalue
  by_cases hx : x.isZero
  · have hy := isZero_of_place_eq hplace hx
    cases hxs : x.signBit <;> cases hys : y.signBit <;> simp [hx, hy]
  · simp [hx]

theorem totalLe_refl (x : Binary64) : x.totalLe x := totalLe_iff.mpr le_rfl

theorem totalLe_trans {x y z : Binary64} (hxy : x.totalLe y) (hyz : y.totalLe z) : x.totalLe z :=
  totalLe_iff.mpr ((totalLe_iff.mp hxy).trans (totalLe_iff.mp hyz))

theorem totalLe_total (x y : Binary64) : x.totalLe y ∨ y.totalLe x := by
  rw [totalLe_iff, totalLe_iff]
  exact le_total _ _

/-! ## Every value has its own standing -/

/-- A value has one significand and one exponent. -/
theorem Canonical.unique {mant mant' : Nat} {exp exp' : Int} (h : Canonical mant exp)
    (h' : Canonical mant' exp') (hvalue : (mant : Rat) * 2 ^ exp = mant' * 2 ^ exp') :
    mant = mant' ∧ exp = exp' := by
  wlog hle : exp ≤ exp' generalizing mant mant' exp exp'
  · obtain ⟨hmant, hexp⟩ := this h' h hvalue.symm (Int.le_of_not_le hle)
    exact ⟨hmant.symm, hexp.symm⟩
  obtain ⟨shift, rfl⟩ := Int.exists_add_of_le hle
  have hshift : mant = mant' * 2 ^ shift := by
    rw [zpow_add₀ two_ne_zero, zpow_natCast, mul_left_comm, mul_comm (mant : Rat)] at hvalue
    have hpow : (2 : Rat) ^ exp ≠ 0 := zpow_ne_zero _ (by norm_num)
    exact_mod_cast mul_left_cancel₀ hpow hvalue
  cases shift with
  | zero => simpa using hshift
  | succ shift =>
      -- the greater exponent has a full significand, which leaves the other one no room
      obtain ⟨hbound, hleast, -, -⟩ := h
      obtain ⟨-, -, -, hfull⟩ := h'
      have hfull : leastNormal ≤ mant' := hfull.resolve_right (by omega)
      have hone : 1 ≤ 2 ^ shift := Nat.one_le_two_pow
      have : leastNormal * 2 ≤ mant := by
        calc leastNormal * 2 ≤ mant' * 2 := Nat.mul_le_mul_right 2 hfull
          _ ≤ mant' * (2 ^ shift * 2) := Nat.mul_le_mul_left mant' (by omega)
          _ = mant := by rw [hshift, pow_succ]
      norm_num at this hbound
      omega

theorem abs_toRat_finite (negative : Bool) {mant : Nat} {exp : Int} (hc : Canonical mant exp) :
    |(finite negative mant exp hc).toRat| = mant * 2 ^ exp := by
  have hmagnitude : (0 : Rat) ≤ mant * 2 ^ exp :=
    mul_nonneg (Nat.cast_nonneg mant) (zpow_nonneg (by norm_num) exp)
  cases negative <;> simp only [toRat, if_true, Bool.false_eq_true, if_false, abs_neg] <;>
    exact abs_of_nonneg hmagnitude

theorem finite_of_standing {negative negative' : Bool} {mant mant' : Nat} {exp exp' : Int}
    {hc : Canonical mant exp} {hc' : Canonical mant' exp'}
    (h : (finite negative mant exp hc).standing = (finite negative' mant' exp' hc').standing) :
    finite negative mant exp hc = finite negative' mant' exp' hc' := by
  simp only [standing, place, toLex_inj, Prod.mk.injEq, true_and] at h
  obtain ⟨hvalue, hzero⟩ := h
  have hmagnitude : (mant : Rat) * 2 ^ exp = mant' * 2 ^ exp' := by
    rw [← abs_toRat_finite negative hc, hvalue, abs_toRat_finite negative' hc']
  obtain ⟨rfl, rfl⟩ := hc.unique hc' hmagnitude
  have hsign : negative = negative' := by
    by_cases hmant : mant = 0
    · simpa [isZero, signBit, hmant] using hzero
    · -- a number that is not zero differs from its opposite
      have hpos : (0 : Rat) < mant * 2 ^ exp :=
        mul_pos (by exact_mod_cast Nat.pos_of_ne_zero hmant) (zpow_pos (by norm_num) exp)
      cases negative <;> cases negative' <;> simp [toRat] at hvalue ⊢ <;> linarith
  rw [hsign]

theorem standing_injective : Function.Injective standing := by
  intro x y h
  have hpart : x.place.1 = y.place.1 := congrArg (fun r => (ofLex r).1) h
  have hvalue : x.place.2 = y.place.2 := congrArg (fun r => (ofLex (ofLex r).2).1) h
  cases x with
  | finite =>
      cases y with
      | finite => exact finite_of_standing h
      | infinite negative => cases negative <;> cases hpart
      | undefined negative => cases negative <;> cases hpart
  | infinite negative =>
      cases y with
      | finite => cases negative <;> cases hpart
      | infinite negative' => cases negative <;> cases negative' <;> first | rfl | cases hpart
      | undefined negative' => cases negative <;> cases negative' <;> cases hpart
  | undefined negative payload =>
      cases y with
      | finite => cases negative <;> cases hpart
      | infinite negative' => cases negative <;> cases negative' <;> cases hpart
      | undefined negative' payload' =>
          cases negative <;> cases negative' <;> cases hpart
          all_goals
            obtain rfl : payload = payload' := by simpa [place] using hvalue
            rfl

theorem totalLe_antisymm {x y : Binary64} (hxy : x.totalLe y) (hyx : y.totalLe x) : x = y :=
  standing_injective (le_antisymm (totalLe_iff.mp hxy) (totalLe_iff.mp hyx))

/-! ## Against the order of numbers -/

theorem le_of_totalLe {x y : Binary64} (h : x.totalLe y) (hx : x.isNaN = false)
    (hy : y.isNaN = false) : x ≤ y := by
  rw [le_def]
  refine ⟨hx, hy, ?_⟩
  simp only [totalLe, Bool.or_eq_true, Bool.and_eq_true, decide_eq_true_eq] at h
  rcases h with h | ⟨hpart, h | ⟨hvalue, -⟩⟩
  · exact .inl h
  · exact .inr ⟨hpart, h.le⟩
  · exact .inr ⟨hpart, hvalue.le⟩

theorem totalLe_of_le {x y : Binary64} (h : x ≤ y) (hy : y.signBit = false) : x.totalLe y := by
  obtain ⟨-, -, h⟩ := le_def.mp h
  simp only [totalLe, hy, Bool.not_false, Bool.or_true, Bool.true_or, Bool.and_true,
    Bool.or_eq_true, Bool.and_eq_true, decide_eq_true_eq]
  rcases h with h | ⟨hpart, hvalue⟩
  · exact .inl h
  · exact .inr ⟨hpart, hvalue.lt_or_eq⟩

theorem pos_ofNat {n : Nat} (h : 0 < n) : 0 < ofNat n :=
  Binary64.lt_of_lt_of_le (by decide +kernel : (0 : Binary64) < ofNat 1) (ofNat_mono h)

theorem isZero_of_pos {x : Binary64} (h : 0 < x) : x.isZero = false := by
  rw [Bool.eq_false_iff]
  intro hzero
  have hplace : x.place = place 0 := by
    cases x with
    | finite negative mant exp hc =>
        obtain rfl : mant = 0 := of_decide_eq_true hzero
        simp [place, toRat, show (0 : Binary64) = zero false by decide, zero]
    | infinite => cases hzero
    | undefined => cases hzero
  obtain ⟨-, -, h⟩ := lt_def.mp h
  simp [hplace] at h

/-! ## Products and quotients without sign

An infinity times zero and an infinity over an infinity have no result. As such a result stands
behind all numbers, both operations rise with their first argument nevertheless. -/

/-- A number without sign, or what an operation without a result gives. -/
def Scaled (x : Binary64) : Prop := x.Unsigned ∨ x = nan

namespace Scaled

variable {x y : Binary64}

theorem totalLe_nan (h : x.Scaled) : x.totalLe nan := by
  rcases h with ⟨hnumber, hsign⟩ | rfl
  · cases x with
    | finite => simp [totalLe, place, nan]
    | infinite negative =>
        obtain rfl : negative = false := hsign
        simp [totalLe, place, nan]
    | undefined => cases hnumber
  · exact totalLe_refl nan

/-- What stands before a number is a number. -/
theorem unsigned_of_totalLe (h : x.Scaled) (hle : x.totalLe y) (hy : y.Unsigned) : x.Unsigned := by
  rcases h with h | rfl
  · exact h
  · -- the other order holds as well, so that both would be the same value
    have hsame : y = nan := totalLe_antisymm (totalLe_nan (.inl hy)) hle
    rw [hsame] at hy
    exact absurd hy.number (by decide)

end Scaled

section Operations

variable {x y d e : Binary64}

theorem mul_eq_ofRat (hx : x.Unsigned) (hxf : x.isFinite) (hd : d.Unsigned) (hdf : d.isFinite) :
    x * d = ofRat (x.toRat * d.toRat) := by
  obtain ⟨-, hxs⟩ := hx
  obtain ⟨-, hds⟩ := hd
  cases x <;> cases d <;>
    simp_all [HMul.hMul, Mul.mul, mul, isNaN, isInfinite, isFinite, ofRat]

theorem infinite_mul (hd : d.Unsigned) (hpos : 0 < d) : infinite false * d = infinite false := by
  change mul (infinite false) d = infinite false
  simp only [mul, hd.number, hd.sign, isZero_of_pos hpos]
  rfl

theorem mul_infinite (hx : x.Unsigned) :
    x * infinite false = if x.isZero then nan else infinite false := by
  change mul x (infinite false) = _
  simp only [mul, hx.number, hx.sign]
  cases x.isZero <;> simp [isNaN, isInfinite, isZero, Binary64.signBit]

theorem scaled_mul (hx : x.Unsigned) (hd : d.Unsigned) (hpos : 0 < d) : (x * d).Scaled := by
  by_cases hxf : x.isFinite
  · by_cases hdf : d.isFinite
    · rw [mul_eq_ofRat hx hxf hd hdf]
      exact .inl (unsigned_ofRat (mul_nonneg hx.toRat_nonneg hd.toRat_nonneg))
    · rw [hd.eq_infinite hdf, mul_infinite hx]
      split
      · exact .inr rfl
      · exact .inl ⟨rfl, rfl⟩
  · rw [hx.eq_infinite hxf, infinite_mul hd hpos]
    exact .inl ⟨rfl, rfl⟩

theorem mul_totalLe (hx : x.Unsigned) (hd : d.Unsigned) (he : e.Unsigned) (hpos : 0 < d)
    (h : d ≤ e) : (x * d).totalLe (x * e) := by
  by_cases hxf : x.isFinite
  · by_cases hef : e.isFinite
    · have hdf := hd.isFinite_of_le h hef
      rw [mul_eq_ofRat hx hxf hd hdf, mul_eq_ofRat hx hxf he hef]
      have hle : x.toRat * d.toRat ≤ x.toRat * e.toRat :=
        mul_le_mul_of_nonneg_left ((le_iff_toRat hdf hef).mp h) hx.toRat_nonneg
      have hnonneg := mul_nonneg hx.toRat_nonneg hd.toRat_nonneg
      exact totalLe_of_le (ofRat_mono hnonneg hle) (signBit_ofRat (hnonneg.trans hle))
    · rw [he.eq_infinite hef, mul_infinite hx]
      by_cases hzero : x.isZero
      · rw [if_pos hzero]
        exact (scaled_mul hx hd hpos).totalLe_nan
      · rw [if_neg hzero]
        have hnumber : (x * d).Unsigned := by
          by_cases hdf : d.isFinite
          · rw [mul_eq_ofRat hx hxf hd hdf]
            exact unsigned_ofRat (mul_nonneg hx.toRat_nonneg hd.toRat_nonneg)
          · rw [hd.eq_infinite hdf, mul_infinite hx, if_neg hzero]
            exact ⟨rfl, rfl⟩
        exact totalLe_of_le hnumber.le_infinite rfl
  · rw [hx.eq_infinite hxf, infinite_mul hd hpos, infinite_mul he (Binary64.lt_of_lt_of_le hpos h)]
    exact totalLe_refl _

theorem nan_div (d : Binary64) : nan / d = nan := by
  simp [HDiv.hDiv, Div.div, div, nan, isNaN]

theorem div_infinite (hx : x.Unsigned) :
    x / infinite false = if x.isFinite then zero false else nan := by
  obtain ⟨hnumber, hsign⟩ := hx
  cases x <;> simp_all [HDiv.hDiv, Div.div, div, isNaN, isInfinite, isFinite, Binary64.signBit]

theorem scaled_div (hx : x.Scaled) (hd : d.Unsigned) (hpos : 0 < d) : (x / d).Scaled := by
  rcases hx with hx | rfl
  · by_cases hdf : d.isFinite
    · exact .inl (unsigned_div hx hdf hpos)
    · rw [hd.eq_infinite hdf, div_infinite hx]
      split
      · exact .inl ⟨rfl, rfl⟩
      · exact .inr rfl
  · exact .inr (nan_div d)

theorem div_totalLe (hx : x.Scaled) (hy : y.Scaled) (hd : d.Unsigned) (hpos : 0 < d)
    (h : x.totalLe y) : (x / d).totalLe (y / d) := by
  rcases hy with hy | rfl
  · have hx := hx.unsigned_of_totalLe h hy
    have hle := le_of_totalLe h hx.number hy.number
    by_cases hdf : d.isFinite
    · exact totalLe_of_le (div_mono hx hy hle hdf hpos) (unsigned_div hy hdf hpos).sign
    · rw [hd.eq_infinite hdf, div_infinite hx, div_infinite hy]
      by_cases hyf : y.isFinite
      · rw [if_pos hyf, if_pos (hx.isFinite_of_le hle hyf)]
        exact totalLe_refl _
      · rw [if_neg hyf]
        split
        · exact Scaled.totalLe_nan (.inl ⟨rfl, rfl⟩)
        · exact totalLe_refl nan
  · rw [nan_div]
    exact (scaled_div hx hd hpos).totalLe_nan

end Operations

end Montage.Binary64
