import Mathlib.Algebra.Order.Field.Power
import Mathlib.Data.Rat.Cast.Order
import Mathlib.Tactic.Linarith
import Mathlib.Tactic.Positivity
import Mathlib.Tactic.Ring
import Montage.Proofs.Binary64.Order

/-! # Rounding keeps the order

The number nearest to a rational grows with the rational, and so does the nearest integer. This
carries over to quotients of numbers without sign by a positive number. -/

namespace Montage

namespace Rounding

/-! ## To integers -/

theorem floor_le_nearestEven (q : Rat) : q.floor ≤ nearestEven q := by
  simp only [nearestEven]
  split_ifs <;> omega

theorem nearestEven_le_floor_add_one (q : Rat) : nearestEven q ≤ q.floor + 1 := by
  simp only [nearestEven]
  split_ifs <;> omega

theorem floor_mono {q r : Rat} (h : q ≤ r) : q.floor ≤ r.floor :=
  Rat.le_floor_iff.mpr (le_trans (Rat.floor_le q) h)

theorem nearestEven_mono {q r : Rat} (h : q ≤ r) : nearestEven q ≤ nearestEven r := by
  rcases (floor_mono h).lt_or_eq with hlt | heq
  · calc nearestEven q ≤ q.floor + 1 := nearestEven_le_floor_add_one q
      _ ≤ r.floor := hlt
      _ ≤ nearestEven r := floor_le_nearestEven r
  · -- both lie between the same integers, so that the rests decide
    have hrest : q - q.floor ≤ r - r.floor := by
      rw [heq]
      linarith
    simp only [nearestEven]
    rw [heq] at hrest ⊢
    split_ifs <;> first | omega | linarith

theorem le_nearestEven {k : Int} {q : Rat} (h : (k : Rat) ≤ q) : k ≤ nearestEven q :=
  le_trans (Rat.le_floor_iff.mpr h) (floor_le_nearestEven q)

theorem nearestEven_intCast (k : Int) : nearestEven k = k := by
  simp [nearestEven]

theorem nearestEven_le {k : Int} {q : Rat} (h : q ≤ k) : nearestEven q ≤ k := by
  rw [← nearestEven_intCast k]
  exact nearestEven_mono h

theorem nearestAway_of_nonneg {q : Rat} (h : 0 ≤ q) : nearestAway q = (q + 1 / 2).floor :=
  if_pos h

theorem floor_half : (1 / 2 : Rat).floor = 0 := by decide +kernel

theorem nearestAway_zero : nearestAway 0 = 0 := by
  rw [nearestAway_of_nonneg le_rfl, zero_add, floor_half]

theorem nearestAway_mono {q r : Rat} (hq : 0 ≤ q) (h : q ≤ r) : nearestAway q ≤ nearestAway r := by
  rw [nearestAway_of_nonneg hq, nearestAway_of_nonneg (hq.trans h)]
  exact floor_mono (by linarith)

/-! ## The order of magnitude -/

/-- A positive rational lies between two powers of two with the exponents that the sizes of its
parts give. -/
theorem between_powers {q : Rat} (hq : 0 < q) :
    let k : Int := (q.num.toNat.log2 : Int) - (q.den.log2 : Int)
    (2 : Rat) ^ (k - 1) ≤ q ∧ q < (2 : Rat) ^ (k + 1) := by
  intro k
  have hden : (0 : Rat) < q.den := by exact_mod_cast q.den_pos
  have hnum : (q.num.toNat : Rat) = q.num := by
    exact_mod_cast Int.toNat_of_nonneg (Rat.num_pos.mpr hq).le
  have hnum_ne : q.num.toNat ≠ 0 := by
    have := Rat.num_pos.mpr hq
    omega
  have hquot : (q.num.toNat : Rat) / q.den = q := by rw [hnum, Rat.num_div_den]
  have hlow : (2 : Rat) ^ q.num.toNat.log2 ≤ q.num.toNat := by
    exact_mod_cast Nat.log2_self_le hnum_ne
  have hhigh : (q.num.toNat : Rat) < 2 ^ (q.num.toNat.log2 + 1) := by
    exact_mod_cast Nat.lt_log2_self
  have hlow' : (2 : Rat) ^ q.den.log2 ≤ q.den := by
    exact_mod_cast Nat.log2_self_le q.den_nz
  have hhigh' : (q.den : Rat) < 2 ^ (q.den.log2 + 1) := by
    exact_mod_cast Nat.lt_log2_self
  have hbelow : (2 : Rat) ^ (k - 1) = 2 ^ q.num.toNat.log2 / 2 ^ (q.den.log2 + 1) := by
    rw [← zpow_natCast, ← zpow_natCast, ← zpow_sub₀ two_ne_zero]
    congr 1
    push_cast
    omega
  have habove : (2 : Rat) ^ (k + 1) = 2 ^ (q.num.toNat.log2 + 1) / 2 ^ q.den.log2 := by
    rw [← zpow_natCast, ← zpow_natCast, ← zpow_sub₀ two_ne_zero]
    congr 1
    push_cast
    omega
  rw [hbelow, habove]
  constructor
  · exact (div_le_div₀ (by positivity) hlow hden hhigh'.le).trans_eq hquot
  · exact hquot.symm.trans_lt (div_lt_div₀ hhigh hlow' (by positivity) (by positivity))

/-- The order of magnitude is the exponent of the greatest power of two that is not above. -/
theorem log2_spec {q : Rat} (hq : 0 < q) :
    (2 : Rat) ^ log2 q ≤ q ∧ q < (2 : Rat) ^ (log2 q + 1) := by
  have hbetween := between_powers hq
  simp only [log2]
  split
  case isTrue h => exact ⟨h, hbetween.2⟩
  case isFalse h => exact ⟨hbetween.1, by simpa using h⟩

theorem log2_mono {q r : Rat} (hq : 0 < q) (h : q ≤ r) : log2 q ≤ log2 r := by
  have hlow := (log2_spec hq).1
  have hhigh := (log2_spec (hq.trans_le h)).2
  have hlt : (2 : Rat) ^ log2 q < (2 : Rat) ^ (log2 r + 1) := lt_of_le_of_lt (hlow.trans h) hhigh
  have := (zpow_lt_zpow_iff_right₀ (by norm_num : (1 : Rat) < 2)).mp hlt
  omega

end Rounding

namespace Binary64

open Rounding (nearestEven log2)

/-! ## To binary64 numbers -/

/-- The exponent of the last place of the number nearest to a positive rational. -/
def lastPlace (q : Rat) : Int := max (-1074) (log2 q - 52)

/-- The significand of the number nearest to a positive rational. -/
def significand (q : Rat) : Int := nearestEven (q / (2 : Rat) ^ lastPlace q)

/-- The value nearest to a positive rational, when there is no greatest exponent. -/
def nearest (q : Rat) : Rat := significand q * (2 : Rat) ^ lastPlace q

theorem lastPlace_mono {q r : Rat} (hq : 0 < q) (h : q ≤ r) : lastPlace q ≤ lastPlace r := by
  have := Rounding.log2_mono hq h
  simp only [lastPlace]
  omega

theorem significand_nonneg {q : Rat} (hq : 0 < q) : 0 ≤ significand q := by
  refine Rounding.le_nearestEven ?_
  have hpow : (0 : Rat) < (2 : Rat) ^ lastPlace q := zpow_pos (by norm_num) _
  exact_mod_cast (div_pos hq hpow).le

theorem significand_le {q : Rat} (hq : 0 < q) : significand q ≤ mantBound := by
  refine Rounding.nearestEven_le ?_
  have hpow : (0 : Rat) < (2 : Rat) ^ lastPlace q := zpow_pos (by norm_num) _
  rw [div_le_iff₀ hpow]
  calc q ≤ (2 : Rat) ^ (log2 q + 1) := (Rounding.log2_spec hq).2.le
    _ ≤ (2 : Rat) ^ (53 + lastPlace q) := by
        refine zpow_le_zpow_right₀ (by norm_num) ?_
        simp only [lastPlace]
        omega
    _ = ((mantBound : Int) : Rat) * (2 : Rat) ^ lastPlace q := by
        rw [zpow_add₀ two_ne_zero]
        norm_num

/-- Above the least exponent all places are used. -/
theorem le_significand {q : Rat} (hq : 0 < q) (h : -1074 < lastPlace q) :
    leastNormal ≤ significand q := by
  refine Rounding.le_nearestEven ?_
  have hpow : (0 : Rat) < (2 : Rat) ^ lastPlace q := zpow_pos (by norm_num) _
  rw [le_div_iff₀ hpow]
  calc ((leastNormal : Int) : Rat) * (2 : Rat) ^ lastPlace q
      = (2 : Rat) ^ (52 + lastPlace q) := by
        rw [zpow_add₀ two_ne_zero]
        norm_num
    _ = (2 : Rat) ^ log2 q := by
        congr 1
        simp only [lastPlace] at h ⊢
        omega
    _ ≤ q := (Rounding.log2_spec hq).1

theorem nearest_mono {q r : Rat} (hq : 0 < q) (h : q ≤ r) : nearest q ≤ nearest r := by
  have hr := hq.trans_le h
  have hpow (k : Int) : (0 : Rat) < (2 : Rat) ^ k := zpow_pos (by norm_num) k
  rcases (lastPlace_mono hq h).lt_or_eq with hlt | heq
  · -- a greater exponent outweighs any significand
    have hfull := le_significand hr (lt_of_le_of_lt (le_max_left _ _) hlt)
    calc nearest q ≤ ((mantBound : Int) : Rat) * (2 : Rat) ^ lastPlace q := by
          refine mul_le_mul_of_nonneg_right ?_ (hpow _).le
          exact_mod_cast significand_le hq
      _ = ((leastNormal : Int) : Rat) * (2 : Rat) ^ (lastPlace q + 1) := by
          rw [zpow_add₀ two_ne_zero]
          norm_num
          ring
      _ ≤ ((leastNormal : Int) : Rat) * (2 : Rat) ^ lastPlace r := by
          refine mul_le_mul_of_nonneg_left ?_ (by norm_num)
          exact zpow_le_zpow_right₀ (by norm_num) hlt
      _ ≤ nearest r := by
          refine mul_le_mul_of_nonneg_right ?_ (hpow _).le
          exact_mod_cast hfull
  · have hsignificand : significand q ≤ significand r := by
      rw [significand, significand, heq]
      exact Rounding.nearestEven_mono (div_le_div_of_nonneg_right h (hpow _).le)
    rw [nearest, nearest, heq]
    refine mul_le_mul_of_nonneg_right ?_ (hpow _).le
    exact_mod_cast hsignificand

/-! ## The nearest number on the line -/

/-- What is not below this has no nearest finite number. -/
def overflow : Rat := (2 : Rat) ^ (1024 : Int)

theorem place_ofParts {mant : Nat} {exp : Int} (h : Canonical mant exp) :
    (ofParts false mant exp).place = (0, (mant : Rat) * (2 : Rat) ^ exp) := by
  rw [ofParts, dif_pos h]
  simp [place, toRat]

theorem place_ofParts_of_not {mant : Nat} {exp : Int} (h : ¬ Canonical mant exp) :
    (ofParts false mant exp).place = (1, 0) := by
  rw [ofParts, dif_neg h]
  rfl

/-- A value with all places is beyond all numbers exactly if its exponent is. -/
theorem lt_overflow_iff {mant : Nat} {exp : Int} (hlow : leastNormal ≤ mant ∨ exp = -1074)
    (hhigh : mant < mantBound) :
    (mant : Rat) * (2 : Rat) ^ exp < overflow ↔ exp ≤ 971 := by
  have hpow : (0 : Rat) < (2 : Rat) ^ exp := zpow_pos (by norm_num) _
  constructor
  · intro h
    by_contra hexp
    have hfull : leastNormal ≤ mant := hlow.resolve_right (by omega)
    have hfull' : ((leastNormal : Nat) : Rat) ≤ mant := by exact_mod_cast hfull
    refine absurd h (not_lt.mpr ?_)
    calc overflow = (2 : Rat) ^ (52 : Int) * (2 : Rat) ^ (972 : Int) := by
          rw [overflow, ← zpow_add₀ two_ne_zero]
          norm_num
      _ ≤ (2 : Rat) ^ (52 : Int) * (2 : Rat) ^ exp := by
          refine mul_le_mul_of_nonneg_left ?_ (by positivity)
          exact zpow_le_zpow_right₀ (by norm_num) (by omega)
      _ = ((leastNormal : Nat) : Rat) * (2 : Rat) ^ exp := by norm_num
      _ ≤ (mant : Rat) * (2 : Rat) ^ exp := mul_le_mul_of_nonneg_right hfull' hpow.le
  · intro hexp
    have hhigh' : (mant : Rat) < ((mantBound : Nat) : Rat) := by exact_mod_cast hhigh
    calc (mant : Rat) * (2 : Rat) ^ exp
        < ((mantBound : Nat) : Rat) * (2 : Rat) ^ exp := mul_lt_mul_of_pos_right hhigh' hpow
      _ = (2 : Rat) ^ (53 : Int) * (2 : Rat) ^ exp := by norm_num
      _ ≤ (2 : Rat) ^ (53 : Int) * (2 : Rat) ^ (971 : Int) := by
          refine mul_le_mul_of_nonneg_left ?_ (by positivity)
          exact zpow_le_zpow_right₀ (by norm_num) hexp
      _ = overflow := by
          rw [overflow, ← zpow_add₀ two_ne_zero]
          norm_num

/-- A value with all places is a number exactly if it is not beyond all numbers. -/
theorem place_ofParts_eq {mant : Nat} {exp : Int} (hlow : leastNormal ≤ mant ∨ exp = -1074)
    (hhigh : mant < mantBound) (hexp : -1074 ≤ exp) :
    (ofParts false mant exp).place =
      if (mant : Rat) * (2 : Rat) ^ exp < overflow then (0, (mant : Rat) * (2 : Rat) ^ exp)
      else (1, 0) := by
  have hiff := lt_overflow_iff hlow hhigh
  split
  case isTrue h => exact place_ofParts ⟨hhigh, hexp, hiff.mp h, hlow⟩
  case isFalse h => exact place_ofParts_of_not fun hc => h (hiff.mpr hc.2.2.1)

/-- The number nearest to a positive rational is the nearest value, or infinite if that is too
great. -/
theorem place_ofRat {q : Rat} (hq : 0 < q) :
    (ofRat q).place = if nearest q < overflow then (0, nearest q) else (1, 0) := by
  have hneg : decide (q < 0) = false := decide_eq_false hq.le.not_gt
  have habs : q.abs = q := Rat.abs_of_nonneg hq.le
  have hmant : (((significand q).toNat : Nat) : Rat) = significand q := by
    exact_mod_cast Int.toNat_of_nonneg (significand_nonneg hq)
  have hle := significand_le hq
  have hexp : -1074 ≤ lastPlace q := le_max_left _ _
  have hsplit : ofRat q =
      if (significand q).toNat = mantBound then ofParts false leastNormal (lastPlace q + 1)
      else ofParts false (significand q).toNat (lastPlace q) := by
    simp only [ofRat, ofRatSigned, if_neg hq.ne', hneg, habs]
    rfl
  rw [hsplit]
  split
  case isTrue h =>
    -- the significand was rounded up to the next power of two
    have hvalue : nearest q = ((leastNormal : Nat) : Rat) * (2 : Rat) ^ (lastPlace q + 1) := by
      rw [nearest, ← hmant, h, zpow_add₀ two_ne_zero]
      norm_num
      ring
    rw [hvalue]
    exact place_ofParts_eq (.inl le_rfl) (by norm_num) (by omega)
  case isFalse h =>
    have hfull : leastNormal ≤ (significand q).toNat ∨ lastPlace q = -1074 := by
      rcases hexp.lt_or_eq with hlt | heq
      · have := le_significand hq hlt
        omega
      · exact .inr heq.symm
    rw [nearest, ← hmant]
    exact place_ofParts_eq hfull (by omega) hexp

/-- The nearest number grows with what it is nearest to. -/
theorem ofRat_mono {q r : Rat} (hq : 0 ≤ q) (h : q ≤ r) : ofRat q ≤ ofRat r := by
  rcases hq.lt_or_eq with hpos | rfl
  · have hmono := nearest_mono hpos h
    rw [le_def, place_ofRat hpos, place_ofRat (hpos.trans_le h)]
    refine ⟨isNaN_ofRat q, isNaN_ofRat r, ?_⟩
    by_cases hr : nearest r < overflow
    · rw [if_pos hr, if_pos (hmono.trans_lt hr)]
      exact .inr ⟨rfl, hmono⟩
    · rw [if_neg hr]
      split
      · exact .inl (by norm_num)
      · exact .inr ⟨rfl, le_rfl⟩
  · exact zero_le_of_signBit (isNaN_ofRat r) (signBit_ofRat h)

/-! ## Numbers without sign -/

/-- A number whose sign bit is not set. -/
structure Unsigned (x : Binary64) : Prop where
  number : x.isNaN = false
  sign : x.signBit = false

theorem unsigned_ofRat {q : Rat} (hq : 0 ≤ q) : (ofRat q).Unsigned :=
  ⟨isNaN_ofRat q, signBit_ofRat hq⟩

theorem unsigned_ofNat (n : Nat) : (ofNat n).Unsigned :=
  unsigned_ofRat (by exact_mod_cast Nat.zero_le n)

theorem ofNat_mono {m n : Nat} (h : m ≤ n) : ofNat m ≤ ofNat n :=
  ofRat_mono (by exact_mod_cast Nat.zero_le m) (by exact_mod_cast h)

theorem le_iff_toRat {x y : Binary64} (hx : x.isFinite) (hy : y.isFinite) :
    x ≤ y ↔ x.toRat ≤ y.toRat := by
  cases x <;> cases y <;> simp_all [le_def, isFinite, isNaN, place]

namespace Unsigned

variable {x y d : Binary64}

theorem eq_infinite (h : x.Unsigned) (hx : ¬ x.isFinite) : x = .infinite false := by
  obtain ⟨hnumber, hsign⟩ := h
  cases x with
  | finite => exact absurd rfl hx
  | infinite negative =>
      obtain rfl : negative = false := hsign
      rfl
  | undefined => cases hnumber

theorem le_infinite (h : x.Unsigned) : x ≤ .infinite false := by
  by_cases hx : x.isFinite
  · rw [le_def]
    refine ⟨h.number, rfl, .inl ?_⟩
    cases x with
    | finite => norm_num [place]
    | infinite => cases hx
    | undefined => cases hx
  · rw [h.eq_infinite hx]
    decide

/-- What is below a finite number is finite. -/
theorem isFinite_of_le (hx : x.Unsigned) (h : x ≤ y) (hy : y.isFinite) : x.isFinite := by
  by_contra hinf
  rw [hx.eq_infinite hinf, le_def] at h
  cases y with
  | finite => simp [place] at h
  | infinite => cases hy
  | undefined => cases hy

theorem toRat_nonneg (h : x.Unsigned) : 0 ≤ x.toRat := by
  obtain ⟨-, hsign⟩ := h
  cases x with
  | finite negative mant exp hc =>
      obtain rfl : negative = false := hsign
      have hpow : (0 : Rat) < (2 : Rat) ^ exp := zpow_pos (by norm_num) _
      simpa [toRat] using mul_nonneg (Nat.cast_nonneg mant) hpow.le
  | infinite negative => exact le_rfl
  | undefined => exact le_rfl

end Unsigned

/-- A positive finite number has a positive value and no sign. -/
theorem toRat_pos {d : Binary64} (hd : d.isFinite) (hpos : 0 < d) :
    0 < d.toRat ∧ d.Unsigned := by
  have hzero : (0 : Binary64) = zero false := by decide
  cases d with
  | finite negative mant exp hc =>
      have hvalue : 0 < (finite negative mant exp hc).toRat := by
        rw [hzero, lt_def] at hpos
        simpa [place, zero, toRat, isNaN] using hpos
      refine ⟨hvalue, rfl, ?_⟩
      cases negative with
      | false => rfl
      | true =>
          have hpow : (0 : Rat) < (2 : Rat) ^ exp := zpow_pos (by norm_num) _
          have hprod : (0 : Rat) ≤ (mant : Rat) * (2 : Rat) ^ exp :=
            mul_nonneg (Nat.cast_nonneg mant) hpow.le
          simp only [toRat, if_true] at hvalue
          linarith
  | infinite negative => cases hd
  | undefined => cases hd

/-! ## Operations that keep the order -/

section Operations

variable {x y d : Binary64}

/-- The quotient of finite numbers without sign is the exact one, rounded. -/
theorem div_eq_ofRat (hx : x.Unsigned) (hfinite : x.isFinite) (hd : d.isFinite) (hpos : 0 < d) :
    x / d = ofRat (x.toRat / d.toRat) := by
  obtain ⟨hvalue, -, hsign⟩ := toRat_pos hd hpos
  obtain ⟨-, hsign'⟩ := hx
  cases d with
  | finite negative mant exp hc =>
      have hnonzero : (finite negative mant exp hc).isZero = false := by
        refine decide_eq_false fun hzero => ?_
        subst hzero
        simp [toRat] at hvalue
      cases x with
      | finite => simp [HDiv.hDiv, Div.div, div, isNaN, isInfinite, hnonzero, hsign, hsign', ofRat]
      | infinite => cases hfinite
      | undefined => cases hfinite
  | infinite => cases hd
  | undefined => cases hd

/-- Infinity stays infinite. -/
theorem infinite_div (hd : d.isFinite) (hpos : 0 < d) :
    infinite false / d = infinite false := by
  obtain ⟨-, -, hsign⟩ := toRat_pos hd hpos
  cases d with
  | finite negative mant exp hc =>
      obtain rfl : negative = false := hsign
      rfl
  | infinite => cases hd
  | undefined => cases hd

theorem unsigned_div (hx : x.Unsigned) (hd : d.isFinite) (hpos : 0 < d) : (x / d).Unsigned := by
  by_cases hfinite : x.isFinite
  · rw [div_eq_ofRat hx hfinite hd hpos]
    exact unsigned_ofRat (div_nonneg hx.toRat_nonneg (toRat_pos hd hpos).1.le)
  · rw [hx.eq_infinite hfinite, infinite_div hd hpos]
    exact ⟨rfl, rfl⟩

/-- A greater number has the greater quotient. -/
theorem div_mono (hx : x.Unsigned) (hy : y.Unsigned) (h : x ≤ y) (hd : d.isFinite)
    (hpos : 0 < d) : x / d ≤ y / d := by
  by_cases hfinite : y.isFinite
  · have hx' := hx.isFinite_of_le h hfinite
    have hvalue := (toRat_pos hd hpos).1
    rw [div_eq_ofRat hx hx' hd hpos, div_eq_ofRat hy hfinite hd hpos]
    refine ofRat_mono (div_nonneg hx.toRat_nonneg hvalue.le) ?_
    exact div_le_div_of_nonneg_right ((le_iff_toRat hx' hfinite).mp h) hvalue.le
  · rw [hy.eq_infinite hfinite, infinite_div hd hpos]
    exact (unsigned_div hx hd hpos).le_infinite

theorem round_eq_ofRat (hx : x.Unsigned) (hfinite : x.isFinite) :
    x.round = ofRat (Rounding.nearestAway x.toRat) := by
  obtain ⟨-, hsign⟩ := hx
  cases x with
  | finite negative mant exp hc =>
      obtain rfl : negative = false := hsign
      rfl
  | infinite => cases hfinite
  | undefined => cases hfinite

theorem nearestAway_toRat_nonneg (hx : x.Unsigned) :
    (0 : Rat) ≤ Rounding.nearestAway x.toRat := by
  have := Rounding.nearestAway_mono le_rfl hx.toRat_nonneg
  rw [Rounding.nearestAway_zero] at this
  exact_mod_cast this

theorem unsigned_round (hx : x.Unsigned) : x.round.Unsigned := by
  by_cases hfinite : x.isFinite
  · rw [round_eq_ofRat hx hfinite]
    exact unsigned_ofRat (nearestAway_toRat_nonneg hx)
  · rw [hx.eq_infinite hfinite]
    exact ⟨rfl, rfl⟩

/-- A greater number has the greater nearest integral number. -/
theorem round_mono (hx : x.Unsigned) (hy : y.Unsigned) (h : x ≤ y) : x.round ≤ y.round := by
  by_cases hfinite : y.isFinite
  · have hx' := hx.isFinite_of_le h hfinite
    rw [round_eq_ofRat hx hx', round_eq_ofRat hy hfinite]
    refine ofRat_mono (nearestAway_toRat_nonneg hx) ?_
    exact_mod_cast Rounding.nearestAway_mono hx.toRat_nonneg ((le_iff_toRat hx' hfinite).mp h)
  · rw [hy.eq_infinite hfinite]
    exact (unsigned_round hx).le_infinite

theorem toNatUpTo_le (top : Nat) (x : Binary64) : x.toNatUpTo top ≤ top := by
  cases x with
  | finite => exact Nat.min_le_left _ _
  | infinite negative => cases negative <;> simp [toNatUpTo]
  | undefined => exact Nat.zero_le top

/-- A greater number has the greater integral part. -/
theorem toNatUpTo_mono (top : Nat) (hx : x.Unsigned) (hy : y.Unsigned) (h : x ≤ y) :
    x.toNatUpTo top ≤ y.toNatUpTo top := by
  by_cases hfinite : y.isFinite
  · have hx' := hx.isFinite_of_le h hfinite
    have hfloor := Rounding.floor_mono ((le_iff_toRat hx' hfinite).mp h)
    cases x <;> cases y <;> simp_all [isFinite, toNatUpTo]
  · rw [hy.eq_infinite hfinite]
    exact toNatUpTo_le top x

end Operations

end Binary64

end Montage
