import Mathlib.Tactic.Linarith
import Mathlib.Tactic.Positivity
import Montage.Decimal.Shortest
import Montage.Proofs.Binary64.Bounds

/-! # Shortest decimals

The shortest decimal of a number lies in the number's basin or below the number. It is so close that
what is read of it, or of its first digits, stays below infinity, although the power of ten and the
product are rounded as well. -/

namespace Montage.Decimal

variable {b : Basin} {v : Rat} {d : Scaled}

/-- The value of a decimal. -/
def Scaled.value (d : Scaled) : Rat := d.digits * (10 : Rat) ^ d.exp

theorem Scaled.go_spec (digits : Nat) (exp : Int) (n : Nat) :
    (stripped.go digits exp n).value = digits * (10 : Rat) ^ exp ∧
      exp ≤ (stripped.go digits exp n).exp := by
  induction n generalizing digits exp with
  | zero => exact ⟨rfl, le_rfl⟩
  | succ n ih =>
      rw [stripped.go]
      split
      case isTrue h =>
        obtain ⟨hvalue, hexp⟩ := ih (digits / 10) (exp + 1)
        have hdigits : (digits : Rat) = (digits / 10 : Nat) * 10 := by
          exact_mod_cast (Nat.div_mul_cancel (Nat.dvd_of_mod_eq_zero h.2)).symm
        refine ⟨?_, by omega⟩
        rw [hvalue, hdigits, zpow_add_one₀ (by norm_num), mul_comm ((10 : Rat) ^ exp), mul_assoc]
      case isFalse => exact ⟨rfl, le_rfl⟩

/-- Zeros that are moved into the exponent change nothing but the exponent. -/
theorem Scaled.stripped_spec (d : Scaled) : d.stripped.value = d.value ∧ d.exp ≤ d.stripped.exp :=
  go_spec d.digits d.exp _

/-! ## The grid -/

theorem Basin.le_high (h : b.holds v) : v ≤ b.high := by
  unfold holds at h
  split at h <;> simp only [Bool.and_eq_true, decide_eq_true_eq] at h
  · exact h.2
  · exact h.2.le

/-- What is below the number and does not round to it is below the basin. -/
theorem Basin.le_low {q : Rat} (h : ¬ b.holds q) (hq : q ≤ v) (hhigh : v < b.high) :
    q ≤ b.low := by
  by_contra hlow
  refine h ?_
  unfold holds
  split <;> simp only [Bool.and_eq_true, decide_eq_true_eq]
  · exact ⟨by linarith, by linarith⟩
  · exact ⟨by linarith, by linarith⟩

/-- A decimal that is not beyond the basin of a number, and not farther above the number than half
a step, unless the basin reaches farther up than down. -/
structure Near (b : Basin) (v : Rat) (d : Scaled) : Prop where
  le_high : d.value ≤ b.high
  le_half : b.high - v ≤ v - b.low → d.value ≤ v + (10 : Rat) ^ d.exp / 2

theorem floor_toNat_spec {q : Rat} (h : 0 ≤ q) :
    (q.floor.toNat : Rat) ≤ q ∧ q < q.floor.toNat + 1 := by
  have hfloor : ((q.floor.toNat : Int) : Rat) = q.floor := by
    rw [Int.toNat_of_nonneg (Rat.le_floor_iff.mpr (by simpa using h))]
  rw [Int.cast_natCast] at hfloor
  rw [hfloor]
  exact ⟨Rat.floor_le q, by exact_mod_cast Rat.lt_floor_add_one q⟩

/-- The grid points around a number. -/
theorem floor_spec {step : Rat} (hv : 0 ≤ v) (hstep : 0 < step) :
    (v / step).floor.toNat * step ≤ v ∧ v < ((v / step).floor.toNat + 1) * step := by
  obtain ⟨hlow, hhigh⟩ := floor_toNat_spec (div_nonneg hv hstep.le)
  exact ⟨(le_div_iff₀ hstep).mp hlow, (div_lt_iff₀ hstep).mp hhigh⟩

theorem Near.of_le (h : d.value ≤ v) (hhigh : v < b.high) : Near b v d := by
  have hstep : (0 : Rat) < (10 : Rat) ^ d.exp := by positivity
  exact ⟨by linarith, fun _ => by linarith⟩

theorem onGrid?_spec {exp : Int} (hv : 0 ≤ v) (hhigh : v < b.high)
    (h : onGrid? b v exp = some d) : d.exp = exp ∧ Near b v d := by
  have hstep : (0 : Rat) < (10 : Rat) ^ exp := by positivity
  obtain ⟨hlow, hnext⟩ := floor_spec hv hstep
  unfold onGrid? at h
  dsimp only at h
  generalize (v / (10 : Rat) ^ exp).floor.toNat = low at *
  split at h
  case isTrue =>
    cases h
    exact ⟨rfl, .of_le hlow hhigh⟩
  case isFalse hfar =>
    obtain ⟨hhit, h⟩ := Option.ite_none_right_eq_some.mp h
    cases h
    refine ⟨rfl, b.le_high hhit, fun hbasin => ?_⟩
    have hvalue' : Scaled.value ⟨low + 1, exp⟩ = low * (10 : Rat) ^ exp + (10 : Rat) ^ exp := by
      rw [Scaled.value]
      push_cast
      ring
    have hhigh' := b.le_high hhit
    simp only [Bool.and_eq_true, Bool.or_eq_true, Bool.not_eq_true', decide_eq_true_eq, not_and,
      not_or, not_lt] at hfar
    push_cast at hfar hhigh'
    rw [hvalue']
    by_cases hlowHit : b.holds (low * (10 : Rat) ^ exp)
    · have hcloser := (hfar hlowHit).2
      dsimp only
      linarith
    · have hbelow := b.le_low hlowHit hlow hhigh
      dsimp only
      linarith

theorem firstHit_spec (hv : 0 ≤ v) (hhigh : v < b.high) (top : Int) (left : Nat) :
    top - 16 ≤ (firstHit b v top left).exp ∧ Near b v (firstHit b v top left) := by
  induction left with
  | zero =>
      refine ⟨le_rfl, .of_le ?_ hhigh⟩
      exact (floor_spec hv (zpow_pos (by norm_num) _)).1
  | succ left ih =>
      rw [firstHit]
      split
      case h_1 hit hhit =>
        obtain ⟨hexp, hnear⟩ := onGrid?_spec hv hhigh hhit
        exact ⟨by omega, hnear⟩
      case h_2 => exact ih

/-- The shortest decimal of a positive number rounds to it or is below it. -/
theorem shortestOf_spec (mant : Nat) (exp : Int) :
    (shortestOf mant exp).value ≤ (mant + 1 / 2) * (2 : Rat) ^ exp ∧
    (mant ≠ Binary64.leastNormal → (shortestOf mant exp).value ≤
      mant * (2 : Rat) ^ exp + (10 : Rat) ^ (shortestOf mant exp).exp / 2) ∧
    log10 (mant * (2 : Rat) ^ exp) - 16 ≤ (shortestOf mant exp).exp := by
  have hunit : (0 : Rat) < (2 : Rat) ^ exp := by positivity
  have hhigh : (basin mant exp).high = mant * (2 : Rat) ^ exp + (2 : Rat) ^ exp / 2 := rfl
  obtain ⟨hexp, hle, hhalf⟩ := firstHit_spec (b := basin mant exp)
    (v := mant * (2 : Rat) ^ exp) (by positivity) (by rw [hhigh]; linarith)
    (log10 (mant * (2 : Rat) ^ exp)) 17
  set hit := firstHit (basin mant exp) (mant * (2 : Rat) ^ exp) (log10 (mant * (2 : Rat) ^ exp)) 17
    with hhit
  obtain ⟨hvalue, hstripped⟩ := hit.stripped_spec
  have hshortest : shortestOf mant exp = hit.stripped := rfl
  rw [hshortest, hvalue]
  refine ⟨by linarith, fun hmant => ?_, hexp.trans hstripped⟩
  have hlow : (basin mant exp).low = mant * (2 : Rat) ^ exp - (2 : Rat) ^ exp / 2 := by
    simp only [basin, hmant, false_and, if_false]
  have hpow : (10 : Rat) ^ hit.exp ≤ (10 : Rat) ^ hit.stripped.exp :=
    zpow_le_zpow_right₀ (by norm_num) hstripped
  have := hhalf (by linarith)
  linarith

/-! ## Scaling up -/

section Scaling

open Binary64 (rounded overflow rounded_mono rounded_nonneg mantBound leastNormal Canonical)

variable {mant s E : Nat} {exp : Int}

/-- A significand can be multiplied by a power of ten: this is one of the format, and the rounded
product of both, rounded as well, is no infinity. -/
structure Scalable (s E : Nat) : Prop where
  power : s ≠ 0 → E ≤ 308
  product : rounded (rounded s * rounded ((10 : Rat) ^ E)) < overflow

theorem Scalable.mono {cap : Nat} (hcap : Scalable cap E) (h : s ≤ cap) : Scalable s E := by
  refine ⟨fun hs => hcap.power (by omega), (rounded_mono ?_).trans_lt hcap.product⟩
  exact mul_le_mul_of_nonneg_right (rounded_mono (by exact_mod_cast h))
    (rounded_nonneg (by positivity))

/-- Far from the greatest number, the errors of the three roundings do not matter. -/
theorem scalable_of_le (h : (s : Rat) * 10 ^ E ≤ 5 / 4 * 2 ^ 1023) : Scalable s E := by
  have hup (n : Nat) : rounded n ≤ n * (1 + 1 / 2 ^ 53) := by
    rcases Nat.eq_zero_or_pos n with rfl | hn
    · simp [Binary64.rounded_zero]
    · have hleast : (2 : Rat) ^ (-1022 : Int) ≤ n :=
        (zpow_le_one_of_nonpos₀ (by norm_num) (by norm_num)).trans (by exact_mod_cast hn)
      have herror := (abs_le.mp (Binary64.abs_rounded_sub_le_div hleast)).2
      linarith
  have hpow : rounded ((10 : Rat) ^ E) ≤ 10 ^ E * (1 + 1 / 2 ^ 53) := by
    exact_mod_cast hup (10 ^ E)
  have hproduct : rounded s * rounded ((10 : Rat) ^ E) ≤ 3 / 2 * 2 ^ 1023 :=
    calc rounded s * rounded ((10 : Rat) ^ E)
        ≤ (s * (1 + 1 / 2 ^ 53)) * (10 ^ E * (1 + 1 / 2 ^ 53)) :=
          mul_le_mul (hup s) hpow (rounded_nonneg (by positivity)) (by positivity)
      _ = s * 10 ^ E * (1 + 1 / 2 ^ 53) ^ 2 := by ring
      _ ≤ 5 / 4 * 2 ^ 1023 * (1 + 1 / 2 ^ 53) ^ 2 := by gcongr
      _ ≤ 3 / 2 * 2 ^ 1023 := by
          rw [mul_right_comm]
          gcongr
          norm_num
  refine ⟨fun hs => ?_, (rounded_mono hproduct).trans_lt (by decide +kernel)⟩
  by_contra hlarge
  refine absurd ?_ (by decide +kernel : ¬ (10 : Rat) ^ 309 ≤ 5 / 4 * 2 ^ 1023)
  calc (10 : Rat) ^ 309 ≤ 10 ^ E := pow_le_pow_right₀ (by norm_num) (by omega)
    _ ≤ s * 10 ^ E := le_mul_of_one_le_left (by positivity)
        (by exact_mod_cast Nat.pos_of_ne_zero hs)
    _ ≤ 5 / 4 * 2 ^ 1023 := h

/-- The greatest number of units that may be written for a number of the format: not beyond the
basin of the greatest one, and at most half a unit above it. -/
def greatest (E : Nat) : Nat :=
  min ((2 ^ 1024 - 2 ^ 970) / 10 ^ E) ((2 * 2 ^ 1024 + 10 ^ E - 2 * 2 ^ 971) / (2 * 10 ^ E))

-- Without the second bound, 17976931348623158 units of `10 ^ 292` would be read as an infinity.
theorem product_greatest : ∀ E < 309, 291 ≤ E →
    rounded (rounded (greatest E) * rounded ((10 : Rat) ^ E)) < overflow := by
  decide +kernel

theorem greatest_eq_zero (h : 309 ≤ E) : greatest E = 0 := by
  have hpow : (2 : Rat) ^ 1024 < 10 ^ 309 := by decide +kernel
  rw [greatest, Nat.div_eq_of_lt, Nat.zero_min]
  exact (Nat.sub_le _ _).trans_lt
    (lt_of_lt_of_le (by exact_mod_cast hpow) (Nat.pow_le_pow_right (by decide) h))

theorem scalable_greatest (h : 291 ≤ E) : Scalable (greatest E) E := by
  rcases lt_or_ge E 309 with hE | hE
  · exact ⟨fun _ => Nat.le_of_lt_succ hE, product_greatest E hE h⟩
  · rw [greatest_eq_zero hE]
    exact scalable_of_le (by rw [Nat.cast_zero, zero_mul]; positivity)

theorem le_log10 {q : Rat} (h : (2 : Rat) ^ 1023 ≤ q) (hq : q < 2 ^ 1024) : 307 ≤ log10 q := by
  obtain ⟨hlow, hhigh⟩ := Rounding.log2_spec (lt_of_lt_of_le (by positivity) h)
  have hlog : Rounding.log2 q = 1023 := by
    have hup : Rounding.log2 q < 1024 := (zpow_lt_zpow_iff_right₀ (by norm_num : (1 : Rat) < 2)).mp
      (hlow.trans_lt (by exact_mod_cast hq))
    have hdown : 1023 < Rounding.log2 q + 1 :=
      (zpow_lt_zpow_iff_right₀ (by norm_num : (1 : Rat) < 2)).mp
        (lt_of_le_of_lt (by exact_mod_cast h) hhigh)
    omega
  have hguess : (10 : Rat) ^ (307 : Int) ≤ q := le_trans (by decide +kernel) h
  have hshift : (1023 * 30103 / 100000 : Int) = 307 := by decide
  rw [log10, hlog]
  simp only [hshift, hguess, if_true]
  split <;> decide

/-- The shortest decimal of a number above `2 ^ 1023`, and all that is read of it, has at most the
greatest number of units. -/
theorem le_greatest (hmant : mant < mantBound)
    (hv : (2 : Rat) ^ 1023 < mant * (2 : Rat) ^ (971 : Int))
    (hexp : (shortestOf mant 971).exp ≤ E)
    (h : (s : Rat) * 10 ^ E ≤ (shortestOf mant 971).value) : 291 ≤ E ∧ s ≤ greatest E := by
  obtain ⟨hhigh, hhalf, hlog⟩ := shortestOf_spec mant 971
  have hnormal : mant ≠ leastNormal := by
    rintro rfl
    exact absurd hv (by decide +kernel)
  have hunit : (2 : Rat) ^ (971 : Int) = 2 ^ 971 := zpow_ofNat 2 971
  have hsplit : (2 : Rat) ^ 971 = 2 * 2 ^ 970 := pow_succ' 2 970
  have htop : (mant : Rat) * 2 ^ 971 + 2 ^ 971 ≤ 2 ^ 1024 := by
    rw [← add_one_mul, show (2 : Rat) ^ 1024 = 2 ^ 53 * 2 ^ 971 by rw [← pow_add]]
    gcongr
    exact_mod_cast hmant
  have hpow : (10 : Rat) ^ (shortestOf mant 971).exp ≤ 10 ^ E := by
    exact_mod_cast zpow_le_zpow_right₀ (by norm_num : (1 : Rat) ≤ 10) hexp
  rw [hunit] at hv hhigh hhalf hlog
  have hlog' : 307 ≤ log10 (mant * (2 : Rat) ^ 971) :=
    le_log10 hv.le (lt_of_lt_of_le (lt_add_of_pos_right _ (by positivity)) htop)
  -- The powers are named, for they are too large to be computed with.
  have hbasin : (s : Rat) * 10 ^ E + 2 ^ 970 ≤ 2 ^ 1024 := by
    rw [hsplit] at hhigh htop
    generalize (2 : Rat) ^ 970 = unit, (2 : Rat) ^ 1024 = top at *
    linarith
  have hnear : 2 * ((s : Rat) * 10 ^ E) + 2 * 2 ^ 971 ≤ 2 * 2 ^ 1024 + 10 ^ E := by
    have hhalf := hhalf hnormal
    generalize (2 : Rat) ^ 971 = unit, (2 : Rat) ^ 1024 = top at *
    linarith
  refine ⟨by omega, le_min ?_ ?_⟩
  · rw [Nat.le_div_iff_mul_le (by positivity)]
    exact Nat.le_sub_of_add_le (by exact_mod_cast hbasin)
  · rw [Nat.le_div_iff_mul_le (by positivity), Nat.mul_left_comm]
    exact Nat.le_sub_of_add_le (by exact_mod_cast hnear)

/-- Whatever is read of a decimal, be it all its digits or the first ones, can be scaled up. -/
def Scaled.Scalable (d : Scaled) : Prop :=
  ∀ s E : Nat, d.exp ≤ E → (s : Rat) * 10 ^ E ≤ d.value → Decimal.Scalable s E

/-- The shortest decimal of a number is never read as an infinity. -/
theorem scalable_shortestOf (hc : Canonical mant exp) : (shortestOf mant exp).Scalable := by
  intro s E hunits h
  obtain ⟨hmant, -, hexp, -⟩ := hc
  have hpow {n : Nat} (hn : exp ≤ n) : (2 : Rat) ^ exp ≤ 2 ^ n := by
    exact_mod_cast zpow_le_zpow_right₀ (by norm_num : (1 : Rat) ≤ 2) hn
  rcases le_or_gt (mant * (2 : Rat) ^ exp) (2 ^ 1023) with hv | hv
  · refine scalable_of_le (h.trans ((shortestOf_spec mant exp).1.trans ?_))
    have hunit : (2 : Rat) ^ exp ≤ 1 / 2 * 2 ^ 1023 := (hpow hexp).trans (by decide +kernel)
    rw [add_mul]
    generalize (2 : Rat) ^ 1023 = bound at *
    linarith
  · obtain rfl : exp = 971 := by
      by_contra hne
      refine absurd hv (not_lt.mpr ?_)
      calc (mant : Rat) * (2 : Rat) ^ exp ≤ 2 ^ 53 * 2 ^ 970 := by
            gcongr
            · exact_mod_cast hmant.le
            · exact hpow (by omega)
        _ = 2 ^ 1023 := by rw [← pow_add]
    obtain ⟨hlow, hle⟩ := le_greatest hmant hv hunits h
    exact (scalable_greatest hlow).mono hle

end Scaling

end Montage.Decimal
