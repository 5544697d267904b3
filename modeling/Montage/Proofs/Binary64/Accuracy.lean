import Montage.Proofs.Binary64.Rounding

/-! # How far rounding goes

The number nearest to a rational is at most half a unit of its last place away. So whole numbers
that need no more than all places are kept as they are, and two quotients that are more than one
apart do not have the same nearest integer as long as there are places after the point. -/

namespace Montage

namespace Rounding

theorem abs_nearestEven_sub_le (q : Rat) : |(nearestEven q : Rat) - q| ≤ 1 / 2 := by
  have hfloor : (q.floor : Rat) ≤ q := Rat.floor_le q
  have hceil : q < q.floor + 1 := by exact_mod_cast Rat.lt_floor_add_one q
  simp only [nearestEven]
  rw [abs_le]
  split_ifs <;> push_cast <;> constructor <;> linarith

theorem nearestAway_le {q : Rat} (hq : 0 ≤ q) : (nearestAway q : Rat) ≤ q + 1 / 2 := by
  rw [nearestAway_of_nonneg hq]
  exact Rat.floor_le _

theorem lt_nearestAway {q : Rat} (hq : 0 ≤ q) : q - 1 / 2 < nearestAway q := by
  have hlt := Rat.lt_floor_add_one (q + 1 / 2)
  push_cast at hlt
  rw [nearestAway_of_nonneg hq]
  linarith

theorem nearestAway_neg (q : Rat) : nearestAway (-q) = -nearestAway q := by
  rcases lt_trichotomy q 0 with hq | rfl | hq
  · rw [nearestAway_of_nonneg (neg_nonneg.mpr hq.le), nearestAway, if_neg (not_le.mpr hq), neg_neg]
  · rw [neg_zero, nearestAway_zero, neg_zero]
  · rw [nearestAway_of_nonneg hq.le, nearestAway, if_neg (by linarith), neg_neg]

theorem abs_nearestAway_sub_le (q : Rat) : |(nearestAway q : Rat) - q| ≤ 1 / 2 := by
  have hup {q : Rat} (hq : 0 ≤ q) : |(nearestAway q : Rat) - q| ≤ 1 / 2 :=
    abs_le.mpr ⟨by linarith [lt_nearestAway hq], by linarith [nearestAway_le hq]⟩
  rcases le_total 0 q with hq | hq
  · exact hup hq
  · have hflip := hup (neg_nonneg.mpr hq)
    rwa [nearestAway_neg, Int.cast_neg, ← neg_add', abs_neg, ← sub_eq_add_neg] at hflip

theorem nearestAway_intCast (k : Int) : nearestAway k = k := by
  have hnear := abs_le.mp (abs_nearestAway_sub_le k)
  have hlow : (k : Rat) - 1 < nearestAway k := by linarith
  have hhigh : (nearestAway k : Rat) < k + 1 := by linarith
  have hlow' : k - 1 < nearestAway k := by exact_mod_cast hlow
  have hhigh' : nearestAway k < k + 1 := by exact_mod_cast hhigh
  omega

theorem log2_lt {q : Rat} (hq : 0 < q) {k : Int} (h : q < (2 : Rat) ^ k) : log2 q < k :=
  (zpow_lt_zpow_iff_right₀ (by norm_num : (1 : Rat) < 2)).mp ((log2_spec hq).1.trans_lt h)

end Rounding

namespace Binary64

/-! ## The distance to the nearest number -/

/-- The nearest value is at most half a unit of the last place away. -/
theorem abs_nearest_sub_le (q : Rat) : |nearest q - q| ≤ (2 : Rat) ^ lastPlace q / 2 := by
  have hpow : (0 : Rat) < (2 : Rat) ^ lastPlace q := zpow_pos (by norm_num) _
  have hsplit : nearest q - q =
      (significand q - q / (2 : Rat) ^ lastPlace q) * (2 : Rat) ^ lastPlace q := by
    rw [sub_mul, div_mul_cancel₀ _ hpow.ne', nearest]
  rw [hsplit, abs_mul, abs_of_pos hpow]
  calc |(significand q : Rat) - q / (2 : Rat) ^ lastPlace q| * (2 : Rat) ^ lastPlace q
      ≤ 1 / 2 * (2 : Rat) ^ lastPlace q :=
        mul_le_mul_of_nonneg_right (Rounding.abs_nearestEven_sub_le _) hpow.le
    _ = (2 : Rat) ^ lastPlace q / 2 := by ring

/-- Below `2 ^ 64` a rational is nearest to a finite number. -/
theorem isFinite_ofRat {q : Rat} (hq : 0 ≤ q) (h : q ≤ (2 : Rat) ^ 64) : (ofRat q).isFinite :=
  (unsigned_ofRat hq).isFinite_of_le (ofRat_mono hq h) (by decide +kernel)

theorem toRat_ofRat {q : Rat} (hq : 0 < q) (h : q ≤ (2 : Rat) ^ 64) :
    (ofRat q).toRat = nearest q := by
  have hfinite := isFinite_ofRat hq.le h
  have hplace := place_ofRat hq
  cases hx : ofRat q with
  | finite negative mant exp hc =>
      rw [hx] at hplace
      split at hplace
      case isTrue => exact congrArg Prod.snd hplace
      case isFalse => simp [place] at hplace
  | infinite => rw [hx] at hfinite; cases hfinite
  | undefined => rw [hx] at hfinite; cases hfinite

@[simp] theorem toRat_ofRat_zero : (ofRat 0).toRat = 0 := by decide +kernel

/-- The number nearest to a rational is at most half a unit of the last place away that any
greater rational has. -/
theorem abs_toRat_ofRat_sub_le {q r : Rat} (hq : 0 ≤ q) (h : q ≤ r) (hr : r ≤ (2 : Rat) ^ 64) :
    |(ofRat q).toRat - q| ≤ (2 : Rat) ^ lastPlace r / 2 := by
  rcases hq.lt_or_eq with hpos | rfl
  · rw [toRat_ofRat hpos (h.trans hr)]
    refine (abs_nearest_sub_le q).trans (div_le_div_of_nonneg_right ?_ (by norm_num))
    exact zpow_le_zpow_right₀ (by norm_num) (lastPlace_mono hpos h)
  · have hpow : (0 : Rat) < (2 : Rat) ^ lastPlace r := zpow_pos (by norm_num) _
    simpa using (half_pos hpow).le

theorem toRat_ofRat_mono {q r : Rat} (hq : 0 ≤ q) (h : q ≤ r) (hr : r ≤ (2 : Rat) ^ 64) :
    (ofRat q).toRat ≤ (ofRat r).toRat :=
  (le_iff_toRat (isFinite_ofRat hq (h.trans hr)) (isFinite_ofRat (hq.trans h) hr)).mp
    (ofRat_mono hq h)

theorem lastPlace_le {q : Rat} (hq : 0 < q) {k : Nat} (h : q < (2 : Rat) ^ k) :
    lastPlace q ≤ (k : Int) - 53 := by
  have hlog := Rounding.log2_lt (k := k) hq (by exact_mod_cast h)
  simp only [lastPlace]
  omega

/-- Where all places are before the point or next to it, the nearest number is at most a half
away. -/
theorem abs_toRat_ofRat_sub_le_half {q : Rat} (hq : 0 ≤ q) (h : q < (2 : Rat) ^ 53) :
    |(ofRat q).toRat - q| ≤ 1 / 2 := by
  rcases hq.lt_or_eq with hpos | rfl
  · have hplace : (2 : Rat) ^ lastPlace q ≤ 1 :=
      zpow_le_one_of_nonpos₀ (by norm_num) (lastPlace_le hpos h)
    exact (abs_toRat_ofRat_sub_le hq le_rfl (h.le.trans (by norm_num))).trans (by linarith)
  · simp

/-- A multiple of the last place is kept as it is. -/
theorem nearest_eq {q : Rat} {m : Int} (h : q = m * (2 : Rat) ^ lastPlace q) :
    nearest q = q := by
  have hpow : (0 : Rat) < (2 : Rat) ^ lastPlace q := zpow_pos (by norm_num) _
  have hm : q / (2 : Rat) ^ lastPlace q = m := by
    rw [div_eq_iff hpow.ne']
    exact h
  rw [nearest, significand, hm, Rounding.nearestEven_intCast, ← h]

/-- A whole number is a multiple of each place that is not before the point. -/
theorem exists_eq_mul_zpow (n : Int) {k : Int} (hk : k ≤ 0) :
    ∃ m : Int, (n : Rat) = m * (2 : Rat) ^ k := by
  obtain ⟨j, rfl⟩ : ∃ j : Nat, k = -(j : Int) := ⟨k.natAbs, by omega⟩
  refine ⟨n * 2 ^ j, ?_⟩
  have hpow : (2 : Rat) ^ j ≠ 0 := by positivity
  rw [zpow_neg, zpow_natCast]
  push_cast
  rw [mul_assoc, mul_inv_cancel₀ hpow, mul_one]

/-- A natural number that needs no more than all places is kept as it is. -/
theorem toRat_ofNat {n : Nat} (h : n < mantBound) : (ofNat n).toRat = n := by
  rcases Nat.eq_zero_or_pos n with rfl | hpos
  · exact toRat_ofRat_zero
  · have hn : (0 : Rat) < (n : Rat) := by exact_mod_cast hpos
    have hlt : (n : Rat) < (2 : Rat) ^ 53 := by exact_mod_cast h
    obtain ⟨m, hm⟩ := exists_eq_mul_zpow n (lastPlace_le hn hlt)
    rw [ofNat, toRat_ofRat hn (hlt.le.trans (by norm_num))]
    exact nearest_eq (by exact_mod_cast hm)

/-! ## Nearest integers -/

theorem toNatUpTo_of_isFinite {x : Binary64} (h : x.isFinite) (top : Nat) :
    x.toNatUpTo top = min top x.toRat.floor.toNat := by
  cases x with
  | finite => rfl
  | infinite => cases h
  | undefined => cases h

theorem toNatUpTo_ofNat {n top : Nat} (h : n < mantBound) (htop : n ≤ top) :
    (ofNat n).toNatUpTo top = n := by
  have hbound : (n : Rat) ≤ (2 : Rat) ^ 64 := by exact_mod_cast h.le.trans (by norm_num)
  have hfinite : (ofNat n).isFinite := isFinite_ofRat (Nat.cast_nonneg n) hbound
  rw [toNatUpTo_of_isFinite hfinite, toRat_ofNat h, ← Int.cast_natCast, Rat.floor_intCast,
    Int.toNat_natCast, Nat.min_eq_right htop]

/-- The integer next to a number without sign is found exactly, unless there are no halves next to
it. -/
theorem toNat64_round {x : Binary64} (hx : x.Unsigned) (hfinite : x.isFinite)
    (hbound : x.toRat ≤ (2 : Rat) ^ 52) :
    (x.round.toNat64 : Int) = Rounding.nearestAway x.toRat := by
  obtain ⟨n, hn⟩ : ∃ n : Nat, (n : Int) = Rounding.nearestAway x.toRat := by
    refine ⟨_, Int.toNat_of_nonneg ?_⟩
    exact_mod_cast nearestAway_toRat_nonneg hx
  have hle := Rounding.nearestAway_le hx.toRat_nonneg
  rw [← hn, Int.cast_natCast] at hle
  have hsmall : n < mantBound := by
    have hlt : (n : Rat) < (2 : Rat) ^ 53 := by linarith
    exact_mod_cast hlt
  have hround : x.round = ofNat n := by
    rw [round_eq_ofRat hx hfinite, ← hn]
    rfl
  rw [hround, ← hn, toNat64, toNatUpTo_ofNat hsmall (hsmall.le.trans (by decide))]

/-! ## Numbers more than one apart -/

/-- Where there are places after the point, the numbers nearest to two rationals more than one
apart do not lie between the same two neighbouring halves. -/
theorem half_le_ofRat {q r : Rat} (hq : 0 ≤ q) (h : q + 1 < r) (hr : r < (2 : Rat) ^ 52) {n : Int}
    (hn : n - 1 / 2 ≤ (ofRat q).toRat) : (n : Rat) + 1 / 2 ≤ (ofRat r).toRat := by
  have hpos : 0 < r := by linarith
  have hbound : r ≤ (2 : Rat) ^ 64 := hr.le.trans (by norm_num)
  have hpow : (0 : Rat) < (2 : Rat) ^ lastPlace r := zpow_pos (by norm_num) _
  by_contra hlt
  -- halves are multiples of the last place, so the lesser number is a whole place below
  obtain ⟨m, hm⟩ := exists_eq_mul_zpow (2 * n + 1) (k := lastPlace r + 1)
    (by have := lastPlace_le hpos hr; omega)
  have hhalf : (n : Rat) + 1 / 2 = m * (2 : Rat) ^ lastPlace r := by
    rw [zpow_add₀ two_ne_zero] at hm
    push_cast at hm
    linarith
  have hplace : (ofRat r).toRat ≤ n + 1 / 2 - (2 : Rat) ^ lastPlace r := by
    rw [toRat_ofRat hpos hbound, nearest, hhalf] at hlt ⊢
    have hbelow : significand r < m := by
      exact_mod_cast lt_of_mul_lt_mul_right (not_le.mp hlt) hpow.le
    have hstep : (significand r + 1 : Rat) ≤ m := by exact_mod_cast hbelow
    linarith [mul_le_mul_of_nonneg_right hstep hpow.le]
  have hlow := abs_le.mp (abs_toRat_ofRat_sub_le hq (by linarith) hbound)
  have hhigh := abs_le.mp (abs_toRat_ofRat_sub_le hpos.le le_rfl hbound)
  linarith [hlow.2, hhigh.1]

end Binary64

end Montage
