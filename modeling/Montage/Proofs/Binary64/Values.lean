import Montage.Proofs.Binary64.Accuracy

/-! # The values of sums, products and quotients

An operation on finite numbers gives the exact result rounded once, unless that is beyond all
numbers. Rounding keeps the order and turns with the sign, and it keeps what needs no more than all
places. -/

namespace Montage

namespace Rounding

theorem nearestEven_eq {q : Rat} {k : Int} (hlow : (k : Rat) - 1 / 2 < q) (hhigh : q < k + 1 / 2) :
    nearestEven q = k := by
  have hnear := abs_le.mp (abs_nearestEven_sub_le q)
  have hlt : nearestEven q < k + 1 := by
    have : (nearestEven q : Rat) < k + 1 := by linarith
    exact_mod_cast this
  have hgt : k - 1 < nearestEven q := by
    have : (k : Rat) - 1 < nearestEven q := by linarith
    exact_mod_cast this
  omega

theorem nearestEven_half (k : Int) :
    nearestEven (k + 1 / 2) = if k % 2 = 0 then k else k + 1 := by
  have hfloor : ((k : Rat) + 1 / 2).floor = k := by
    rw [add_comm, Rat.floor_add_intCast, floor_half, zero_add]
  simp only [nearestEven, hfloor, add_sub_cancel_left, lt_irrefl, if_false]

/-- The nearest integer goes along with a shift by an even number. -/
theorem nearestEven_add {k : Int} (hk : k % 2 = 0) (q : Rat) :
    nearestEven (k + q) = k + nearestEven q := by
  have hfloor : ((k : Rat) + q).floor = k + q.floor := by
    rw [add_comm, Rat.floor_add_intCast, add_comm]
  have hrest : (k : Rat) + q - ((k + q.floor : Int) : Rat) = q - q.floor := by
    push_cast
    ring
  simp only [nearestEven, hfloor, hrest]
  split_ifs <;> omega

/-- The nearest integer turns with the sign. -/
theorem nearestEven_neg (q : Rat) : nearestEven (-q) = -nearestEven q := by
  have hfloor : (q.floor : Rat) ≤ q := Rat.floor_le q
  have hceil : q < q.floor + 1 := by exact_mod_cast Rat.lt_floor_add_one q
  rcases lt_trichotomy q (q.floor + 1 / 2) with h | h | h
  · rw [nearestEven_eq (k := q.floor) (by linarith) h]
    exact nearestEven_eq (by push_cast; linarith) (by push_cast; linarith)
  · -- halfway, the even neighbour of one is the opposite of that of the other
    obtain ⟨k, rfl⟩ : ∃ k : Int, q = k + 1 / 2 := ⟨_, h⟩
    have hopposite : -((k : Rat) + 1 / 2) = ((-k - 1 : Int) : Rat) + 1 / 2 := by
      push_cast
      ring
    rw [hopposite, nearestEven_half, nearestEven_half]
    split_ifs <;> omega
  · rw [nearestEven_eq (q := q) (k := q.floor + 1) (by push_cast; linarith)
      (by push_cast; linarith)]
    exact nearestEven_eq (by push_cast; linarith) (by push_cast; linarith)

end Rounding

namespace Binary64

/-! ## The nearest value, of either sign -/

/-- The value nearest to a rational, when there is no greatest exponent. -/
def rounded (q : Rat) : Rat := if q < 0 then -nearest (-q) else nearest q

theorem rounded_of_nonneg {q : Rat} (h : 0 ≤ q) : rounded q = nearest q := if_neg (not_lt.mpr h)

theorem nearest_zero : nearest 0 = 0 := by
  have hmant : significand 0 = 0 := by
    rw [significand, zero_div]
    exact Rounding.nearestEven_intCast 0
  rw [nearest, hmant, Int.cast_zero, zero_mul]

theorem rounded_zero : rounded 0 = 0 := (rounded_of_nonneg le_rfl).trans nearest_zero

theorem rounded_neg (q : Rat) : rounded (-q) = -rounded q := by
  rcases lt_trichotomy q 0 with h | rfl | h
  · rw [rounded, if_neg (by linarith), rounded, if_pos h, neg_neg]
  · simp [rounded_zero]
  · rw [rounded, if_pos (by linarith), neg_neg, rounded_of_nonneg h.le]

theorem rounded_nonneg {q : Rat} (h : 0 ≤ q) : 0 ≤ rounded q := by
  rcases h.lt_or_eq with hpos | rfl
  · have hsignificand : (0 : Rat) ≤ significand q := by exact_mod_cast significand_nonneg hpos
    rw [rounded_of_nonneg h]
    exact mul_nonneg hsignificand (zpow_pos (by norm_num) _).le
  · exact rounded_zero.ge

theorem rounded_nonpos {q : Rat} (h : q ≤ 0) : rounded q ≤ 0 := by
  have hneg := rounded_nonneg (neg_nonneg.mpr h)
  rw [rounded_neg] at hneg
  linarith

theorem rounded_mono {q r : Rat} (h : q ≤ r) : rounded q ≤ rounded r := by
  have hup {a b : Rat} (ha : 0 < a) (hab : a ≤ b) : rounded a ≤ rounded b := by
    rw [rounded_of_nonneg ha.le, rounded_of_nonneg (ha.le.trans hab)]
    exact nearest_mono ha hab
  rcases lt_or_ge 0 q with hq | hq
  · exact hup hq h
  · rcases lt_or_ge r 0 with hr | hr
    · have hflip := hup (neg_pos.mpr hr) (neg_le_neg h)
      rw [rounded_neg, rounded_neg] at hflip
      linarith
    · exact (rounded_nonpos hq).trans (rounded_nonneg hr)

theorem abs_rounded (q : Rat) : |rounded q| = rounded |q| := by
  rcases le_total 0 q with h | h
  · rw [abs_of_nonneg h, abs_of_nonneg (rounded_nonneg h)]
  · rw [abs_of_nonpos h, abs_of_nonpos (rounded_nonpos h), rounded_neg]

/-- A positive number that needs no more than all places is kept as it is. -/
theorem nearest_mul_zpow {m e : Int} (hpos : 0 < m) (hm : m < mantBound) (he : -1074 ≤ e) :
    nearest (m * (2 : Rat) ^ e) = m * (2 : Rat) ^ e := by
  have hpow : (0 : Rat) < (2 : Rat) ^ e := zpow_pos (by norm_num) _
  have hm' : (m : Rat) < (2 : Rat) ^ (53 : Int) := by exact_mod_cast hm
  have hlog : Rounding.log2 (m * (2 : Rat) ^ e) < 53 + e := by
    refine Rounding.log2_lt (mul_pos (by exact_mod_cast hpos) hpow) ?_
    rw [zpow_add₀ two_ne_zero]
    exact mul_lt_mul_of_pos_right hm' hpow
  obtain ⟨j, hj⟩ : ∃ j : Nat, e = j + lastPlace (m * (2 : Rat) ^ e) :=
    ⟨(e - lastPlace (m * (2 : Rat) ^ e)).toNat, by simp only [lastPlace]; omega⟩
  refine nearest_eq (m := m * 2 ^ j) ?_
  calc (m : Rat) * (2 : Rat) ^ e
      = m * (2 : Rat) ^ (j + lastPlace (m * (2 : Rat) ^ e)) := by rw [← hj]
    _ = ((m * 2 ^ j : Int) : Rat) * (2 : Rat) ^ lastPlace (m * (2 : Rat) ^ e) := by
        rw [zpow_add₀ two_ne_zero, zpow_natCast]
        push_cast
        ring

/-- What needs no more than all places is kept as it is. -/
theorem rounded_mul_zpow {m e : Int} (hm : |m| ≤ mantBound) (he : -1074 ≤ e) :
    rounded (m * (2 : Rat) ^ e) = m * (2 : Rat) ^ e := by
  have hpow : (0 : Rat) < (2 : Rat) ^ e := zpow_pos (by norm_num) _
  have hup {m : Int} (hpos : 0 < m) (hm : m ≤ mantBound) :
      rounded (m * (2 : Rat) ^ e) = m * (2 : Rat) ^ e := by
    rw [rounded_of_nonneg (mul_pos (by exact_mod_cast hpos) hpow).le]
    rcases hm.lt_or_eq with hlt | rfl
    · exact nearest_mul_zpow hpos hlt he
    · -- one place more than there are, but it is a power of two
      have hhalf : ((mantBound : Int) : Rat) * (2 : Rat) ^ e =
          ((leastNormal : Int) : Rat) * (2 : Rat) ^ (e + 1) := by
        rw [zpow_add₀ two_ne_zero]
        norm_num
        ring
      rw [hhalf]
      exact nearest_mul_zpow (by decide) (by decide) (by omega)
  rcases lt_trichotomy m 0 with h | rfl | h
  · have hflip := hup (neg_pos.mpr h) ((neg_le_abs m).trans hm)
    rw [Int.cast_neg, neg_mul, rounded_neg] at hflip
    exact neg_inj.mp hflip
  · rw [Int.cast_zero, zero_mul, rounded_zero]
  · exact hup h ((le_abs_self m).trans hm)

theorem rounded_intCast {n : Int} (h : |n| ≤ mantBound) : rounded n = n := by
  simpa using rounded_mul_zpow (e := 0) h (by decide)

theorem rounded_natCast {n : Nat} (h : n ≤ mantBound) : rounded n = n := by
  exact_mod_cast rounded_intCast (n := n) (by simpa using h)

/-- Halves, quarters and the like of a whole number are kept. -/
theorem rounded_div_two_pow {n k : Nat} (h : n ≤ mantBound) (hk : k ≤ 1074) :
    rounded ((n : Rat) / 2 ^ k) = n / 2 ^ k := by
  have hkept := rounded_mul_zpow (m := n) (e := -k) (by simpa using h) (by omega)
  rwa [zpow_neg, zpow_natCast, ← div_eq_mul_inv, Int.cast_natCast] at hkept

theorem rounded_two_pow (k : Nat) : rounded (2 ^ k) = 2 ^ k := by
  simpa using rounded_mul_zpow (m := 1) (e := k) (by decide) (by omega)

theorem rounded_le_two_pow {q : Rat} {k : Nat} (h : q ≤ 2 ^ k) : rounded q ≤ 2 ^ k :=
  (rounded_mono h).trans_eq (rounded_two_pow k)

theorem one_le_rounded {q : Rat} (h : 1 ≤ q) : 1 ≤ rounded q :=
  (rounded_two_pow 0).ge.trans (rounded_mono (by rwa [pow_zero]))

theorem exists_eq_finite {x : Binary64} (hx : x.isFinite) :
    ∃ negative mant exp hc, x = .finite negative mant exp hc := by
  cases x with
  | finite negative mant exp hc => exact ⟨negative, mant, exp, hc, rfl⟩
  | infinite => cases hx
  | undefined => cases hx

/-- A finite number is a whole number of places. -/
theorem exists_toRat_eq {x : Binary64} (hx : x.isFinite) :
    ∃ m e : Int, x.toRat = m * (2 : Rat) ^ e ∧ |m| < mantBound ∧ -1074 ≤ e ∧
      (leastNormal ≤ |m| ∨ e = -1074) := by
  obtain ⟨negative, mant, exp, hc, rfl⟩ := exists_eq_finite hx
  obtain ⟨hmant, hexp, -, hfull⟩ := hc
  cases negative with
  | false => exact ⟨mant, exp, by simp [toRat], by simpa using hmant, hexp, by simpa using hfull⟩
  | true => exact ⟨-mant, exp, by simp [toRat], by simpa using hmant, hexp, by simpa using hfull⟩

/-- The last place of a number that reaches a power of two is fewer than 53 places below it. -/
theorem lt_place {m e k : Int} (hm : |m| < mantBound) (h : (2 : Rat) ^ k ≤ |m * (2 : Rat) ^ e|) :
    k - 53 < e := by
  have hpow : (0 : Rat) < (2 : Rat) ^ e := zpow_pos (by norm_num) e
  have hmant : |(m : Rat)| < (2 : Rat) ^ (53 : Int) := by
    have hcast : |(m : Rat)| < ((mantBound : Int) : Rat) := by exact_mod_cast hm
    exact hcast.trans_eq (by norm_num)
  have hlt : (2 : Rat) ^ k < (2 : Rat) ^ (53 + e) := by
    calc (2 : Rat) ^ k ≤ |(m : Rat)| * (2 : Rat) ^ e := by rwa [abs_mul, abs_of_pos hpow] at h
      _ < (2 : Rat) ^ (53 : Int) * (2 : Rat) ^ e := mul_lt_mul_of_pos_right hmant hpow
      _ = (2 : Rat) ^ (53 + e) := (zpow_add₀ two_ne_zero _ _).symm
  have := (zpow_lt_zpow_iff_right₀ (by norm_num : (1 : Rat) < 2)).mp hlt
  omega

/-- The value of a number is nearest to itself. -/
theorem rounded_toRat {x : Binary64} (hx : x.isFinite) : rounded x.toRat = x.toRat := by
  obtain ⟨m, e, hvalue, hm, he, -⟩ := exists_toRat_eq hx
  rw [hvalue]
  exact rounded_mul_zpow hm.le he

/-- How far rounding goes up to a power of two, which itself is kept. -/
theorem abs_rounded_sub_le {q : Rat} {k : Nat} (h : |q| ≤ (2 : Rat) ^ k) :
    |rounded q - q| ≤ (2 : Rat) ^ ((k : Int) - 54) := by
  have hup {q : Rat} (hq : 0 < q) (h : q ≤ (2 : Rat) ^ k) :
      |rounded q - q| ≤ (2 : Rat) ^ ((k : Int) - 54) := by
    rcases h.lt_or_eq with hlt | rfl
    · rw [rounded_of_nonneg hq.le]
      calc |nearest q - q| ≤ (2 : Rat) ^ lastPlace q / 2 := abs_nearest_sub_le q
        _ ≤ (2 : Rat) ^ ((k : Int) - 53) / 2 := by
            refine div_le_div_of_nonneg_right ?_ (by norm_num)
            exact zpow_le_zpow_right₀ (by norm_num) (lastPlace_le hq hlt)
        _ = (2 : Rat) ^ ((k : Int) - 54) := by
            rw [show (k : Int) - 53 = (k - 54) + 1 by ring, zpow_add₀ two_ne_zero, zpow_one,
              mul_div_cancel_right₀ _ two_ne_zero]
    · rw [rounded_two_pow, sub_self, abs_zero]
      exact (zpow_pos (by norm_num) _).le
  rcases lt_trichotomy q 0 with hq | rfl | hq
  · have hflip := hup (neg_pos.mpr hq) (by rwa [← abs_of_neg hq])
    rwa [rounded_neg, ← neg_add', abs_neg, add_comm, neg_add_eq_sub] at hflip
  · rw [rounded_zero, sub_zero, abs_zero]
    exact (zpow_pos (by norm_num) _).le
  · exact hup hq (by rwa [← abs_of_pos hq])

/-- From one on, the distance to one has no more places than the number. -/
theorem rounded_one_sub {x : Binary64} (hx : x.isFinite) (hlow : 1 ≤ x.toRat)
    (hhigh : x.toRat < (2 : Rat) ^ 53) : rounded (1 - x.toRat) = 1 - x.toRat := by
  obtain ⟨m, e, hvalue, hm, he, hfull⟩ := exists_toRat_eq hx
  rw [hvalue] at hlow hhigh ⊢
  have hpow : (0 : Rat) < (2 : Rat) ^ e := zpow_pos (by norm_num) _
  -- the last place is behind the point, but not far
  have hnear : 0 - 53 < e := lt_place hm (hlow.trans (le_abs_self _))
  have hpos : 0 < m := by exact_mod_cast (mul_pos_iff_of_pos_right hpow).mp (one_pos.trans_le hlow)
  rw [abs_of_pos hpos] at hm hfull
  have hplace : e ≤ 0 := by
    by_contra hlarge
    have hm' : (leastNormal : Int) ≤ m := hfull.resolve_right (by omega)
    have hm'' : (2 : Rat) ^ (52 : Int) ≤ m := by exact_mod_cast hm'
    have hbound : (2 : Rat) ^ (53 : Int) ≤ m * (2 : Rat) ^ e := by
      calc (2 : Rat) ^ (53 : Int) ≤ (2 : Rat) ^ (52 + e) :=
            zpow_le_zpow_right₀ (by norm_num) (by omega)
        _ = (2 : Rat) ^ (52 : Int) * (2 : Rat) ^ e := zpow_add₀ two_ne_zero _ _
        _ ≤ m * (2 : Rat) ^ e := mul_le_mul_of_nonneg_right hm'' hpow.le
    exact absurd hhigh (not_lt.mpr (by exact_mod_cast hbound))
  obtain ⟨j, rfl⟩ : ∃ j : Nat, e = -(j : Int) := ⟨e.natAbs, by omega⟩
  have hsplit : 1 - (m : Rat) * (2 : Rat) ^ (-(j : Int)) =
      ((2 ^ j - m : Int) : Rat) * (2 : Rat) ^ (-(j : Int)) := by
    rw [Int.cast_sub, Int.cast_pow, Int.cast_ofNat, sub_mul, zpow_neg, zpow_natCast,
      mul_inv_cancel₀ (by positivity)]
  rw [hsplit]
  refine rounded_mul_zpow ?_ he
  have hj : (2 : Int) ^ j ≤ 2 ^ 53 := pow_le_pow_right₀ (by norm_num) (by omega)
  have hj' : (0 : Int) < 2 ^ j := by positivity
  have hbound : ((mantBound : Nat) : Int) = 2 ^ 53 := by norm_num
  rw [hbound] at hm ⊢
  rw [abs_le]
  constructor <;> linarith

theorem isFinite_of_le_of_le {x low high : Binary64} (hlow : low.isFinite) (hhigh : high.isFinite)
    (h : low ≤ x) (h' : x ≤ high) : x.isFinite := by
  obtain ⟨_, _, _, _, rfl⟩ := exists_eq_finite hlow
  obtain ⟨_, _, _, _, rfl⟩ := exists_eq_finite hhigh
  rw [le_def] at h h'
  cases x with
  | finite => rfl
  | infinite negative => cases negative <;> simp [place] at h h'
  | undefined => simp [isNaN] at h

/-! ## Numbers that have a value -/

/-- The number is finite, and this is its value. -/
structure Has (x : Binary64) (v : Rat) : Prop where
  isFinite : x.isFinite
  toRat_eq : x.toRat = v

theorem has_toRat {x : Binary64} (hx : x.isFinite) : x.Has x.toRat := ⟨hx, rfl⟩

/-- A finite number of at least this value. -/
def AtLeast (low : Rat) (x : Binary64) : Prop := x.isFinite ∧ low ≤ x.toRat

/-- A finite number from one value to another. -/
def Within (low high : Rat) (x : Binary64) : Prop :=
  x.isFinite ∧ low ≤ x.toRat ∧ x.toRat ≤ high

/-- A finite number above zero. -/
def Positive (x : Binary64) : Prop := x.isFinite ∧ 0 < x.toRat

instance (low : Rat) (x : Binary64) : Decidable (x.AtLeast low) :=
  inferInstanceAs (Decidable (_ ∧ _))

instance (low high : Rat) (x : Binary64) : Decidable (x.Within low high) :=
  inferInstanceAs (Decidable (_ ∧ _))

instance (x : Binary64) : Decidable x.Positive := inferInstanceAs (Decidable (_ ∧ _))

theorem has_zero : (0 : Binary64).Has 0 := ⟨rfl, by decide +kernel⟩

theorem has_one : (1 : Binary64).Has 1 := ⟨by decide +kernel, by decide +kernel⟩

theorem has_of_place {x : Binary64} {v : Rat} (h : x.place = (0, v)) : x.Has v := by
  cases x with
  | finite => exact ⟨rfl, congrArg Prod.snd h⟩
  | infinite negative => cases negative <;> simp [place] at h
  | undefined negative => cases negative <;> simp [place] at h

theorem Has.neg {x : Binary64} {v : Rat} (h : x.Has v) : (-x).Has (-v) := by
  obtain ⟨hfinite, rfl⟩ := h
  obtain ⟨negative, mant, exp, hc, rfl⟩ := exists_eq_finite hfinite
  refine ⟨rfl, ?_⟩
  change (Binary64.neg (.finite negative mant exp hc)).toRat = _
  cases negative <;> simp [Binary64.neg, toRat]

theorem ofRatSigned_of_pos (zeroSign : Bool) {q : Rat} (hq : 0 < q) :
    ofRatSigned zeroSign q = ofRat q := by
  rw [ofRat, ofRatSigned, ofRatSigned, if_neg hq.ne', if_neg hq.ne']

theorem ofRatSigned_of_neg (zeroSign : Bool) {q : Rat} (hq : q < 0) :
    ofRatSigned zeroSign q = -ofRat (-q) := by
  have hflip : (-q).abs = q.abs := by rw [Rat.abs_neg]
  have hparts (mant : Nat) (exp : Int) : ofParts true mant exp = -ofParts false mant exp := by
    rw [ofParts, ofParts]
    split <;> rfl
  have hpos : decide (-q < 0) = false := decide_eq_false (by linarith)
  simp only [ofRat, ofRatSigned, if_neg hq.ne, if_neg (neg_ne_zero.mpr hq.ne), hflip, hpos,
    decide_eq_true hq, hparts]
  split <;> rfl

/-- The number nearest to a rational has the nearest value, unless that is too great. -/
theorem has_ofRatSigned (zeroSign : Bool) {q : Rat} (h : |rounded q| < overflow) :
    (ofRatSigned zeroSign q).Has (rounded q) := by
  have hup {q : Rat} (hq : 0 < q) (h : |rounded q| < overflow) : (ofRat q).Has (rounded q) := by
    rw [abs_of_nonneg (rounded_nonneg hq.le), rounded_of_nonneg hq.le] at h
    have hplace := place_ofRat hq
    rw [if_pos h] at hplace
    rw [rounded_of_nonneg hq.le]
    exact has_of_place hplace
  rcases lt_trichotomy q 0 with hq | rfl | hq
  · have hflip := (hup (neg_pos.mpr hq) (by rwa [rounded_neg, abs_neg])).neg
    rw [rounded_neg, neg_neg] at hflip
    rwa [ofRatSigned_of_neg zeroSign hq]
  · rw [rounded_zero]
    cases zeroSign <;> exact ⟨rfl, by simp [ofRatSigned, zero, toRat]⟩
  · rw [ofRatSigned_of_pos zeroSign hq]
    exact hup hq h

theorem abs_rounded_lt_overflow {q : Rat} (h : |q| ≤ (2 : Rat) ^ (1023 : Int)) :
    |rounded q| < overflow := by
  have hkept : rounded ((2 : Rat) ^ (1023 : Int)) = (2 : Rat) ^ (1023 : Int) := by
    simpa using rounded_mul_zpow (m := 1) (e := 1023) (by decide) (by decide)
  calc |rounded q| = rounded |q| := abs_rounded q
    _ ≤ (2 : Rat) ^ (1023 : Int) := (rounded_mono h).trans_eq hkept
    _ < overflow := zpow_lt_zpow_right₀ (by norm_num) (by norm_num)

theorem has_ofRat {q : Rat} (h : |rounded q| < overflow) : (ofRat q).Has (rounded q) :=
  has_ofRatSigned false h

theorem isFinite_ofRat_iff {q : Rat} (hq : 0 < q) :
    (ofRat q).isFinite ↔ |rounded q| < overflow := by
  refine ⟨fun h => ?_, fun h => (has_ofRat h).isFinite⟩
  obtain ⟨_, _, _, _, hfinite⟩ := exists_eq_finite h
  have hplace := place_ofRat hq
  rw [hfinite] at hplace
  by_contra hlarge
  rw [abs_of_nonneg (rounded_nonneg hq.le), rounded_of_nonneg hq.le] at hlarge
  rw [if_neg hlarge] at hplace
  cases congrArg Prod.fst hplace

/-- A natural number that needs no more than all places is kept as it is. -/
theorem has_ofNat {n : Nat} (h : n ≤ mantBound) : (ofNat n).Has n := by
  have hvalue := has_ofRat (q := n) (abs_rounded_lt_overflow ?_)
  · rwa [rounded_natCast h] at hvalue
  · rw [Nat.abs_cast]
    calc (n : Rat) ≤ (2 : Rat) ^ (53 : Int) := by exact_mod_cast h
      _ ≤ (2 : Rat) ^ (1023 : Int) := zpow_le_zpow_right₀ (by norm_num) (by norm_num)

/-- So is one that is written out. -/
theorem has_literal (n : Nat) (h : n ≤ mantBound) :
    (OfNat.ofNat n : Binary64).Has (OfNat.ofNat n) := has_ofNat h

namespace Has

variable {x y : Binary64} {v w : Rat}

theorem rounded_eq (h : x.Has v) : rounded v = v := by
  rw [← h.toRat_eq]
  exact rounded_toRat h.isFinite

theorem abs_lt_overflow (h : x.Has v) : |v| < overflow := by
  obtain ⟨hfinite, rfl⟩ := h
  obtain ⟨negative, mant, exp, hc, rfl⟩ := exists_eq_finite hfinite
  have hpow : (0 : Rat) < (2 : Rat) ^ exp := zpow_pos (by norm_num) _
  have habs : |(Binary64.finite negative mant exp hc).toRat| = (mant : Rat) * (2 : Rat) ^ exp := by
    cases negative <;> simp [toRat, abs_mul, abs_of_pos hpow]
  rw [habs, lt_overflow_iff hc.2.2.2 hc.1]
  exact hc.2.2.1

/-- A number is on the side of zero that its sign tells. -/
theorem sign (h : x.Has v) : if x.signBit then v ≤ 0 else 0 ≤ v := by
  obtain ⟨hfinite, rfl⟩ := h
  obtain ⟨negative, mant, exp, hc, rfl⟩ := exists_eq_finite hfinite
  have hmagnitude : (0 : Rat) ≤ mant * (2 : Rat) ^ exp := by positivity
  cases negative <;> simpa [signBit, toRat] using hmagnitude

/-- A great number is a multiple of a power of two, and whole from `2 ^ 52` on. -/
theorem exists_mul_two_pow (h : x.Has v) (k : Nat) (hlarge : (2 : Rat) ^ (52 + k) ≤ |v|) :
    ∃ m : Int, v = ((m * 2 ^ k : Int) : Rat) := by
  obtain ⟨m, e, hvalue, hm, -, -⟩ := exists_toRat_eq h.isFinite
  rw [h.toRat_eq] at hvalue
  have hexp : (k : Int) ≤ e := by
    rw [hvalue, ← zpow_natCast] at hlarge
    have := lt_place hm hlarge
    omega
  obtain ⟨j, rfl⟩ := Int.eq_ofNat_of_zero_le (Int.sub_nonneg.mpr hexp) |>.imp
    fun j hj => (by omega : e = (j + k : Nat))
  refine ⟨m * 2 ^ j, ?_⟩
  rw [hvalue, zpow_natCast, pow_add]
  push_cast
  ring

/-- There is a least positive number. -/
theorem le_of_pos (h : x.Has v) (hv : 0 < v) : (2 : Rat) ^ (-1074 : Int) ≤ v := by
  obtain ⟨m, e, hvalue, -, he, -⟩ := exists_toRat_eq h.isFinite
  rw [h.toRat_eq] at hvalue
  have hpow : (0 : Rat) < (2 : Rat) ^ e := zpow_pos (by norm_num) _
  have hm : (1 : Rat) ≤ m := by
    rw [hvalue] at hv
    exact_mod_cast (mul_pos_iff_of_pos_right hpow).mp hv
  calc (2 : Rat) ^ (-1074 : Int) ≤ (2 : Rat) ^ e := zpow_le_zpow_right₀ (by norm_num) he
    _ ≤ m * (2 : Rat) ^ e := le_mul_of_one_le_left hpow.le hm
    _ = v := hvalue.symm

theorem add (hx : x.Has v) (hy : y.Has w) (h : |rounded (v + w)| < overflow) :
    (x + y).Has (rounded (v + w)) := by
  obtain ⟨hx, rfl⟩ := hx
  obtain ⟨hy, rfl⟩ := hy
  obtain ⟨_, _, _, _, rfl⟩ := exists_eq_finite hx
  obtain ⟨_, _, _, _, rfl⟩ := exists_eq_finite hy
  exact has_ofRatSigned _ h

theorem sub (hx : x.Has v) (hy : y.Has w) (h : |rounded (v - w)| < overflow) :
    (x - y).Has (rounded (v - w)) := by
  rw [sub_eq_add_neg] at h ⊢
  exact hx.add hy.neg h

/-- A difference of numbers without sign is no greater than both. -/
theorem sub_of_nonneg (hx : x.Has v) (hy : y.Has w) (hv : 0 ≤ v) (hw : 0 ≤ w) :
    (x - y).Has (rounded (v - w)) := by
  refine hx.sub hy ?_
  have hbound : |v - w| ≤ max v w :=
    abs_le.mpr ⟨by linarith [le_max_right v w], by linarith [le_max_left v w]⟩
  have hkept : rounded (max v w) = max v w := by
    rcases max_cases v w with ⟨h, -⟩ | ⟨h, -⟩ <;> rw [h]
    · exact hx.rounded_eq
    · exact hy.rounded_eq
  rw [abs_rounded]
  refine (rounded_mono hbound).trans_lt (hkept.trans_lt (max_lt ?_ ?_))
  · exact (le_abs_self v).trans_lt hx.abs_lt_overflow
  · exact (le_abs_self w).trans_lt hy.abs_lt_overflow

/-- A product is rounded once; its sign only matters for a zero. -/
theorem mul_eq (hx : x.Has v) (hy : y.Has w) : ∃ sign, x * y = ofRatSigned sign (v * w) := by
  obtain ⟨hx, rfl⟩ := hx
  obtain ⟨hy, rfl⟩ := hy
  obtain ⟨_, _, _, _, rfl⟩ := exists_eq_finite hx
  obtain ⟨_, _, _, _, rfl⟩ := exists_eq_finite hy
  exact ⟨_, rfl⟩

theorem mul (hx : x.Has v) (hy : y.Has w) (h : |rounded (v * w)| < overflow) :
    (x * y).Has (rounded (v * w)) := by
  obtain ⟨sign, heq⟩ := hx.mul_eq hy
  rw [heq]
  exact has_ofRatSigned sign h

/-- A quotient is rounded once. -/
theorem div_eq (hx : x.Has v) (hy : y.Has w) (hw : w ≠ 0) :
    ∃ sign, x / y = ofRatSigned sign (v / w) := by
  obtain ⟨hx, rfl⟩ := hx
  obtain ⟨hy, rfl⟩ := hy
  obtain ⟨negative', mant', exp', hc', rfl⟩ := exists_eq_finite hx
  obtain ⟨negative, mant, exp, hc, rfl⟩ := exists_eq_finite hy
  have hnonzero : (Binary64.finite negative mant exp hc).isZero = false := by
    refine decide_eq_false fun hzero => hw ?_
    subst hzero
    simp [toRat]
  exact ⟨negative' != negative, by
    simp [HDiv.hDiv, Div.div, Binary64.div, isNaN, isInfinite, signBit, hnonzero]⟩

theorem div (hx : x.Has v) (hy : y.Has w) (hw : w ≠ 0) (h : |rounded (v / w)| < overflow) :
    (x / y).Has (rounded (v / w)) := by
  obtain ⟨sign, heq⟩ := hx.div_eq hy hw
  rw [heq]
  exact has_ofRatSigned sign h

theorem abs (h : x.Has v) : x.abs.Has |v| := by
  obtain ⟨hfinite, rfl⟩ := h
  obtain ⟨negative, mant, exp, hc, rfl⟩ := exists_eq_finite hfinite
  have hpow : (0 : Rat) < (2 : Rat) ^ exp := zpow_pos (by norm_num) _
  refine ⟨rfl, ?_⟩
  cases negative <;> simp [Binary64.abs, toRat, abs_mul, abs_of_pos hpow]

theorem le_iff (hx : x.Has v) (hy : y.Has w) : x ≤ y ↔ v ≤ w := by
  rw [le_iff_toRat hx.isFinite hy.isFinite, hx.toRat_eq, hy.toRat_eq]

theorem isNaN_eq_false (h : x.Has v) : x.isNaN = false := by
  obtain ⟨_, _, _, _, rfl⟩ := exists_eq_finite h.isFinite
  rfl

theorem lt_iff (hx : x.Has v) (hy : y.Has w) : x < y ↔ v < w := by
  rw [← not_le, ← hy.le_iff hx]
  exact ⟨fun h hle => not_lt_of_le hle h, Binary64.lt_of_not_le hy.isNaN_eq_false hx.isNaN_eq_false⟩

/-- Clamping changes nothing of a number between the bounds. -/
theorem clamp?_eq {z : Binary64} {u : Rat} (hy : y.Has w) (hx : x.Has v) (hz : z.Has u)
    (hlow : v ≤ w) (hhigh : w ≤ u) : y.clamp? x z = some y := by
  rw [clamp?, if_pos ((hx.le_iff hz).mpr (hlow.trans hhigh)),
    if_neg fun hlt => absurd ((hy.lt_iff hx).mp hlt) (not_lt.mpr hlow),
    if_neg fun hlt => absurd ((hz.lt_iff hy).mp hlt) (not_lt.mpr hhigh)]

theorem maximum (hx : x.Has v) (hy : y.Has w) : (x.maximum y).Has (max v w) := by
  rw [Binary64.maximum, hx.isNaN_eq_false, hy.isNaN_eq_false, if_neg Bool.false_ne_true,
    if_neg Bool.false_ne_true]
  split
  case isTrue h => rwa [max_eq_right ((hx.lt_iff hy).mp h).le]
  case isFalse h => rwa [max_eq_left (not_lt.mp fun hlt => h ((hx.lt_iff hy).mpr hlt))]

/-- Twice a number, where it is below another, is below it by one part in `2 ^ 53` or more. -/
theorem two_mul_le_of_two_mul_lt (hx : x.Has v) (hy : y.Has w) (hw : 0 < w) (h : 2 * v < w) :
    2 * v ≤ w * (9007199254740991 / 9007199254740992) := by
  obtain ⟨m, e, hm_eq, hm, -, hfull⟩ := exists_toRat_eq hy.isFinite
  obtain ⟨n, f, hn_eq, hn, hf, -⟩ := exists_toRat_eq hx.isFinite
  rw [hy.toRat_eq] at hm_eq
  rw [hx.toRat_eq] at hn_eq
  have hpow : (0 : Rat) < (2 : Rat) ^ e := zpow_pos (by norm_num) e
  have hpos : 0 < m := by
    rw [hm_eq] at hw
    exact_mod_cast (mul_pos_iff_of_pos_right hpow).mp hw
  rw [abs_of_pos hpos] at hm hfull
  have hdouble : 2 * v = n * (2 : Rat) ^ (f + 1) := by
    rw [hn_eq, zpow_add_one₀ two_ne_zero]
    ring
  rcases le_or_gt e (f + 1) with hle | hgt
  · -- both are whole numbers of the last places of the greater one
    have hm' : (m : Rat) ≤ 9007199254740992 := by exact_mod_cast hm.le
    obtain ⟨j, hj⟩ : ∃ j : Nat, f + 1 = j + e := ⟨(f + 1 - e).toNat, by omega⟩
    have hshift : 2 * v = ((n * 2 ^ j : Int) : Rat) * (2 : Rat) ^ e := by
      rw [hdouble, hj, zpow_add₀ two_ne_zero, zpow_natCast]
      push_cast
      ring
    rw [hshift, hm_eq] at h
    have hstep : n * 2 ^ j ≤ m - 1 := by
      have : n * 2 ^ j < m := by exact_mod_cast lt_of_mul_lt_mul_right h hpow.le
      omega
    have hstep' : ((n * 2 ^ j : Int) : Rat) ≤ m - 1 := by exact_mod_cast hstep
    rw [hshift, hm_eq, mul_right_comm]
    exact mul_le_mul_of_nonneg_right (by linarith) hpow.le
  · -- the greater one has all its places, and they lie higher
    have hn' : (n : Rat) ≤ 9007199254740991 := by
      have : n < mantBound := (le_abs_self n).trans_lt hn
      have : n ≤ 9007199254740991 := by norm_num at this; omega
      exact_mod_cast this
    have hm' : (4503599627370496 : Rat) ≤ m := by
      have : (leastNormal : Int) ≤ m := hfull.resolve_right (by omega)
      exact_mod_cast this
    have hpow' : (2 : Rat) ^ (f + 1) ≤ (2 : Rat) ^ (e - 1) :=
      zpow_le_zpow_right₀ (by norm_num) (by omega)
    calc 2 * v = n * (2 : Rat) ^ (f + 1) := hdouble
      _ ≤ 9007199254740991 * (2 : Rat) ^ (e - 1) := by gcongr
      _ = 4503599627370496 * (9007199254740991 / 9007199254740992) * (2 : Rat) ^ e := by
          rw [zpow_sub_one₀ two_ne_zero]
          ring
      _ ≤ m * (9007199254740991 / 9007199254740992) * (2 : Rat) ^ e := by gcongr
      _ = w * (9007199254740991 / 9007199254740992) := by rw [hm_eq, mul_right_comm]

/-- A quotient below a half is not rounded up to a half: twice of it is no greater than the number
before one. -/
theorem rounded_div_lt_half (hx : x.Has v) (hy : y.Has w) (hw : 0 < w) (h : v / w < 1 / 2) :
    rounded (v / w) < 1 / 2 := by
  have hlt : 2 * v < w := by
    rw [div_lt_iff₀ hw] at h
    linarith
  have hgap := hx.two_mul_le_of_two_mul_lt hy hw hlt
  -- the greatest number below a half
  have hbelow : v / w ≤ ((9007199254740991 : Int) : Rat) * (2 : Rat) ^ (-54 : Int) := by
    rw [div_le_iff₀ hw]
    norm_num
    linarith
  calc rounded (v / w) ≤ rounded (((9007199254740991 : Int) : Rat) * (2 : Rat) ^ (-54 : Int)) :=
        rounded_mono hbelow
    _ = ((9007199254740991 : Int) : Rat) * (2 : Rat) ^ (-54 : Int) :=
        rounded_mul_zpow (by decide) (by decide)
    _ < 1 / 2 := by norm_num

end Has

end Binary64

end Montage
