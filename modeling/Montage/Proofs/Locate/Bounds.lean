import Mathlib.Tactic.IntervalCases
import Montage.Locate.Heuristic
import Montage.Proofs.Binary64.Bounds

/-! # Regions inside the picture

Each tier finds the centre of a region by a rounded computation of its own. The centres lie inside
the picture all the same: what bounds the exact result is a binary64 number, and rounding does not
go past one. -/

namespace Montage

/-! ## Inside the picture -/

/-- A region with its centre inside a picture of some size, edges included, and a confidence from
zero to one. -/
structure Region.InFrame (width height : Nat) (r : Region) : Prop where
  centerX : r.centerX.Within 0 width
  centerY : r.centerY.Within 0 height
  confidence : r.confidence.Within 0 1

theorem Region.inFrame_evenlySpaced {width height count : Nat} (hwidth : width ≤ Binary64.top32)
    (hheight : height ≤ Binary64.top32) (hcount : count ≤ 2 ^ 52) :
    ∀ r ∈ evenlySpaced width height count, r.InFrame width height := by
  intro r hr
  obtain ⟨i, hi, rfl⟩ := List.mem_map.mp hr
  rw [List.mem_range] at hi
  have hwhole : 2 * max count 1 ≤ Binary64.mantBound := by
    norm_num
    omega
  exact ⟨Binary64.within_fraction (by omega) hwhole (Binary64.le_mantBound_of_le_top32 hwidth),
    Binary64.within_half (Binary64.le_mantBound_of_le_top32 hheight),
    Binary64.has_zero.within le_rfl zero_le_one⟩

/-! ## The brightness heuristic -/

namespace Heuristic

open Binary64 (rounded ofNat)

/-- A sum that has become so great that nothing which is added moves it past its bound: it neither
falls nor leaves out any of the numbers. -/
theorem foldl_add_spec (least most : Rat) (hmost : rounded (most + least) = most)
    (hsmall : most ≤ 2 ^ 200) {numbers : List Binary64} (h : ∀ x ∈ numbers, x.Within 0 least)
    {start : Binary64} (hstart : start.Within 0 most) :
    (numbers.foldl (· + ·) start).Within start.toRat most ∧
      ∀ x ∈ numbers, x.toRat ≤ (numbers.foldl (· + ·) start).toRat := by
  induction numbers generalizing start with
  | nil => exact ⟨⟨hstart.1, le_rfl, hstart.2.2⟩, by simp⟩
  | cons x numbers ih =>
      obtain ⟨hx, hrest⟩ := List.forall_mem_cons.mp h
      obtain ⟨hfinite, hzero, hle⟩ := hstart
      obtain ⟨hfinite', hzero', hle'⟩ := hx
      have hsum_le : rounded (start.toRat + x.toRat) ≤ most :=
        (Binary64.rounded_mono (add_le_add hle hle')).trans_eq hmost
      have hkept : start.toRat ≤ rounded (start.toRat + x.toRat) :=
        (Binary64.rounded_toRat hfinite).ge.trans (Binary64.rounded_mono (by linarith))
      have hadded : x.toRat ≤ rounded (start.toRat + x.toRat) :=
        (Binary64.rounded_toRat hfinite').ge.trans (Binary64.rounded_mono (by linarith))
      have hsum := (Binary64.has_toRat hfinite).add (Binary64.has_toRat hfinite')
        (Binary64.abs_lt_overflow_of_le (hzero.trans hkept) (hsum_le.trans hsmall))
      obtain ⟨⟨hfinite'', hlow, hhigh⟩, hall⟩ := ih hrest (hsum.within (hzero.trans hkept) hsum_le)
      rw [hsum.toRat_eq] at hlow
      exact ⟨⟨hfinite'', hkept.trans hlow, hhigh⟩,
        List.forall_mem_cons.mpr ⟨hadded.trans hlow, hall⟩⟩

/-- The greatest sum of numbers up to `2 ^ 16`. -/
theorem total_within {numbers : List Binary64} (h : ∀ x ∈ numbers, x.Within 0 (2 ^ 16)) :
    (total numbers).Within 0 (2 ^ 70) := by
  have hsum := (foldl_add_spec (2 ^ 16) (2 ^ 70) (by decide +kernel) (by norm_num) h
    (Binary64.has_zero.within le_rfl (by norm_num))).1
  rwa [Binary64.has_zero.toRat_eq] at hsum

/-- A sum divided by a count is no greater than the bound of the sum. -/
theorem div_count_within {sum : Binary64} {count : Nat} (hsum : sum.Within 0 (2 ^ 70))
    (hcount : 0 < count) (hcount_le : count ≤ 2 ^ 64) :
    (sum / ofNat count).Within 0 (2 ^ 70) := by
  obtain ⟨hfinite, hzero, hle⟩ := hsum
  have hone : 1 ≤ rounded (count : Rat) := Binary64.one_le_rounded (by exact_mod_cast hcount)
  have hle' : rounded (count : Rat) ≤ 2 ^ 64 :=
    Binary64.rounded_le_two_pow (by exact_mod_cast hcount_le)
  have hvalue : (ofNat count).Has (rounded count) := Binary64.has_ofRat
    (Binary64.abs_lt_overflow_of_le (by linarith) (hle'.trans (by norm_num)))
  exact (Binary64.has_toRat hfinite).div_within hvalue (by linarith)
    (div_nonneg hzero (zero_le_one.trans hone))
    (Binary64.rounded_le_two_pow ((div_le_self hzero hone).trans hle)) (by norm_num)

/-- Brightness values are bytes, and so is their variance bounded. -/
theorem variance_within {values : List Nat} (h : ∀ v ∈ values, v < 256)
    (hcount : values.length ≤ 2 ^ 64) : (variance values).Within 0 (2 ^ 70) := by
  rw [variance]
  split
  case isTrue => exact Binary64.has_zero.within le_rfl (by norm_num)
  case isFalse hne =>
    have hpos : 0 < values.length := List.length_pos_iff.mpr hne
    have hvalue (v : Nat) (hv : v < 256) : (ofNat v).Has v ∧ (v : Rat) ≤ 255 :=
      ⟨Binary64.has_ofNat (by norm_num; omega), by exact_mod_cast Nat.le_of_lt_succ hv⟩
    have hmean : (total (values.map ofNat) / ofNat values.length).Within 0 (2 ^ 70) := by
      refine div_count_within (total_within ?_) hpos hcount
      intro x hx
      obtain ⟨v, hv, rfl⟩ := List.mem_map.mp hx
      obtain ⟨hhas, hle⟩ := hvalue v (h v hv)
      exact hhas.within (Nat.cast_nonneg v) (by linarith)
    have hsquare : (total (values.map fun v => ofNat v * ofNat v) / ofNat values.length).Within 0
        (2 ^ 70) := by
      refine div_count_within (total_within ?_) hpos hcount
      intro x hx
      obtain ⟨v, hv, rfl⟩ := List.mem_map.mp hx
      obtain ⟨hhas, hle⟩ := hvalue v (h v hv)
      have hnonneg : (0 : Rat) ≤ v := Nat.cast_nonneg v
      have hproduct : (v : Rat) * v ≤ 2 ^ 16 :=
        (mul_le_mul hle hle hnonneg (by norm_num)).trans (by norm_num)
      exact hhas.mul_within hhas (mul_nonneg hnonneg hnonneg)
        (Binary64.rounded_le_two_pow hproduct) (by norm_num)
    obtain ⟨hmean_finite, hmean_low, hmean_high⟩ := hmean
    obtain ⟨hsquare_finite, hsquare_low, hsquare_high⟩ := hsquare
    have hmean := Binary64.has_toRat hmean_finite
    have hproduct := (mul_le_mul hmean_high hmean_high hmean_low (by norm_num)).trans_eq
      (by norm_num : (2 : Rat) ^ 70 * 2 ^ 70 = 2 ^ 140)
    obtain ⟨hfinite, hlow, -⟩ := hmean.mul_within hmean (mul_nonneg hmean_low hmean_low)
      (Binary64.rounded_le_two_pow hproduct) (by norm_num)
    have hdifference := (Binary64.has_toRat hsquare_finite).sub_of_nonneg
      (Binary64.has_toRat hfinite) hsquare_low hlow
    exact (hdifference.maximum Binary64.has_zero).within (le_max_right _ _)
      (max_le (Binary64.rounded_le_two_pow (by linarith)) (by norm_num))

/-! ### The pixels of a picture -/

theorem length_sampled_le (size : Nat) {stride : Nat} (h : 0 < stride) :
    (sampled size stride).length ≤ size := by
  rw [sampled, List.length_map, List.length_range]
  obtain ⟨a, rfl⟩ := Nat.exists_eq_add_of_lt h
  cases size with
  | zero => rw [Nat.div_eq_of_lt (by omega)]
  | succ b =>
      refine Nat.div_le_of_le_mul ?_
      have hproduct : (0 + a + 1) * (b + 1) = a * b + (a + b + 1) := by ring
      omega

theorem samples_spec (p : Picture) (columns column : Nat) {stride : Nat} (h : 0 < stride) :
    (samples p columns stride column).length ≤ p.height * p.width ∧
      ∀ v ∈ samples p columns stride column, v < 256 := by
  constructor
  · rw [samples, List.length_flatMap]
    calc _ ≤ ((sampled p.height stride).map fun _ => p.width).sum := by
          refine List.sum_le_sum fun y _ => ?_
          rw [List.length_map]
          exact (List.length_filter_le _ _).trans (length_sampled_le p.width h)
      _ = (sampled p.height stride).length * p.width := by simp
      _ ≤ p.height * p.width := Nat.mul_le_mul_right _ (length_sampled_le p.height h)
  · intro v hv
    obtain ⟨y, -, hv⟩ := List.mem_flatMap.mp hv
    obtain ⟨x, -, rfl⟩ := List.mem_map.mp hv
    exact (p.luma x y).toNat_lt

theorem columnVariances_within {p : Picture} (hwidth : p.width ≤ Binary64.top32)
    (hheight : p.height ≤ Binary64.top32) (columns stride : Nat) :
    ∀ v ∈ columnVariances p columns stride, v.Within 0 (2 ^ 70) := by
  intro v hv
  obtain ⟨c, -, rfl⟩ := List.mem_map.mp hv
  obtain ⟨hlength, hbytes⟩ :=
    samples_spec p (max columns 1) c (lt_max_of_lt_right one_pos : 0 < max stride 1)
  refine variance_within hbytes (hlength.trans ?_)
  exact (Nat.mul_le_mul hheight hwidth).trans (by decide)

/-! ### The columns that are picked -/

theorem lt_of_mem_pickColumns {variances : List Binary64} {count c : Nat}
    (h : c ∈ pickColumns variances count) : c < variances.length := by
  obtain ⟨⟨v, i⟩, hv, rfl⟩ := List.mem_map.mp (List.mem_mergeSort.mp h)
  have hlisted := List.mem_mergeSort.mp (List.mem_of_mem_take hv)
  exact (List.getElem?_eq_some_iff.mp (List.mk_mem_zipIdx_iff_getElem?.mp hlisted)).1

theorem length_pickColumns (variances : List Binary64) (count : Nat) :
    (pickColumns variances count).length = min count variances.length := by
  rw [pickColumns, List.length_mergeSort, List.length_map, List.length_take, List.length_mergeSort,
    List.length_zipIdx]

/-- The middle of a column. -/
theorem within_column {width c : Nat} (hwidth : width ≤ Binary64.top32) (hc : c < columnCount) :
    (ofNat width / ofNat columnCount * (ofNat c + 0.5)).Within 0 width := by
  have hsize := Binary64.le_mantBound_of_le_top32 hwidth
  have hsize_le : (width : Rat) ≤ 2 ^ 53 := by exact_mod_cast hsize
  have hnonneg : (0 : Rat) ≤ width := Nat.cast_nonneg width
  have hcolumns : (ofNat columnCount).Has 3 := Binary64.has_literal 3 (by decide)
  have hmiddle : ∃ m : Rat, (ofNat c + 0.5).Has m ∧ 0 ≤ m ∧ m ≤ 5 / 2 := by
    refine ⟨_, Binary64.has_toRat ?_, ?_, ?_⟩ <;> rw [columnCount] at hc <;> interval_cases c <;>
      decide +kernel
  obtain ⟨m, hm, hm_low, hm_high⟩ := hmiddle
  -- a third of the width is rounded to no more than three eighths of it
  have hthird : rounded ((width : Rat) / 3) ≤ 3 / 8 * width := by
    have hkept : rounded (3 / 8 * (width : Rat)) = 3 / 8 * width := by
      have hplaces : 3 * width ≤ Binary64.mantBound := by
        rw [Binary64.top32] at hwidth
        exact (by omega : 3 * width ≤ 2 ^ 34).trans (by decide)
      have heq : 3 / 8 * (width : Rat) = ((3 * width : Nat) : Rat) / 2 ^ 3 := by
        push_cast
        ring
      rw [heq, Binary64.rounded_div_two_pow hplaces (by decide)]
    exact (Binary64.rounded_mono (by linarith)).trans_eq hkept
  have hthird_low := Binary64.rounded_nonneg (div_nonneg hnonneg (by norm_num : (0 : Rat) ≤ 3))
  have hcolumn := (Binary64.has_ofNat hsize).div hcolumns (by norm_num)
    (Binary64.abs_lt_overflow_of_le hthird_low (by linarith))
  have hproduct : rounded ((width : Rat) / 3) * m ≤ width := by
    calc rounded ((width : Rat) / 3) * m ≤ 3 / 8 * width * (5 / 2) :=
          mul_le_mul hthird hm_high hm_low (by positivity)
      _ ≤ width := by linarith
  exact hcolumn.mul_within hm (mul_nonneg hthird_low hm_low)
    (Binary64.rounded_le_natCast hsize hproduct) (by linarith)

/-- What the heuristic answers: a region for each column that is picked, inside the picture. -/
theorem regions?_spec {p : Picture} (hpwidth : p.width ≤ Binary64.top32)
    (hpheight : p.height ≤ Binary64.top32) {width height count : Nat}
    (hwidth : width ≤ Binary64.top32) (hheight : height ≤ Binary64.top32) {regions : List Region}
    (h : regions? p width height count = some regions) :
    regions.length = min count columnCount ∧ ∀ r ∈ regions, r.InFrame width height := by
  have hall := columnVariances_within hpwidth hpheight columnCount sampleStride
  have hlength : (columnVariances p columnCount sampleStride).length = columnCount := by
    rw [columnVariances, List.length_map, List.length_range, columnCount]
    rfl
  rw [regions?] at h
  generalize columnVariances p columnCount sampleStride = variances at hall hlength h
  obtain ⟨⟨hfinite, -, -⟩, hleast⟩ := foldl_add_spec (2 ^ 70) (2 ^ 130) (by decide +kernel)
    (by norm_num) hall (Binary64.has_zero.within le_rfl (by norm_num))
  change (total variances).isFinite at hfinite
  change ∀ x ∈ variances, x.toRat ≤ (total variances).toRat at hleast
  dsimp only at h
  split at h
  case isTrue => cases h
  case isFalse hbusy =>
    cases h
    refine ⟨by rw [List.length_map, length_pickColumns, hlength], fun r hr => ?_⟩
    obtain ⟨c, hc, rfl⟩ := List.mem_map.mp hr
    have hcolumn := lt_of_mem_pickColumns hc
    have hvariance := List.getElem_mem hcolumn
    obtain ⟨hfinite', hzero, -⟩ := hall _ hvariance
    have hleastTotal : leastTotal.Has leastTotal.toRat := ⟨by decide +kernel, rfl⟩
    have hsum := Binary64.has_toRat hfinite
    have hpos : 0 < (total variances).toRat := by
      have hle := not_lt.mp fun hlt => hbusy ((hsum.lt_iff hleastTotal).mpr hlt)
      exact (by decide +kernel : 0 < leastTotal.toRat).trans_le hle
    refine ⟨within_column hwidth (hlength ▸ hcolumn),
      Binary64.within_half (Binary64.le_mantBound_of_le_top32 hheight), ?_⟩
    dsimp only
    rw [List.getElem?_eq_getElem hcolumn, Option.getD_some]
    have hshare := (div_le_one hpos).mpr (hleast _ hvariance)
    have hone := Binary64.rounded_le_natCast (n := 1) (by decide) (by exact_mod_cast hshare)
    exact (Binary64.has_toRat hfinite').div_within hsum hpos.ne' (div_nonneg hzero hpos.le)
      (by exact_mod_cast hone) (by norm_num)

end Heuristic

end Montage
