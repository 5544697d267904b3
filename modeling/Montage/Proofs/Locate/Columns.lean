import Montage.Proofs.Lists
import Montage.Proofs.Locate.Bounds

/-! # Columns of a picture

Each pixel that is looked at belongs to one column. A column without any contrast has variance zero,
exactly: its sums are whole numbers that need no rounding, and the quotients give the brightness
back. So a picture of such columns is blank.

The columns of greatest variance are picked, in the total order of the variances and the left one of
equal ones first; they are returned from left to right. -/

namespace Montage.Heuristic

open Binary64 (ofNat mantBound)

/-! ## Pixels -/

/-- The pixels that are looked at, row by row. -/
def pixels (p : Picture) (stride : Nat) : List (Nat × Nat) :=
  (sampled p.height stride).flatMap fun y => (sampled p.width stride).map fun x => (x, y)

/-- The pixels of a column. -/
def columnPixels (p : Picture) (columns stride column : Nat) : List (Nat × Nat) :=
  (pixels p stride).filter fun pixel => columnOf p.width columns pixel.1 = column

/-- The brightness of a pixel. -/
def brightness (p : Picture) (pixel : Nat × Nat) : Nat := (p.luma pixel.1 pixel.2).toNat

theorem mem_sampled {size stride n : Nat} (h : 0 < stride) :
    n ∈ sampled size stride ↔ n < size ∧ stride ∣ n := by
  have hcount (i : Nat) : i < (size + stride - 1) / stride ↔ i * stride < size := by
    rw [Nat.lt_div_iff_mul_lt h]
    omega
  simp only [sampled, List.mem_map, List.mem_range, hcount]
  constructor
  · rintro ⟨i, hi, rfl⟩
    exact ⟨hi, Nat.dvd_mul_left stride i⟩
  · rintro ⟨hn, i, rfl⟩
    exact ⟨i, by rwa [Nat.mul_comm] at hn, Nat.mul_comm i stride⟩

/-- Every `stride`-th pixel is looked at, along both axes. -/
theorem mem_pixels {p : Picture} {stride x y : Nat} (h : 0 < stride) :
    (x, y) ∈ pixels p stride ↔ (x < p.width ∧ stride ∣ x) ∧ y < p.height ∧ stride ∣ y := by
  simp only [pixels, List.mem_flatMap, List.mem_map, mem_sampled h, Prod.mk.injEq]
  constructor
  · rintro ⟨_, hy, _, hx, rfl, rfl⟩
    exact ⟨hx, hy⟩
  · rintro ⟨hx, hy⟩
    exact ⟨y, hy, x, hx, rfl, rfl⟩

theorem nodup_pixels (p : Picture) {stride : Nat} (h : 0 < stride) : (pixels p stride).Nodup := by
  have hsampled (size : Nat) : (sampled size stride).Nodup := by
    apply List.Nodup.map _ List.nodup_range
    exact fun i j hij => Nat.eq_of_mul_eq_mul_right h hij
  apply List.nodup_flatMap.mpr
  constructor
  · intro y _
    apply List.Nodup.map _ (hsampled p.width)
    exact fun x x' hx => congrArg Prod.fst hx
  · apply (hsampled p.height).imp
    intro y y' hne pixel hy hy'
    obtain ⟨x, -, rfl⟩ := List.mem_map.mp hy
    obtain ⟨x', -, heq⟩ := List.mem_map.mp hy'
    exact hne (congrArg Prod.snd heq).symm

theorem samples_eq (p : Picture) (columns stride column : Nat) :
    samples p columns stride column =
      (columnPixels p columns stride column).map (brightness p) := by
  simp only [samples, columnPixels, pixels, List.filter_flatMap, List.map_flatMap, List.filter_map,
    List.map_map, Function.comp_def, brightness]

theorem columnOf_lt {columns : Nat} (h : 0 < columns) (width x : Nat) :
    columnOf width columns x < columns := by
  rw [columnOf]
  omega

theorem columnOf_mono (width columns : Nat) {x x' : Nat} (h : x ≤ x') :
    columnOf width columns x ≤ columnOf width columns x' := by
  apply min_le_min_right
  apply Nat.div_le_div_right
  exact Nat.mul_le_mul_right columns h

/-- The columns share the pixels among them. -/
theorem perm_columnPixels (p : Picture) {columns : Nat} (h : 0 < columns) (stride : Nat) :
    ((List.range columns).flatMap (columnPixels p columns stride)).Perm (pixels p stride) := by
  have hparts := perm_flatMap_filter (fun pixel => columnOf p.width columns pixel.1)
    (pixels p stride) columns
  have hall : (pixels p stride).filter (fun pixel => columnOf p.width columns pixel.1 < columns) =
      pixels p stride := by
    apply List.filter_eq_self.mpr
    intro pixel _
    exact decide_eq_true (columnOf_lt h p.width pixel.1)
  rwa [hall] at hparts

/-! ## Variances -/

theorem foldl_add_ofNat {values : List Nat} {start : Nat} (h : start + values.sum ≤ mantBound) :
    (values.map ofNat).foldl (· + ·) (ofNat start) = ofNat (start + values.sum) := by
  induction values generalizing start with
  | nil => simp
  | cons v values ih =>
      rw [List.sum_cons] at h
      rw [List.map_cons, List.foldl_cons, Binary64.ofNat_add (by omega), ih (by omega),
        List.sum_cons, Nat.add_assoc]

theorem total_ofNat {values : List Nat} (h : values.sum ≤ mantBound) :
    total (values.map ofNat) = ofNat values.sum := by
  have hsum := @foldl_add_ofNat values 0 (by omega)
  rwa [Nat.zero_add] at hsum

/-- Without contrast there is no variance. -/
theorem variance_replicate {n v : Nat} (hn : n ≤ Binary64.top32) (hv : v < 256) :
    variance (List.replicate n v) = 0 := by
  rcases Nat.eq_zero_or_pos n with rfl | hpos
  · rfl
  have hplaces : Binary64.top32 * 65536 ≤ mantBound := by decide
  have hsquare : v * v ≤ 65536 := Nat.mul_le_mul (by omega : v ≤ 256) (by omega : v ≤ 256)
  have hsquares : v * v * n ≤ mantBound := by
    calc v * v * n ≤ 65536 * Binary64.top32 := Nat.mul_le_mul hsquare hn
      _ ≤ mantBound := by rwa [Nat.mul_comm]
  have hsum : v * n ≤ mantBound := by
    calc v * n ≤ 65536 * Binary64.top32 := Nat.mul_le_mul (by omega) hn
      _ ≤ mantBound := by rwa [Nat.mul_comm]
  have hcount : n ≤ mantBound := Binary64.le_mantBound_of_le_top32 hn
  have hbrightness : v ≤ mantBound := by omega
  have hmean : total ((List.replicate n v).map ofNat) / ofNat n = ofNat v := by
    rw [total_ofNat (by simpa [Nat.mul_comm] using hsum), List.sum_replicate_nat,
      Nat.mul_comm, Binary64.ofNat_mul_div hsum hcount hpos]
  have hmeanSquare : total ((List.replicate n v).map fun v => ofNat v * ofNat v) / ofNat n =
      ofNat (v * v) := by
    have hmap : (List.replicate n v).map (fun v => ofNat v * ofNat v) =
        (List.replicate n (v * v)).map ofNat := by
      rw [List.map_replicate, List.map_replicate, Binary64.ofNat_mul hbrightness hbrightness]
    rw [hmap, total_ofNat (by simpa [Nat.mul_comm] using hsquares), List.sum_replicate_nat,
      Nat.mul_comm, Binary64.ofNat_mul_div hsquares hcount hpos]
  have hne : List.replicate n v ≠ [] := by simpa using hpos.ne'
  rw [variance, if_neg hne]
  simp only [List.length_replicate]
  rw [hmean, hmeanSquare, Binary64.ofNat_mul hbrightness hbrightness,
    Binary64.ofNat_sub_self (by omega)]
  decide +kernel

/-- A column without contrast: all of its pixels are equally bright. -/
def Flat (p : Picture) (columns stride column : Nat) : Prop :=
  ∀ pixel ∈ columnPixels p columns stride column,
    ∀ other ∈ columnPixels p columns stride column, brightness p pixel = brightness p other

/-- The variance of a column is that of its pixels; there are fewer than `2 ^ 32` of them. -/
theorem variance_of_flat {p : Picture} {columns stride column : Nat}
    (hcount : (pixels p stride).length ≤ Binary64.top32) (h : Flat p columns stride column) :
    variance (samples p columns stride column) = 0 := by
  have hlength : (columnPixels p columns stride column).length ≤ Binary64.top32 :=
    (List.length_filter_le _ _).trans hcount
  rw [samples_eq]
  cases hpixels : columnPixels p columns stride column with
  | nil => rfl
  | cons pixel rest =>
      rw [hpixels] at hlength
      rw [Flat, hpixels] at h
      have hall : (pixel :: rest).map (brightness p) =
          List.replicate (pixel :: rest).length (brightness p pixel) := by
        rw [List.eq_replicate_iff, List.length_map]
        refine ⟨rfl, fun v hv => ?_⟩
        obtain ⟨other, hother, rfl⟩ := List.mem_map.mp hv
        exact h other hother pixel List.mem_cons_self
      rw [hall]
      exact variance_replicate hlength (UInt8.toNat_lt _)

instance (p : Picture) (columns stride column : Nat) : Decidable (Flat p columns stride column) :=
  List.decidableBAll _ _

/-- What is found out about the columns of a picture. -/
structure Measured (p : Picture) (columns stride : Nat) (variances : List Binary64) : Prop where
  /-- Every pixel is looked at once, and belongs to one column. -/
  once : (pixels p stride).Nodup
  shared : ((List.range columns).flatMap (columnPixels p columns stride)).Perm (pixels p stride)
  /-- Pixels farther right belong to no column farther left. -/
  ordered : ∀ pixel ∈ pixels p stride, ∀ other ∈ pixels p stride, pixel.1 ≤ other.1 →
    columnOf p.width columns pixel.1 ≤ columnOf p.width columns other.1
  /-- The products by which columns are found have no more than 64 bits. -/
  fits : ∀ pixel ∈ pixels p stride, pixel.1 * columns ≤ Binary64.top64
  /-- There is a variance for each column, that of its pixels. -/
  variances_eq : variances = (List.range columns).map fun column =>
    variance ((columnPixels p columns stride column).map (brightness p))
  nonneg : ∀ v ∈ variances, v.AtLeast 0
  flat : ∀ column < columns, Flat p columns stride column → variances[column]? = some 0

/-- The columns of a picture with fewer than `2 ^ 32` pixels that are looked at, and of such a width
and so many columns. -/
theorem measured_columnVariances {p : Picture} {columns stride : Nat}
    (hwidth : p.width ≤ Binary64.top32) (hcolumns : columns ≤ Binary64.top32)
    (hcount : (pixels p (max stride 1)).length ≤ Binary64.top32) :
    Measured p (max columns 1) (max stride 1) (columnVariances p columns stride) := by
  have hcolumns' : max columns 1 ≤ Binary64.top32 := max_le hcolumns (by decide)
  have hvariances : columnVariances p columns stride =
      (List.range (max columns 1)).map fun column =>
        variance ((columnPixels p (max columns 1) (max stride 1) column).map (brightness p)) := by
    simp only [columnVariances, samples_eq]
  constructor
  case once => exact nodup_pixels p (by omega)
  case shared => exact perm_columnPixels p (by omega) (max stride 1)
  case ordered => exact fun _ _ _ _ hle => columnOf_mono p.width (max columns 1) hle
  case fits =>
    intro pixel hpixel
    obtain ⟨⟨hx, -⟩, -⟩ := (mem_pixels (by omega)).mp hpixel
    calc pixel.1 * max columns 1 ≤ Binary64.top32 * Binary64.top32 :=
          Nat.mul_le_mul (hx.le.trans hwidth) hcolumns'
      _ ≤ Binary64.top64 := by decide
  case variances_eq => exact hvariances
  case nonneg =>
    intro v hv
    rw [hvariances] at hv
    obtain ⟨column, -, rfl⟩ := List.mem_map.mp hv
    have hlength : (columnPixels p (max columns 1) (max stride 1) column).length ≤ 2 ^ 64 :=
      ((List.length_filter_le _ _).trans hcount).trans (by decide)
    have hbytes : ∀ v ∈ (columnPixels p (max columns 1) (max stride 1) column).map (brightness p),
        v < 256 := by
      rw [List.forall_mem_map]
      exact fun _ _ => UInt8.toNat_lt _
    obtain ⟨hfinite, hzero, -⟩ := variance_within hbytes (by rwa [List.length_map])
    exact ⟨hfinite, hzero⟩
  case flat =>
    intro column hcolumn hflat
    have hzero := variance_of_flat hcount hflat
    rw [samples_eq] at hzero
    rw [hvariances, List.getElem?_map, List.getElem?_range hcolumn, Option.map_some, hzero]

/-- A picture of columns without contrast is blank. -/
theorem regions?_eq_none {p : Picture} (hcount : (pixels p sampleStride).length ≤ Binary64.top32)
    (h : ∀ column < columnCount, Flat p columnCount sampleStride column)
    (width height count : Nat) :
    regions? p width height count = none := by
  have hvariances : columnVariances p columnCount sampleStride = List.replicate columnCount 0 := by
    rw [List.eq_replicate_iff]
    refine ⟨rfl, fun v hv => ?_⟩
    obtain ⟨column, hcolumn, rfl⟩ := List.mem_map.mp hv
    exact variance_of_flat hcount (h column (List.mem_range.mp hcolumn))
  have hblank : total (List.replicate columnCount 0) < leastTotal := by decide +kernel
  rw [regions?, hvariances]
  exact if_pos hblank

/-- The variances of a picture of which fewer than `2 ^ 32` pixels are looked at: they are zero for
columns without contrast, so that no subject is found in a picture of such columns. -/
theorem variances_of_picture {p : Picture} (hwidth : p.width ≤ Binary64.top32) :
    (∀ columns stride, columns ≤ Binary64.top32 →
      (pixels p (max stride 1)).length ≤ Binary64.top32 →
      Measured p (max columns 1) (max stride 1) (columnVariances p columns stride)) ∧
    ((pixels p sampleStride).length ≤ Binary64.top32 →
      (∀ column < columnCount, Flat p columnCount sampleStride column) →
      ∀ width height count, regions? p width height count = none) :=
  ⟨fun _ _ => measured_columnVariances hwidth, regions?_eq_none⟩

/-- Three stripes, each of the same brightness all over. Of five columns, two have no pixels. -/
theorem variances_of_picture_of_stripes :
    let p : Picture := ⟨9, 5, fun x _ => if x < 3 then 10 else if x < 6 then 200 else 30⟩
    p.width ≤ Binary64.top32 ∧ (pixels p 4).length ≤ Binary64.top32 ∧
      (∀ column < columnCount, Flat p columnCount sampleStride column) ∧
      Measured p 5 4 (columnVariances p 5 4) ∧ regions? p 1920 1080 1 = none := by
  intro p
  have hwidth : p.width ≤ Binary64.top32 := by decide
  have hcount : (pixels p 4).length ≤ Binary64.top32 := by decide
  have hflat : ∀ column < columnCount, Flat p columnCount sampleStride column := by decide
  obtain ⟨hmeasured, hblank⟩ := variances_of_picture hwidth
  exact ⟨hwidth, hcount, hflat, hmeasured 5 4 (by decide) hcount, hblank hcount hflat 1920 1080 1⟩

/-! ## The columns that are picked -/

variable {variances : List Binary64} {count : Nat}

/-- Column `i` ranks before column `j`: its variance is greater in the total order, or it is the
same and column `i` is farther left. -/
def Outranks (variances : List Binary64) (i j : Nat) : Prop :=
  ∃ x y, variances[i]? = some x ∧ variances[j]? = some y ∧ (y.totalLt x ∨ x = y ∧ i < j)

/-- Places of a list from left to right, as many as asked for if there are so many, each of which
outranks all places that are left out. -/
structure Picks (variances : List Binary64) (count : Nat) (picked : List Nat) : Prop where
  increasing : picked.Pairwise (· < ·)
  valid : ∀ c ∈ picked, c < variances.length
  length : picked.length = min count variances.length
  outranks : ∀ i ∈ picked, ∀ j < variances.length, j ∉ picked → Outranks variances i j

/-- The columns with their variances, best one first. -/
def ranked (variances : List Binary64) : List (Binary64 × Nat) :=
  variances.zipIdx.mergeSort fun a b => b.1.totalLe a.1

theorem mem_ranked {x : Binary64} {i : Nat} :
    (x, i) ∈ ranked variances ↔ variances[i]? = some x := by
  rw [ranked, List.mem_mergeSort, List.mk_mem_zipIdx_iff_getElem?]

theorem nodup_ranked (variances : List Binary64) : ((ranked variances).map Prod.snd).Nodup := by
  have hperm := (List.mergeSort_perm variances.zipIdx fun a b => b.1.totalLe a.1).map Prod.snd
  rw [ranked, hperm.nodup_iff, List.zipIdx_map_snd]
  exact List.nodup_range'

/-- The order of the ranks; sorting by variance alone leaves equal ones in their order. -/
theorem pairwise_ranked (variances : List Binary64) :
    (ranked variances).Pairwise fun a b => b.1.totalLt a.1 ∨ a.1 = b.1 ∧ a.2 < b.2 := by
  have htrans (a b c : Binary64 × Nat) (hab : b.1.totalLe a.1) (hbc : c.1.totalLe b.1) :
      c.1.totalLe a.1 := Binary64.totalLe_trans hbc hab
  have htotal (a b : Binary64 × Nat) : (b.1.totalLe a.1 || a.1.totalLe b.1) = true := by
    simpa using Binary64.totalLe_total b.1 a.1
  have hplaces : variances.zipIdx.Pairwise fun a b => a.2 < b.2 := by
    rw [← List.pairwise_map (f := Prod.snd), List.zipIdx_map_snd]
    exact List.pairwise_lt_range'
  apply (pairwise_mergeSort_of_ties htrans htotal hplaces).imp
  rintro a b ⟨hle, hties⟩
  by_cases hge : a.1.totalLe b.1
  · exact .inr ⟨Binary64.totalLe_antisymm hge hle, hties hge⟩
  · left
    simp [Binary64.totalLt, hle, hge]

theorem mem_pickColumns {c : Nat} : c ∈ pickColumns variances count ↔
    c ∈ ((ranked variances).take count).map Prod.snd := List.mem_mergeSort

theorem nodup_pickColumns (variances : List Binary64) (count : Nat) :
    (pickColumns variances count).Nodup := by
  apply (List.mergeSort_perm _ _).nodup_iff.mpr
  rw [List.map_take]
  exact (nodup_ranked variances).sublist (List.take_sublist _ _)

/-- The columns that are picked stand in the order of the picture. -/
theorem pairwise_pickColumns (variances : List Binary64) (count : Nat) :
    (pickColumns variances count).Pairwise (· < ·) := by
  have hsorted : (pickColumns variances count).Pairwise fun a b => decide (a ≤ b) := by
    apply List.pairwise_mergeSort
    · intro a b c hab hbc
      simp only [decide_eq_true_eq] at hab hbc ⊢
      exact hab.trans hbc
    · intro a b
      simpa using Nat.le_total a b
  apply hsorted.imp₂ ?_ (nodup_pickColumns variances count)
  intro a b hle hne
  exact lt_of_le_of_ne (of_decide_eq_true hle) hne

/-- The columns that are picked outrank those left out, and stand in the order of the picture. -/
theorem picks_pickColumns (variances : List Binary64) (count : Nat) :
    Picks variances count (pickColumns variances count) := by
  refine ⟨pairwise_pickColumns variances count, fun c hc => lt_of_mem_pickColumns hc,
    length_pickColumns variances count, ?_⟩
  intro i hi j hj hout
  obtain ⟨⟨x, _⟩, hx, rfl⟩ := List.mem_map.mp (mem_pickColumns.mp hi)
  have hget : variances[j]? = some variances[j] := List.getElem?_eq_getElem hj
  have hy : (variances[j], j) ∈ ranked variances := mem_ranked.mpr hget
  have hranks := pairwise_ranked variances
  rw [← List.take_append_drop count (ranked variances)] at hy hranks
  rcases List.mem_append.mp hy with hpicked | hleft
  · exact absurd (mem_pickColumns.mpr (List.mem_map_of_mem hpicked)) hout
  · have hbefore := (List.pairwise_append.mp hranks).2.2 _ hx _ hleft
    exact ⟨x, variances[j], mem_ranked.mp (List.mem_of_mem_take hx), hget, hbefore⟩

end Montage.Heuristic
