import Montage.Proofs.Edit.Geometry

/-! # Crop windows

Whatever the aspect and the points of interest, a crop window has even sides and stays inside the
source, and it shows each point inside the source that it is centred on. The comparison that decides
which side of the source is kept and the side that is computed from the other one are rounded on
their own; they agree all the same. -/

namespace Montage.CropWindow

open Binary64 (Has rounded ofNat)
open List (Forall₂)

/-! ## The largest window -/

/-- A window inside a source, with even sides. -/
structure InSource (width height : Nat) (w : CropWindow) : Prop where
  across : Fits w.x w.width width
  down : Fits w.y w.height height

theorem fitSide?_of_le {side : Binary64} {limit : Nat} (hlimit : 2 ≤ limit)
    (h : side.round.toNat32 ≤ limit) :
    ∃ n, fitSide? side limit = some n ∧ Even n ∧ 2 ≤ n ∧ n ≤ limit := by
  refine ⟨max (evenFloor side.round.toNat32) 2, ?_, even_max_evenFloor _, le_max_right _ _,
    max_evenFloor_le h hlimit⟩
  rw [fitSide?, Limits.clamp?, if_pos hlimit, Option.some.injEq]
  have := max_evenFloor_le h hlimit
  omega

/-- A side of a source: more than one pixel, and not more than can be counted with 32 bits. -/
structure IsSide (side : Nat) : Prop where
  two_le : 2 ≤ side
  le_top32 : side ≤ Binary64.top32

section Sides

variable {width height : Nat} {aspect : Binary64}

theorem IsSide.bounds (h : IsSide width) : (2 : Rat) ≤ width ∧ (width : Rat) ≤ 2 ^ 32 := by
  obtain ⟨hlow, hhigh⟩ := h
  rw [Binary64.top32] at hhigh
  exact ⟨by exact_mod_cast hlow, by exact_mod_cast hhigh.trans (by norm_num)⟩

theorem IsSide.has (h : IsSide width) : (ofNat width).Has width :=
  Binary64.has_ofNat (Binary64.le_mantBound_of_le_top32 h.le_top32)

theorem IsSide.rounded_eq (h : IsSide width) : rounded width = width :=
  Binary64.rounded_natCast (Binary64.le_mantBound_of_le_top32 h.le_top32)

/-- The quotient of the sides, and how much of it is lost at most. -/
theorem has_quotient (hwidth : IsSide width) (hheight : IsSide height) :
    (ofNat width / ofNat height).Has (rounded (width / height)) ∧
      (width : Rat) / height * (1 - 1 / 2 ^ 53) ≤ rounded (width / height) := by
  obtain ⟨hlow, hhigh⟩ := hwidth.bounds
  obtain ⟨hlow', hhigh'⟩ := hheight.bounds
  have hpos : (0 : Rat) < height := by linarith
  have hleast : (2 : Rat) ^ (-1022 : Int) ≤ width / height := by
    calc (2 : Rat) ^ (-1022 : Int) ≤ 2 ^ (-31 : Int) :=
          zpow_le_zpow_right₀ one_le_two (by norm_num)
      _ = 2 / 2 ^ 32 := by norm_num
      _ ≤ width / height := div_le_div₀ (by linarith) hlow hpos hhigh'
  have hmost : (width : Rat) / height ≤ 2 ^ 32 :=
    (div_le_self (by linarith) (by linarith)).trans hhigh
  have hnonneg : (0 : Rat) ≤ width / height := div_nonneg (by linarith) hpos.le
  constructor
  · exact hwidth.has.div hheight.has hpos.ne' (Binary64.abs_lt_overflow_of_le
      (Binary64.rounded_nonneg hnonneg)
      ((Binary64.rounded_le_two_pow hmost).trans (by norm_num)))
  · have hnear := (abs_le.mp (Binary64.abs_rounded_sub_le_div hleast)).1
    linarith

/-- Below the quotient of the sides, the width that belongs to the height is there. -/
theorem width_le (hwidth : IsSide width) (hheight : IsSide height)
    (h : aspect < ofNat width / ofNat height) :
    (ofNat height * aspect).round.toNat32 ≤ width := by
  obtain ⟨hquotient, -⟩ := has_quotient hwidth hheight
  have hwidth_le := hwidth.bounds
  have hheight_pos : (0 : Rat) < height := by linarith [hheight.bounds.1]
  have hne : aspect ≠ .infinite false := by
    rintro rfl
    have hunsigned := Binary64.unsigned_div (Binary64.unsigned_ofNat width) hheight.has.isFinite
      (Binary64.pos_ofNat (by exact_mod_cast hheight_pos))
    exact Binary64.not_lt_of_le hunsigned.le_infinite h
  have hproduct : (height : Rat) * aspect.toRat ≤ width := by
    by_cases hfinite : aspect.isFinite
    · -- an aspect above the exact quotient would be rounded to itself, and not below the quotient
      have hlt := (Binary64.has_toRat hfinite).lt_iff hquotient |>.mp h
      have hle : aspect.toRat ≤ width / height := by
        refine not_lt.mp fun habove => not_le.mpr hlt ?_
        exact (Binary64.rounded_mono habove.le).trans_eq (Binary64.rounded_toRat hfinite)
      rwa [le_div_iff₀' hheight_pos] at hle
    · have hzero : aspect.toRat = 0 := by
        cases aspect with
        | finite => exact absurd rfl hfinite
        | infinite => rfl
        | undefined => rfl
      rw [hzero, mul_zero]
      exact Nat.cast_nonneg width
  exact (hheight.has.mul_notBeyond hheight_pos hne hproduct hwidth.rounded_eq
    (Nat.cast_nonneg width) (by linarith)).toNat32_round_le (by linarith) hwidth.le_top32

/-- From the quotient of the sides on, the height that belongs to the width is there. -/
theorem height_le (hwidth : IsSide width) (hheight : IsSide height)
    (h : ¬ aspect < ofNat width / ofNat height) :
    (ofNat width / aspect).round.toNat32 ≤ height := by
  obtain ⟨hquotient, hnear⟩ := has_quotient hwidth hheight
  have hwidth_le := hwidth.bounds
  have hheight_le := hheight.bounds
  have hheight_pos : (0 : Rat) < height := by linarith
  have hratio_pos : (0 : Rat) < width / height := div_pos (by linarith) hheight_pos
  have hkept : rounded ((height : Rat) + 1 / 4) = height + 1 / 4 := by
    have hplaces : 4 * height + 1 ≤ Binary64.mantBound := by
      have := hheight.le_top32
      rw [Binary64.top32] at this
      exact (by omega : 4 * height + 1 ≤ 2 ^ 35).trans (by decide)
    have heq : (height : Rat) + 1 / 4 = ((4 * height + 1 : Nat) : Rat) / 2 ^ 2 := by
      push_cast
      ring
    rw [heq, Binary64.rounded_div_two_pow hplaces (by decide)]
  have hdivided : aspect.isFinite →
      aspect.toRat ≠ 0 ∧ (width : Rat) / aspect.toRat ≤ height + 1 / 4 := by
    intro hfinite
    have hle : rounded (width / height) ≤ aspect.toRat :=
      not_lt.mp fun hlt => h (((Binary64.has_toRat hfinite).lt_iff hquotient).mpr hlt)
    have haspect := hnear.trans hle
    have hpos : 0 < aspect.toRat := (mul_pos hratio_pos (by norm_num)).trans_le haspect
    refine ⟨hpos.ne', (div_le_iff₀ hpos).mpr ?_⟩
    -- what the quotient lost is less than a quarter of a pixel
    have hquarter : (height : Rat) ≤ (height + 1 / 4) * (1 - 1 / 2 ^ 53) := by linarith
    calc (width : Rat) = width / height * height := (div_mul_cancel₀ _ hheight_pos.ne').symm
      _ ≤ width / height * ((height + 1 / 4) * (1 - 1 / 2 ^ 53)) :=
          mul_le_mul_of_nonneg_left hquarter hratio_pos.le
      _ = (height + 1 / 4) * (width / height * (1 - 1 / 2 ^ 53)) := by ring
      _ ≤ (height + 1 / 4) * aspect.toRat := mul_le_mul_of_nonneg_left haspect (by linarith)
  exact (hwidth.has.div_notBeyond hdivided hkept (by linarith) (by linarith)).toNat32_round_le
    (by linarith) hheight.le_top32

/-- Sides that fit a source, one of them as long as the source allows. -/
structure Spans (width height width' height' : Nat) : Prop where
  across : Fits 0 width' width
  down : Fits 0 height' height
  full : width' = evenFloor width ∨ height' = evenFloor height

theorem fitSides?_of_isSide (hwidth : IsSide width) (hheight : IsSide height)
    (aspect : Binary64) :
    ∃ width' height', fitSides? width height aspect = some (width', height') ∧
      Spans width height width' height' := by
  have hkept {side : Nat} (hside : IsSide side) : max (evenFloor side) 2 = evenFloor side := by
    have := hside.two_le
    rw [evenFloor]
    omega
  have hfits {side : Nat} (hside : IsSide side) : Fits 0 (max (evenFloor side) 2) side :=
    ⟨even_max_evenFloor side, le_max_right _ _,
      (Nat.zero_add _).trans_le (max_evenFloor_le le_rfl hside.two_le)⟩
  rw [fitSides?]
  split
  case isTrue h =>
    obtain ⟨n, hn, heven, hlow, hle⟩ := fitSide?_of_le hwidth.two_le (width_le hwidth hheight h)
    rw [hn]
    exact ⟨n, _, rfl, ⟨heven, hlow, by omega⟩, hfits hheight, .inr (hkept hheight)⟩
  case isFalse h =>
    obtain ⟨n, hn, heven, hlow, hle⟩ := fitSide?_of_le hheight.two_le (height_le hwidth hheight h)
    rw [hn]
    exact ⟨_, n, rfl, hfits hwidth, ⟨heven, hlow, by omega⟩, .inl (hkept hwidth)⟩

/-- A side of a source below two counts as two. -/
theorem isSide_max {source : Nat} (h : source ≤ Binary64.top32) : IsSide (max source 2) :=
  ⟨le_max_right _ _, max_le h (by decide)⟩

theorem largest?_spec (hwidth : width ≤ Binary64.top32) (hheight : height ≤ Binary64.top32)
    (aspect : Binary64) :
    ∃ w, largest? width height aspect = some w ∧ w.InSource (max width 2) (max height 2) ∧
      (w.width = evenFloor (max width 2) ∨ w.height = evenFloor (max height 2)) := by
  obtain ⟨width', height', hsides, hacross, hdown, hfull⟩ :=
    fitSides?_of_isSide (isSide_max hwidth) (isSide_max hheight) aspect
  have hwidth_le := hacross.le
  have hheight_le := hdown.le
  rw [Nat.zero_add] at hwidth_le hheight_le
  simp only [largest?, hsides, Option.bind_eq_bind, Option.bind_some,
    Limits.minus?_of_le hwidth_le, Limits.minus?_of_le hheight_le]
  exact ⟨_, rfl, ⟨hacross.centered, hdown.centered⟩, hfull⟩

end Sides

/-! ## Moving a window -/

/-- A stretch of pixels of a whole reaches over a place: the place is not before it and not behind
it, and it is only at its end if that is the end of the whole. -/
structure Reaches (corner side whole : Nat) (place : Rat) : Prop where
  low : corner ≤ place
  high : place ≤ corner + side
  inside : place < whole → place < corner + side

/-- Half a side is subtracted from a place, and the difference is off by a quarter of a pixel at
most. -/
theorem has_sub_half {center : Binary64} {place : Rat} {side : Nat} (hcenter : center.Has place)
    (hzero : 0 ≤ place) (hplace : place ≤ 2 ^ 32) (hside : IsSide side) :
    ∃ d, (center - ofNat side / 2).Has d ∧ |d - (place - side / 2)| ≤ 1 / 4 := by
  obtain ⟨hlow, hhigh⟩ := hside.bounds
  have hhalf := Binary64.has_half (Binary64.le_mantBound_of_le_top32 hside.le_top32)
  refine ⟨_, hcenter.sub_of_nonneg hhalf hzero (by linarith), ?_⟩
  have hsmall : |place - side / 2| ≤ (2 : Rat) ^ 33 :=
    abs_le.mpr ⟨by linarith, by linarith⟩
  exact (Binary64.abs_rounded_sub_le hsmall).trans (by norm_num)

/-- Where the stretch of pixels stands: off the middle by less than a pixel, unless the source ends
before. -/
theorem reaches_of_near {corner side room : Nat} {place d : Rat} (hside : 2 ≤ side)
    (hzero : 0 ≤ place) (hplace : place ≤ room + side) (hd : |d - (place - side / 2)| ≤ 1 / 4)
    (hcorner : (corner : Int) = Rounding.nearestAway (max 0 (min d room))) :
    Reaches corner side (room + side) place := by
  have hside' : (2 : Rat) ≤ side := by exact_mod_cast hside
  have hroom : (0 : Rat) ≤ room := Nat.cast_nonneg room
  obtain ⟨hd_low, hd_high⟩ := abs_le.mp hd
  have hcorner' : (corner : Rat) = Rounding.nearestAway (max 0 (min d room)) := by
    exact_mod_cast hcorner
  have hclamped : 0 ≤ max 0 (min d room) := le_max_left _ _
  have hbelow := Rounding.nearestAway_le hclamped
  have habove := Rounding.lt_nearestAway hclamped
  rw [← hcorner'] at hbelow habove
  rcases le_or_gt d 0 with hleft | hpos
  · -- the window begins where the source does
    rw [max_eq_left ((min_le_left _ _).trans hleft)] at hbelow
    have hzero' : corner = 0 := by
      have hlt : (corner : Rat) < 1 := by linarith
      exact Nat.lt_one_iff.mp (by exact_mod_cast hlt)
    rw [hzero']
    exact ⟨by exact_mod_cast hzero, by linarith, fun _ => by linarith⟩
  · rcases le_or_gt d room with hinside | hright
    · rw [min_eq_left hinside, max_eq_right hpos.le] at habove hbelow
      exact ⟨by linarith, by linarith, fun _ => by linarith⟩
    · -- the window ends where the source does
      rw [min_eq_right hright.le, max_eq_right hroom] at habove hbelow
      have hend : corner = room := by
        have hlt : (corner : Rat) < room + 1 := by linarith
        have hgt : (room : Rat) < corner + 1 := by linarith
        have hlt' : corner < room + 1 := by exact_mod_cast hlt
        have hgt' : room < corner + 1 := by exact_mod_cast hgt
        omega
      rw [hend]
      exact ⟨by linarith, hplace, fun h => by exact_mod_cast h⟩

theorem cornerFor?_spec (center : Binary64) {side source : Nat} (hside : IsSide side)
    (hle : side ≤ max source 2) (hsource : source ≤ Binary64.top32) :
    ∃ corner, cornerFor? center side source = some corner ∧ corner + side ≤ max source 2 ∧
      ∀ place, center.Has place → 0 ≤ place → place ≤ (max source 2 : Nat) →
        Reaches corner side (max source 2) place := by
  obtain ⟨room, hroom⟩ := Nat.exists_eq_add_of_le' hle
  have hrest : source - side = room := by
    have := hside.two_le
    omega
  have hroom_le : room ≤ Binary64.top32 := by omega
  have hhas : (ofNat room).Has room :=
    Binary64.has_ofNat (Binary64.le_mantBound_of_le_top32 hroom_le)
  have hwhole : ((room + side : Nat) : Rat) ≤ 2 ^ 32 := by
    have hmost : room + side ≤ 4294967296 := by
      rw [Binary64.top32] at hsource
      omega
    exact_mod_cast hmost
  have hbounds : (0 : Binary64) ≤ ofNat room := Binary64.zero_le_ofNat room
  rw [hroom, cornerFor?, hrest]
  by_cases hnan : (center - ofNat side / 2).isNaN
  · -- such a centre is no place of the source
    rw [Binary64.clamp?_of_isNaN hnan hbounds]
    refine ⟨0, congrArg some (Binary64.toNat32_round_of_isNaN hnan), by omega,
      fun place hcenter h h' => ?_⟩
    obtain ⟨d, hd, -⟩ := has_sub_half hcenter h (h'.trans hwhole) hside
    exact absurd hnan (by simp [hd.isNaN_eq_false])
  · obtain ⟨y, hy⟩ := Option.isSome_iff_exists.mp (Binary64.clamp?_isSome.mpr hbounds)
    have hwithin := Binary64.within_of_clamp? (Bool.eq_false_iff.mpr hnan) Binary64.has_zero hhas hy
    obtain ⟨hvalue, hcorner⟩ := Binary64.toNat32_round_spec hwithin hroom_le
    rw [hy]
    refine ⟨y.round.toNat32, rfl, by omega, fun place hcenter h h' => ?_⟩
    obtain ⟨d, hd, hnear⟩ := has_sub_half hcenter h (h'.trans hwhole) hside
    obtain ⟨y', hy', hclamped⟩ := hd.clamp? Binary64.has_zero hhas (Nat.cast_nonneg room)
    cases hy.symm.trans hy'
    rw [hclamped.toRat_eq] at hvalue
    exact reaches_of_near hside.two_le h (by exact_mod_cast h') hnear hvalue

/-- A window that was moved to a point: its sides are kept, it is inside the source, and along each
axis it reaches over the point if that is inside the source. -/
structure Moved (width height : Nat) (w : CropWindow) (center : Binary64 × Binary64)
    (w' : CropWindow) : Prop where
  sides : w'.width = w.width ∧ w'.height = w.height
  inSource : w'.InSource width height
  across : ∀ place, center.1.Has place → 0 ≤ place → place ≤ width →
    Reaches w'.x w'.width width place
  down : ∀ place, center.2.Has place → 0 ≤ place → place ≤ height →
    Reaches w'.y w'.height height place

section Following

variable {sourceWidth sourceHeight : Nat}

theorem centeredOn?_spec {w : CropWindow}
    (hw : w.InSource (max sourceWidth 2) (max sourceHeight 2))
    (hwidth : sourceWidth ≤ Binary64.top32) (hheight : sourceHeight ≤ Binary64.top32)
    (center : Binary64 × Binary64) :
    ∃ w', w.centeredOn? center.1 center.2 sourceWidth sourceHeight = some w' ∧
      Moved (max sourceWidth 2) (max sourceHeight 2) w center w' := by
  have hside {corner side source : Nat} (h : Fits corner side (max source 2))
      (hsource : source ≤ Binary64.top32) : IsSide side ∧ side ≤ max source 2 := by
    have hle := (Nat.le_add_left side corner).trans h.le
    exact ⟨⟨h.two_le, hle.trans (isSide_max hsource).le_top32⟩, hle⟩
  obtain ⟨hacross, hacross_le⟩ := hside hw.across hwidth
  obtain ⟨hdown, hdown_le⟩ := hside hw.down hheight
  obtain ⟨x, hx, hx_le, hx_reaches⟩ := cornerFor?_spec center.1 hacross hacross_le hwidth
  obtain ⟨y, hy, hy_le, hy_reaches⟩ := cornerFor?_spec center.2 hdown hdown_le hheight
  refine ⟨⟨x, y, w.width, w.height⟩, by rw [centeredOn?, hx, hy]; rfl, ⟨rfl, rfl⟩, ?_,
    hx_reaches, hy_reaches⟩
  exact ⟨⟨hw.across.even, hw.across.two_le, hx_le⟩, ⟨hw.down.even, hw.down.two_le, hy_le⟩⟩

/-- The windows that are moved from point to point, each one from where the last one is. -/
def follow? (sourceWidth sourceHeight : Nat) :
    CropWindow → List (Binary64 × Binary64) → Option (List CropWindow)
  | _, [] => some []
  | w, center :: rest => do
      let w ← w.centeredOn? center.1 center.2 sourceWidth sourceHeight
      let windows ← follow? sourceWidth sourceHeight w rest
      return w :: windows

theorem follow?_spec {w : CropWindow}
    (hw : w.InSource (max sourceWidth 2) (max sourceHeight 2))
    (hwidth : sourceWidth ≤ Binary64.top32) (hheight : sourceHeight ≤ Binary64.top32)
    (centers : List (Binary64 × Binary64)) :
    ∃ windows, follow? sourceWidth sourceHeight w centers = some windows ∧
      Forall₂ (Moved (max sourceWidth 2) (max sourceHeight 2) w) centers windows := by
  induction centers generalizing w with
  | nil => exact ⟨[], rfl, .nil⟩
  | cons center rest ih =>
      obtain ⟨w', hw', hmoved⟩ := centeredOn?_spec hw hwidth hheight center
      obtain ⟨windows, hwindows, hall⟩ := ih hmoved.inSource
      refine ⟨w' :: windows, ?_, .cons hmoved (hall.imp fun center' w'' h => ?_)⟩
      · rw [follow?, hw', Option.bind_eq_bind, Option.bind_some, hwindows]
        rfl
      -- the window before has the sides of the first one
      exact { h with sides := ⟨h.sides.1.trans hmoved.sides.1, h.sides.2.trans hmoved.sides.2⟩ }

/-- The largest window of any aspect, moved from point to point. -/
theorem largest?_follow (hwidth : sourceWidth ≤ Binary64.top32)
    (hheight : sourceHeight ≤ Binary64.top32) (aspect : Binary64)
    (centers : List (Binary64 × Binary64)) :
    ∃ w windows, largest? sourceWidth sourceHeight aspect = some w ∧
      w.InSource (max sourceWidth 2) (max sourceHeight 2) ∧
      (w.width = evenFloor (max sourceWidth 2) ∨ w.height = evenFloor (max sourceHeight 2)) ∧
      follow? sourceWidth sourceHeight w centers = some windows ∧
      Forall₂ (Moved (max sourceWidth 2) (max sourceHeight 2) w) centers windows := by
  obtain ⟨w, hw, hinside, hfull⟩ := largest?_spec hwidth hheight aspect
  obtain ⟨windows, hwindows, hall⟩ := follow?_spec hinside hwidth hheight centers
  exact ⟨w, windows, hw, hinside, hfull, hwindows, hall⟩

/-- A portrait window of an odd source, moved to a place that is none, far out and to the last
pixel. -/
theorem largest?_follow_of_portrait :
    let centers : List (Binary64 × Binary64) :=
      [(.nan, .infinite true), (.infinite false, -1000), (1918.75, 540)]
    ∃ w windows, largest? 1919 1081 (9 / 16) = some w ∧ w.InSource (max 1919 2) (max 1081 2) ∧
      (w.width = evenFloor (max 1919 2) ∨ w.height = evenFloor (max 1081 2)) ∧
      follow? 1919 1081 w centers = some windows ∧
      Forall₂ (Moved (max 1919 2) (max 1081 2) w) centers windows :=
  largest?_follow (by decide) (by decide) (9 / 16) _

end Following

end Montage.CropWindow
