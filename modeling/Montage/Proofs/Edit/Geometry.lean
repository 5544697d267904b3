import Mathlib.Algebra.Group.Nat.Even
import Montage.Edit.Geometry
import Montage.Proofs.Binary64.Bounds
import Montage.Proofs.Edit.Problems

/-! # Placements and crop windows

A placement that was clamped onto the canvas can be clamped again and has pixels. A source of any
size, and any point of interest, has a crop window.

Along one axis a rectangle is a stretch of pixels. Wherever a proper placement lies and however
large it is, its stretches have an even number of pixels and lie on the canvas; and a placement that
was clamped before has the same pixels. -/

namespace Montage

theorem evenFloor_le (n : Nat) : evenFloor n ≤ n := Nat.sub_le n _

theorem Limits.minus?_of_le {a b : Nat} (h : b ≤ a) : Limits.minus? a b = some (a - b) :=
  if_pos h

namespace Placement

theorem clamped?_eq_some {r p : Placement} : r.clamped? = some p ↔
    r.width.clamp? 0.01 1 = some p.width ∧ r.height.clamp? 0.01 1 = some p.height ∧
      r.x.clamp? 0 (1 - p.width) = some p.x ∧ r.y.clamp? 0 (1 - p.height) = some p.y := by
  simp only [clamped?, Option.bind_eq_bind, Option.bind_eq_some_iff, Option.pure_def,
    Option.some.injEq]
  constructor
  · rintro ⟨width, hwidth, height, hheight, x, hx, y, hy, rfl⟩
    exact ⟨hwidth, hheight, hx, hy⟩
  · rintro ⟨hwidth, hheight, hx, hy⟩
    exact ⟨p.width, hwidth, p.height, hheight, p.x, hx, p.y, hy, rfl⟩

/-- A placement on the canvas stays where it is. -/
theorem clamped?_of_clamped? {r p : Placement} (h : r.clamped? = some p) :
    p.clamped? = some p := by
  obtain ⟨hwidth, hheight, hx, hy⟩ := clamped?_eq_some.mp h
  exact clamped?_eq_some.mpr ⟨Binary64.clamp?_of_clamp? hwidth, Binary64.clamp?_of_clamp? hheight,
    Binary64.clamp?_of_clamp? hx, Binary64.clamp?_of_clamp? hy⟩

theorem toPixels?_of_clamped? {r p : Placement} (h : r.clamped? = some p) (width height : Nat) :
    ∃ rect, p.toPixels? width height = some rect := by
  rw [toPixels?, clamped?_of_clamped? h]
  exact ⟨_, rfl⟩

end Placement

namespace CropWindow

theorem fitSide?_spec (side : Binary64) {limit : Nat} (h : 2 ≤ limit) :
    ∃ n, fitSide? side limit = some n ∧ n ≤ limit := by
  rw [fitSide?, Limits.clamp?, if_pos h]
  exact ⟨_, rfl, Nat.min_le_right _ _⟩

/-- Whatever the aspect, there are sides and they fit. -/
theorem fitSides?_spec (aspect : Binary64) {sourceWidth sourceHeight : Nat}
    (hwidth : 2 ≤ sourceWidth) (hheight : 2 ≤ sourceHeight) :
    ∃ width height, fitSides? sourceWidth sourceHeight aspect = some (width, height) ∧
      width ≤ sourceWidth ∧ height ≤ sourceHeight := by
  have heven {n : Nat} (hn : 2 ≤ n) : max (evenFloor n) 2 ≤ n :=
    Nat.max_le.mpr ⟨evenFloor_le n, hn⟩
  rw [fitSides?]
  split
  · obtain ⟨width, heq, hle⟩ := fitSide?_spec (.ofNat sourceHeight * aspect) hwidth
    exact ⟨width, _, by rw [heq]; rfl, hle, heven hheight⟩
  · obtain ⟨height, heq, hle⟩ := fitSide?_spec (.ofNat sourceWidth / aspect) hheight
    exact ⟨_, height, by rw [heq]; rfl, heven hwidth, hle⟩

theorem largest?_isSome (sourceWidth sourceHeight : Nat) (aspect : Binary64) :
    ∃ w, largest? sourceWidth sourceHeight aspect = some w := by
  obtain ⟨width, height, hsides, hwidth, hheight⟩ := fitSides?_spec aspect
    (Nat.le_max_right sourceWidth 2) (Nat.le_max_right sourceHeight 2)
  simp only [largest?, hsides, Option.bind_eq_bind, Option.bind_some,
    Limits.minus?_of_le hwidth, Limits.minus?_of_le hheight]
  exact ⟨_, rfl⟩

theorem cornerFor?_isSome (center : Binary64) (side source : Nat) :
    ∃ corner, cornerFor? center side source = some corner := by
  rw [← Option.isSome_iff_exists, cornerFor?, Option.isSome_map, Binary64.clamp?_isSome]
  exact Binary64.zero_le_ofNat _

theorem centeredOn?_isSome (w : CropWindow) (centerX centerY : Binary64)
    (sourceWidth sourceHeight : Nat) :
    ∃ w', w.centeredOn? centerX centerY sourceWidth sourceHeight = some w' := by
  obtain ⟨x, hx⟩ := cornerFor?_isSome centerX w.width sourceWidth
  obtain ⟨y, hy⟩ := cornerFor?_isSome centerY w.height sourceHeight
  rw [centeredOn?, hx, hy]
  exact ⟨_, rfl⟩

end CropWindow

/-! ## Stretches of pixels -/

/-- Pixels from a corner on: an even number of them, at least two, and none beyond the whole. -/
structure Fits (corner side whole : Nat) : Prop where
  even : Even side
  two_le : 2 ≤ side
  le : corner + side ≤ whole

/-- What fits at the start of a whole fits in its middle. -/
theorem Fits.centered {side whole : Nat} (h : Fits 0 side whole) :
    Fits ((whole - side) / 2) side whole := by
  have := h.le
  exact ⟨h.even, h.two_le, by omega⟩

theorem even_max_evenFloor (n : Nat) : Even (max (evenFloor n) 2) := by
  rw [evenFloor, Nat.even_iff]
  omega

theorem max_evenFloor_le {n whole : Nat} (hn : n ≤ whole) (hwhole : 2 ≤ whole) :
    max (evenFloor n) 2 ≤ whole :=
  max_le ((evenFloor_le n).trans hn) hwhole

/-- A rectangle on the canvas, with even sides. -/
structure PixelRect.OnCanvas (width height : Nat) (r : PixelRect) : Prop where
  across : Fits r.x r.width width
  down : Fits r.y r.height height

namespace Placement

/-! ## Clamping -/

/-- A side is clamped to a fraction of the canvas, and there is room for the corner in what is left
of it. -/
theorem clampedSide_spec {side : Binary64} (hside : side.isFinite) :
    ∃ w, side.clamp? 0.01 1 = some w ∧ w.Within 0 1 ∧
      ∀ corner : Binary64, ∃ x, corner.clamp? 0 (1 - w) = some x := by
  have hleast : (0.01 : Binary64).isFinite := by decide +kernel
  obtain ⟨w, hw⟩ := Option.isSome_iff_exists.mp
    ((Binary64.clamp?_isSome (x := side)).mpr (by decide +kernel : (0.01 : Binary64) ≤ 1))
  obtain ⟨hfinite, hlow, hone⟩ := Binary64.within_of_clamp?
    (Binary64.has_toRat hside).isNaN_eq_false (Binary64.has_toRat hleast) Binary64.has_one hw
  have hzero : 0 ≤ w.toRat :=
    (by decide +kernel : (0 : Rat) ≤ (0.01 : Binary64).toRat).trans hlow
  have hroom := Binary64.has_one.sub_of_nonneg (Binary64.has_toRat hfinite) zero_le_one hzero
  refine ⟨w, hw, ⟨hfinite, hzero, hone⟩, fun corner => ?_⟩
  refine Option.isSome_iff_exists.mp (Binary64.clamp?_isSome.mpr ?_)
  exact (Binary64.has_zero.le_iff hroom).mpr (Binary64.rounded_nonneg (by linarith))

/-- A rectangle whose sides are numbers can be moved onto the canvas. -/
theorem clamped?_of_isFinite {r : Placement} (hwidth : r.width.isFinite)
    (hheight : r.height.isFinite) :
    ∃ p, r.clamped? = some p ∧ p.width.Within 0 1 ∧ p.height.Within 0 1 := by
  obtain ⟨width, hw, hwithin, hx⟩ := clampedSide_spec hwidth
  obtain ⟨height, hh, hwithin', hy⟩ := clampedSide_spec hheight
  obtain ⟨x, hx⟩ := hx r.x
  obtain ⟨y, hy⟩ := hy r.y
  exact ⟨⟨x, y, width, height⟩, clamped?_eq_some.mpr ⟨hw, hh, hx, hy⟩, hwithin, hwithin'⟩

/-! ## Pixels -/

theorem span_le {fraction : Binary64} (h : fraction.Within 0 1) (side : Nat) :
    span fraction side ≤ side := by
  rcases le_or_gt side Binary64.top32 with hside | hside
  · have hproduct := Binary64.within_mul h (Binary64.le_mantBound_of_le_top32 hside)
    exact (Binary64.toNat32_round_spec hproduct hside).2
  · exact (Binary64.toNatUpTo_le _ _).trans hside.le

/-- Pixels are found by clamping first, so that it makes no difference to have clamped before. -/
theorem toPixels?_of_clamped?_eq {r p : Placement} (h : r.clamped? = some p)
    (width height : Nat) : p.toPixels? width height = r.toPixels? width height := by
  rw [toPixels?, toPixels?, clamped?_of_clamped? h, h]

/-- The placements that the rules let through have pixels on every canvas, and the same ones whether
or not they were clamped before. -/
theorem pixels_onCanvas {r : Placement} (hproper : r.isProper) {width height : Nat}
    (hwidth : 2 ≤ width) (hheight : 2 ≤ height) :
    ∃ p rect, r.clamped? = some p ∧ p.clamped? = some p ∧ r.toPixels? width height = some rect ∧
      p.toPixels? width height = some rect ∧ rect.OnCanvas width height := by
  obtain ⟨-, -, hw, hh⟩ := isProper_iff.mp hproper
  obtain ⟨p, hp, hwithin, hwithin'⟩ := clamped?_of_isFinite hw.1 hh.1
  have hspan := max_evenFloor_le (span_le hwithin width) hwidth
  have hspan' := max_evenFloor_le (span_le hwithin' height) hheight
  obtain ⟨rect, hrect, honCanvas⟩ : ∃ rect, r.toPixels? width height = some rect ∧
      rect.OnCanvas width height := by
    rw [toPixels?, hp]
    refine ⟨_, rfl, ⟨even_max_evenFloor _, le_max_right _ _, ?_⟩,
      ⟨even_max_evenFloor _, le_max_right _ _, ?_⟩⟩
    · exact Nat.add_le_of_le_sub hspan (Nat.min_le_right _ _)
    · exact Nat.add_le_of_le_sub hspan' (Nat.min_le_right _ _)
  exact ⟨p, rect, hp, clamped?_of_clamped? hp, hrect,
    (toPixels?_of_clamped?_eq hp width height).trans hrect, honCanvas⟩

/-- A sliver far off to the right, higher than the canvas. -/
theorem pixels_onCanvas_of_sliver :
    let r : Placement := ⟨1.7, -3, 0.004, 2.5⟩
    r.isProper ∧ ∃ p rect, r.clamped? = some p ∧ p.clamped? = some p ∧
      r.toPixels? 641 361 = some rect ∧ p.toPixels? 641 361 = some rect ∧
      rect.OnCanvas 641 361 := by
  have hproper : (⟨1.7, -3, 0.004, 2.5⟩ : Placement).isProper := by decide +kernel
  exact ⟨hproper, pixels_onCanvas hproper (by decide) (by decide)⟩

end Placement

end Montage
