import Mathlib
import Montage.Proofs.Clip.Cutaways

/-! # Ramps of the clip

A list of ramps is accepted, in whatever order it is written, exactly if each of them takes some
time and has zooms, and no instant of the source belongs to two of them. The trim cuts the ramps,
and clip times are rounded, so ramps may shrink to nothing in the clip. Those that do not are still
apart.

A ramp of the clip changes evenly between the zooms that the ramp of the edit has where the trim
cuts it, over a window whose ends are whole milliseconds. So it is off by no more than a millisecond
of the ramp at its ends, and between two ends nothing that changes evenly is further off than at
one of them. -/

namespace Montage

open List (Forall₂)

/-! ## Ramps that are apart -/

/-- The instants of the source at which a ramp zooms. -/
def ZoomRamp.instants (r : ZoomRamp) : Set Rat := Set.Ico (r.startMs : Rat) r.endMs

/-- The instants of the clip that belong to a window. -/
def Window.instants (w : Window) : Set Rat := Set.Ico (w.startMs : Rat) w.endMs

theorem nonempty_ico_iff {a b : Nat} : (Set.Ico (a : Rat) b).Nonempty ↔ a < b := by
  rw [Set.nonempty_Ico, Nat.cast_lt]

/-- Ranges that are not empty have no instant in common exactly if one ends before the other
begins. -/
theorem disjoint_ico_iff {a b c d : Nat} (hab : a < b) (hcd : c < d) :
    Disjoint (Set.Ico (a : Rat) b) (Set.Ico (c : Rat) d) ↔ b ≤ c ∨ d ≤ a := by
  rw [Set.Ico_disjoint_Ico, ← Nat.cast_min, ← Nat.cast_max, Nat.cast_le]
  omega

theorem ZoomRamp.disjoint_instants_iff {a b : ZoomRamp} (ha : a.startMs < a.endMs)
    (hb : b.startMs < b.endMs) : Disjoint a.instants b.instants ↔ a.Apart b :=
  disjoint_ico_iff ha hb

/-- Ramps that are apart in the source have windows that are apart in the clip. -/
theorem ZoomRamp.disjoint_window_of_apart {t : Timeline} (h : t.Forward) {a b : ZoomRamp}
    {c d : ClipRamp} (hac : a.toClip? t = some c) (hbd : b.toClip? t = some d)
    (hab : a.Apart b) : Disjoint c.window.instants d.window.instants := by
  obtain ⟨-, hc, hac⟩ := Timeline.window?_eq_some.mp (toClip?_eq_some.mp hac).1
  obtain ⟨-, hd, hbd⟩ := Timeline.window?_eq_some.mp (toClip?_eq_some.mp hbd).1
  rw [hac, hbd]
  exact (disjoint_ico_iff hc hd).mpr
    (hab.imp (Timeline.toClip_mono h) (Timeline.toClip_mono h))

theorem Timeline.forward_of_positive {t : Timeline} (h : t.speed.Positive) : t.Forward :=
  ⟨h.1, (Binary64.has_zero.lt_iff (Binary64.has_toRat h.1)).mpr h.2⟩

/-- Ramps are accepted exactly if they take time, have zooms and have no instant in common. In a
clip at any speed the windows of those that are shown have no instant in common either. -/
theorem rampProblems_eq_nil_iff_disjoint (ramps : List ZoomRamp) :
    (rampProblems ramps = [] ↔
      (∀ r ∈ ramps, r.instants.Nonempty ∧ r.zoomStart.AtLeast 1 ∧ r.zoomEnd.AtLeast 1) ∧
        ramps.Pairwise fun a b => Disjoint a.instants b.instants) ∧
    (rampProblems ramps = [] → ∀ t : Timeline, t.speed.Positive →
      let windows := (ramps.filterMap (·.toClip? t)).map (·.window)
      (∀ w ∈ windows, w.instants.Nonempty) ∧
        windows.Pairwise fun v w => Disjoint v.instants w.instants) := by
  constructor
  · have hranges (r : ZoomRamp) : r.instants.Nonempty ↔ r.startMs < r.endMs := nonempty_ico_iff
    simp only [rampProblems_eq_nil_iff, hranges]
    refine and_congr_right fun hramps => List.Pairwise.iff_of_mem fun ha hb => ?_
    exact (ZoomRamp.disjoint_instants_iff (hramps _ ha).1 (hramps _ hb).1).symm
  · intro haccepted t hspeed
    have hforward := Timeline.forward_of_positive hspeed
    obtain ⟨-, hapart⟩ := rampProblems_eq_nil_iff.mp haccepted
    constructor
    · intro w hw
      obtain ⟨c, hc, rfl⟩ := List.mem_map.mp hw
      obtain ⟨r, -, hr⟩ := List.mem_filterMap.mp hc
      have hinside := Timeline.inside_of_window? hforward (ZoomRamp.toClip?_eq_some.mp hr).1
      exact nonempty_ico_iff.mpr hinside.start_lt_end
    · rw [List.pairwise_map, List.pairwise_filterMap]
      exact hapart.imp fun hab c hc d hd => ZoomRamp.disjoint_window_of_apart hforward hc hd hab

/-- Three ramps in no order, two of which touch, of a source that is trimmed in two of them and
shown half as fast again. -/
theorem rampProblems_eq_nil_of_touching :
    let ramps : List ZoomRamp :=
      [{ startMs := 3000, endMs := 5000, zoomStart := 2, zoomEnd := 1 },
        { startMs := 0, endMs := 2001, zoomStart := 1, zoomEnd := 1.5 },
        { startMs := 2001, endMs := 2500, zoomStart := 1.5, zoomEnd := 1.5 }]
    let t : Timeline := ⟨1000, 4000, 1.5, by decide⟩
    let windows := (ramps.filterMap (·.toClip? t)).map (·.window)
    rampProblems ramps = [] ∧ windows = [⟨1333, 2000⟩, ⟨0, 667⟩, ⟨667, 1000⟩] ∧
      windows.Pairwise fun v w => Disjoint v.instants w.instants := by
  intro ramps t windows
  have haccepted : rampProblems ramps = [] :=
    rampProblems_eq_nil_iff.mpr ⟨by decide +kernel, by decide +kernel⟩
  have hspeed : t.speed.Positive := by decide +kernel
  exact ⟨haccepted, by decide +kernel,
    ((rampProblems_eq_nil_iff_disjoint ramps).2 haccepted t hspeed).2⟩

/-! ## What changes evenly -/

/-- The value at `x` of what changes evenly from `first` at `a` to `last` at `b`, before and after
these, too. -/
def evenly (a b first last x : Rat) : Rat := first + (last - first) * ((x - a) / (b - a))

/-- What changes evenly is no further off anything else that does than at the ends. -/
theorem abs_evenly_sub_le {a b first last bound slope x : Rat} (other : Rat → Rat) (hab : a < b)
    (hother : ∀ x y, other y - other x = slope * (y - x)) (hfirst : |first - other a| ≤ bound)
    (hlast : |last - other b| ≤ bound) (hlow : a ≤ x) (hhigh : x ≤ b) :
    |evenly a b first last x - other x| ≤ bound := by
  have hspan : 0 < b - a := sub_pos.mpr hab
  obtain ⟨share, hshare⟩ : ∃ share, (x - a) / (b - a) = share := ⟨_, rfl⟩
  have hpart : x - a = share * (b - a) := by rw [← hshare, div_mul_cancel₀ _ hspan.ne']
  have hzero : 0 ≤ share := hshare ▸ div_nonneg (sub_nonneg.mpr hlow) hspan.le
  have hone : share ≤ 1 := hshare ▸ (div_le_one hspan).mpr (by linarith)
  have hmiddle : other x = other a + (other b - other a) * share := by
    rw [hother a b, ← sub_eq_iff_eq_add', hother a x, hpart]
    ring
  calc |evenly a b first last x - other x|
      = |(1 - share) * (first - other a) + share * (last - other b)| := by
        rw [evenly, hshare, hmiddle]
        ring_nf
    _ ≤ |(1 - share) * (first - other a)| + |share * (last - other b)| := abs_add_le _ _
    _ = (1 - share) * |first - other a| + share * |last - other b| := by
        rw [abs_mul, abs_mul, abs_of_nonneg hzero, abs_of_nonneg (sub_nonneg.mpr hone)]
    _ ≤ (1 - share) * bound + share * bound :=
        add_le_add (mul_le_mul_of_nonneg_left hfirst (sub_nonneg.mpr hone))
          (mul_le_mul_of_nonneg_left hlast hzero)
    _ = bound := by ring

/-- The value of a ramp of the clip at an instant of the clip. -/
def ClipRamp.valueAt (c : ClipRamp) (clipMs : Rat) : Rat :=
  evenly c.window.startMs c.window.endMs c.zoomStart.toRat c.zoomEnd.toRat clipMs

namespace ZoomRamp

/-- The value of a ramp of the edit at an instant of the source. -/
def valueAt (r : ZoomRamp) (sourceMs : Rat) : Rat :=
  evenly r.startMs r.endMs r.zoomStart.toRat r.zoomEnd.toRat sourceMs

/-- How much a ramp of the edit changes over a millisecond of the clip. -/
def change (r : ZoomRamp) (t : Timeline) : Rat :=
  |r.valueAt (t.sourceAt 1) - r.valueAt (t.sourceAt 0)|

/-- A ramp of the clip that follows one of the edit over its window, to within what that changes
over a millisecond of the clip. -/
def Follows (t : Timeline) (r : ZoomRamp) (c : ClipRamp) : Prop :=
  ∀ clipMs : Rat, c.window.startMs ≤ clipMs → clipMs ≤ c.window.endMs →
    |c.valueAt clipMs - r.valueAt (t.sourceAt clipMs)| ≤ r.change t + 1 / 10 ^ 9

variable {r : ZoomRamp} {t : Timeline}

/-- Over the clip a ramp of the edit changes evenly. -/
theorem valueAt_sourceAt_sub (r : ZoomRamp) (t : Timeline) (x y : Rat) :
    r.valueAt (t.sourceAt y) - r.valueAt (t.sourceAt x) =
      (r.valueAt (t.sourceAt 1) - r.valueAt (t.sourceAt 0)) * (y - x) := by
  simp only [valueAt, evenly, Timeline.sourceAt]
  ring

/-! ## The zoom of a ramp where it is cut -/

section Cut

open Binary64 (rounded)

variable {instantMs : Nat}

/-- How far into a ramp an instant of it is. -/
theorem has_share (hrange : r.startMs < r.endMs) (hstart : r.startMs ≤ instantMs)
    (hend : instantMs ≤ r.endMs) (hshort : r.endMs < 2 ^ 53) :
    let share : Binary64 := .ofNat (instantMs - r.startMs) / .ofNat (r.endMs - r.startMs)
    ∃ s, ((share.clamp? 0 1).getD share).Has s ∧ 0 ≤ s ∧ s ≤ 1 ∧
      |s - ((instantMs : Rat) - r.startMs) / (r.endMs - r.startMs)| ≤ 1 / 2 ^ 53 := by
  intro share
  have hpart := Binary64.has_ofNat (n := instantMs - r.startMs) (by norm_num at hshort ⊢; omega)
  have hspan := Binary64.has_ofNat (n := r.endMs - r.startMs) (by norm_num at hshort ⊢; omega)
  rw [Nat.cast_sub hstart] at hpart
  rw [Nat.cast_sub hrange.le] at hspan
  have hspan_pos : (0 : Rat) < r.endMs - r.startMs := sub_pos.mpr (by exact_mod_cast hrange)
  have hpart_nonneg : (0 : Rat) ≤ instantMs - r.startMs :=
    sub_nonneg.mpr (by exact_mod_cast hstart)
  have hpart_le : (instantMs : Rat) - r.startMs ≤ r.endMs - r.startMs :=
    sub_le_sub_right (by exact_mod_cast hend) _
  have hzero := div_nonneg hpart_nonneg hspan_pos.le
  have hone := (div_le_one hspan_pos).mpr hpart_le
  obtain ⟨q, hq⟩ : ∃ q, ((instantMs : Rat) - r.startMs) / (r.endMs - r.startMs) = q := ⟨_, rfl⟩
  rw [hq] at hzero hone ⊢
  have hlow := Binary64.rounded_nonneg hzero
  have hhigh : rounded q ≤ 1 := by simpa using Binary64.rounded_le_two_pow (k := 0) (by simpa)
  have hshare := hpart.div hspan hspan_pos.ne'
    (by rw [hq, abs_of_nonneg hlow]; exact hhigh.trans_lt (by decide +kernel))
  rw [hq] at hshare
  rw [hshare.clamp?_eq Binary64.has_zero Binary64.has_one hlow hhigh]
  refine ⟨rounded q, hshare, hlow, hhigh, ?_⟩
  refine (Binary64.abs_rounded_sub_le (k := 1) ?_).trans_eq (by norm_num)
  rw [abs_of_nonneg hzero]
  linarith

/-- A sum or product of zooms stays below its bound when it is rounded, and near. -/
theorem rounded_spec {q : Rat} {k : Nat} (hk : k ≤ 17) (h : |q| ≤ 2 ^ k) :
    |rounded q| ≤ 2 ^ k ∧ |rounded q - q| ≤ 1 / 2 ^ 36 ∧ |rounded q| < Binary64.overflow := by
  have hle : (2 : Rat) ^ k ≤ 2 ^ 17 := pow_le_pow_right₀ (by norm_num) hk
  have hkept : |rounded q| ≤ 2 ^ k := by
    rw [Binary64.abs_rounded]
    exact Binary64.rounded_le_two_pow h
  have hnear := Binary64.abs_rounded_sub_le (k := 18) (h.trans (hle.trans (by norm_num)))
  exact ⟨hkept, hnear.trans_eq (by norm_num),
    (hkept.trans hle).trans_lt (by decide +kernel)⟩

/-- The zoom of a ramp at an instant of it, rounded four times, is hardly off its value there. -/
theorem abs_zoomAt_sub_valueAt_le (hrange : r.startMs < r.endMs) (hstart : r.startMs ≤ instantMs)
    (hend : instantMs ≤ r.endMs) (hshort : r.endMs < 2 ^ 53)
    (hfirst : r.zoomStart.Within 1 (2 ^ 16)) (hlast : r.zoomEnd.Within 1 (2 ^ 16)) :
    |(r.zoomAt instantMs).toRat - r.valueAt instantMs| ≤ 1 / 10 ^ 9 := by
  obtain ⟨s, hshare, hs, hs', hnear⟩ := has_share hrange hstart hend hshort
  obtain ⟨hfinite, ha, ha'⟩ := hfirst
  obtain ⟨hfinite', hb, hb'⟩ := hlast
  have hfirst := Binary64.has_toRat hfinite
  have hlast := Binary64.has_toRat hfinite'
  rw [valueAt, evenly]
  revert ha ha' hb hb' hfirst hlast hnear
  generalize r.zoomStart.toRat = a
  generalize r.zoomEnd.toRat = b
  generalize ((instantMs : Rat) - r.startMs) / (r.endMs - r.startMs) = q
  intro hnear ha ha' hb hb' hfirst hlast
  have hspan : |b - a| ≤ 2 ^ 16 := abs_le.mpr ⟨by linarith, by linarith⟩
  obtain ⟨hbound, hchange_near, hsmall⟩ := rounded_spec (by decide) hspan
  have hchange := hlast.sub hfirst hsmall
  generalize rounded (b - a) = change at hbound hchange_near hchange
  have hpart_le : |change * s| ≤ 2 ^ 16 := by
    rw [abs_mul, abs_of_nonneg hs]
    exact (mul_le_of_le_one_right (abs_nonneg _) hs').trans hbound
  obtain ⟨hbound', hpart_near, hsmall'⟩ := rounded_spec (by decide) hpart_le
  have hpart := hchange.mul hshare hsmall'
  generalize rounded (change * s) = part at hbound' hpart_near hpart
  have hzoom_le : |a + part| ≤ 2 ^ 17 := by
    obtain ⟨hlow, hhigh⟩ := abs_le.mp hbound'
    exact abs_le.mpr ⟨by linarith, by linarith⟩
  obtain ⟨-, hzoom_near, hsmall''⟩ := rounded_spec le_rfl hzoom_le
  have hzoom := hfirst.add hpart hsmall''
  rw [zoomAt, hzoom.toRat_eq]
  generalize rounded (a + part) = zoom at hzoom_near
  calc |zoom - (a + (b - a) * q)|
      = |(zoom - (a + part)) + (part - change * s) + (change - (b - a)) * s +
          (b - a) * (s - q)| := by
        ring_nf
    _ ≤ |zoom - (a + part)| + |part - change * s| + |(change - (b - a)) * s| +
          |(b - a) * (s - q)| := by
        refine (abs_add_le _ _).trans (add_le_add_left ((abs_add_le _ _).trans ?_) _)
        exact add_le_add_left (abs_add_le _ _) _
    _ ≤ 1 / 2 ^ 36 + 1 / 2 ^ 36 + 1 / 2 ^ 36 + 2 ^ 16 * (1 / 2 ^ 53) := by
        refine add_le_add (add_le_add (add_le_add hzoom_near hpart_near) ?_) ?_
        · rw [abs_mul, abs_of_nonneg hs]
          exact (mul_le_of_le_one_right (abs_nonneg _) hs').trans hchange_near
        · rw [abs_mul]
          exact mul_le_mul hspan hnear (abs_nonneg _) (by norm_num)
    _ ≤ 1 / 10 ^ 9 := by norm_num

end Cut

/-! ## Over the window -/

/-- The zoom at an end of the window, which is off by at most a millisecond of the clip. -/
theorem abs_sub_valueAt_sourceAt_le {zoom exactMs clipMs : Rat}
    (hzoom : |zoom - r.valueAt (t.sourceAt exactMs)| ≤ 1 / 10 ^ 9)
    (hclip : |clipMs - exactMs| ≤ 1) :
    |zoom - r.valueAt (t.sourceAt clipMs)| ≤ r.change t + 1 / 10 ^ 9 := by
  have hmoved : |r.valueAt (t.sourceAt exactMs) - r.valueAt (t.sourceAt clipMs)| ≤ r.change t := by
    rw [valueAt_sourceAt_sub, abs_mul, abs_sub_comm exactMs]
    exact mul_le_of_le_one_right (abs_nonneg _) hclip
  have hsum := abs_sub_le zoom (r.valueAt (t.sourceAt exactMs)) (r.valueAt (t.sourceAt clipMs))
  linarith

/-- Before it is rounded, a clip time shows the source instant moved into the trimmed range. -/
theorem sourceAt_exact (h : t.Forward) (instantMs : Nat) :
    t.sourceAt (t.exact instantMs) = clampNat t.trimStartMs t.trimEndMs instantMs := by
  have hspeed := (Binary64.toRat_pos h.finite h.positive).1.ne'
  rw [Timeline.sourceAt, Timeline.exact, div_mul_cancel₀ _ hspeed, Timeline.elapsed,
    Nat.cast_sub (le_clampNat t.ordered _)]
  ring

/-- The instants at which a ramp that is shown is cut are its ends moved into the trimmed range,
and they belong to the ramp. -/
theorem cut_of_overlaps (hrange : r.startMs < r.endMs) (h : t.overlaps r.startMs r.endMs) :
    let moved := clampNat t.trimStartMs t.trimEndMs
    max r.startMs t.trimStartMs = moved r.startMs ∧ min r.endMs t.trimEndMs = moved r.endMs ∧
      (r.startMs ≤ moved r.startMs ∧ moved r.startMs ≤ r.endMs) ∧
      (r.startMs ≤ moved r.endMs ∧ moved r.endMs ≤ r.endMs) := by
  simp only [Timeline.overlaps, Bool.and_eq_true, decide_eq_true_eq] at h
  have hordered := t.ordered
  simp only [clampNat]
  omega

/-- A ramp that is shown follows the one of the edit, whichever of its edges are cut. -/
theorem follows_of_shown {c : ClipRamp} (h : t.Forward) (hp : t.Precise)
    (hrange : r.startMs < r.endMs) (hshort : r.endMs < 2 ^ 53)
    (hfirst : r.zoomStart.Within 1 (2 ^ 16)) (hlast : r.zoomEnd.Within 1 (2 ^ 16))
    (hshows : t.shows r.startMs r.endMs) (hwindow : c.window = t.windowOf r.startMs r.endMs)
    (hshown : r.Shown t c) : r.Follows t c := by
  intro clipMs hlow hhigh
  obtain ⟨w, hw⟩ :=
    Option.isSome_iff_exists.mp ((Timeline.isSome_window? h hrange.le).trans hshows)
  obtain ⟨hoverlaps, hlt, -⟩ := Timeline.window?_eq_some.mp hw
  obtain ⟨hcutstart, hcutend, ⟨hstart, hstart'⟩, hend, hend'⟩ := cut_of_overlaps hrange hoverlaps
  have hzoom {instantMs : Nat} (hlow : r.startMs ≤ clampNat t.trimStartMs t.trimEndMs instantMs)
      (hhigh : clampNat t.trimStartMs t.trimEndMs instantMs ≤ r.endMs) :
      |(r.zoomAt (clampNat t.trimStartMs t.trimEndMs instantMs)).toRat -
        r.valueAt (t.sourceAt (t.toClip instantMs))| ≤ r.change t + 1 / 10 ^ 9 := by
    refine abs_sub_valueAt_sourceAt_le ?_ (Timeline.abs_toClip_sub_exact_le h hp instantMs)
    rw [sourceAt_exact h]
    exact abs_zoomAt_sub_valueAt_le hrange hlow hhigh hshort hfirst hlast
  have hstartzoom := hzoom hstart hstart'
  have hendzoom := hzoom hend hend'
  rw [← hcutstart, ← hshown.1] at hstartzoom
  rw [← hcutend, ← hshown.2] at hendzoom
  rw [hwindow, Timeline.windowOf] at hlow hhigh
  rw [ClipRamp.valueAt, hwindow, Timeline.windowOf]
  exact abs_evenly_sub_le (fun clipMs => r.valueAt (t.sourceAt clipMs)) (Nat.cast_lt.mpr hlt)
    (valueAt_sourceAt_sub r t) hstartzoom hendzoom hlow hhigh

end ZoomRamp

/-! ## The ramps of an accepted edit -/

namespace Clip

/-- Each ramp of an accepted edit that is shown is followed in the clip. This takes times and zooms
that are not too great. -/
theorem ramps_ofEdit {e : Edit} {clip : Clip} (hclip : ofEdit e = .ok clip)
    (htrim : e.trimEndMs < 2 ^ 50) (hduration : clip.durationMs < 2 ^ 50)
    (hramps : ∀ r ∈ e.ramps,
      r.endMs < 2 ^ 50 ∧ r.zoomStart.toRat < 2 ^ 16 ∧ r.zoomEnd.toRat < 2 ^ 16) :
    ∃ ordered, let t := e.timeline ordered
      Forall₂ (ZoomRamp.Follows t) (e.ramps.filter fun r => t.shows r.startMs r.endMs)
        clip.ramps := by
  obtain ⟨ordered, hmoved⟩ := moved_ofEdit hclip
  have hproblems := (ofEdit_eq_ok hclip).1
  have hforward := (Edit.timely_of_problems hproblems).forward ordered
  have hprecise : (e.timeline ordered).Precise := by
    refine ⟨(Nat.sub_le _ _).trans_lt (htrim.trans (by norm_num)), ?_⟩
    rw [← hmoved.duration]
    exact hduration.trans (by norm_num)
  refine ⟨ordered, ((List.forall₂_and_left _ _).mpr ⟨fun r hr => List.mem_filter.mp hr,
    hmoved.ramps⟩).imp ?_⟩
  rintro r c ⟨⟨hr, hshows⟩, hwindow, hshown⟩
  obtain ⟨hrange, hfirst, hlast⟩ := (Edit.problems_eq_nil_iff.mp hproblems).ramps r hr
  obtain ⟨hend, hfirst_lt, hlast_lt⟩ := hramps r hr
  exact ZoomRamp.follows_of_shown hforward hprecise hrange (hend.trans (by norm_num))
    ⟨hfirst.1, hfirst.2, hfirst_lt.le⟩ ⟨hlast.1, hlast.2, hlast_lt.le⟩ hshows hwindow hshown

/-- Three seconds shown in two, with a ramp that has begun before them and ends after them. -/
theorem ramps_ofEdit_of_long_ramp :
    let e : Edit :=
      { sourcePath := "/media/talk.mp4", trimStartMs := 1000, trimEndMs := 4000,
        canvas := .portrait, speed := 1.5, ramps := [⟨333, 4801, 1, 2.3⟩] }
    ∃ clip, ofEdit e = .ok clip ∧ ∃ ordered,
      Forall₂ (ZoomRamp.Follows (e.timeline ordered)) e.ramps clip.ramps := by
  intro e
  have hok : (ofEdit e).toOption.map (·.durationMs) = some 2000 := by decide +kernel
  have hall : (e.ramps.filter fun r => (e.timeline (by decide)).shows r.startMs r.endMs) =
      e.ramps := by
    decide +kernel
  obtain ⟨clip, hclip, hduration⟩ := Outcome.exists_of_map hok
  obtain ⟨ordered, hfollows⟩ := ramps_ofEdit hclip (by decide) (by rw [hduration]; decide)
    (by decide +kernel)
  dsimp only at hfollows
  rw [hall] at hfollows
  exact ⟨clip, hclip, ordered, hfollows⟩

end Clip

end Montage
