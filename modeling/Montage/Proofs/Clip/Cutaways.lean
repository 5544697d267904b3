import Mathlib.Tactic.FieldSimp
import Montage.Proofs.Clip.Layers
import Montage.Proofs.Clip.Windows

/-! # Cutaways in step with the source

A cutaway is played at its own speed, so in a clip at some speed its file runs on by a quotient of
the source time. What the trim cuts off its beginning is skipped in milliseconds of the source,
though. A cutaway that is not cut keeps in step with the source, and one that is cut runs ahead of
it (or behind, in a clip slower than the source) by the part cut off less its quotient. -/

namespace Montage

open List (Forall₂)

/-- The source instant that is shown at an instant of the clip. -/
def Timeline.sourceAt (t : Timeline) (clipMs : Rat) : Rat :=
  t.trimStartMs + clipMs * t.speed.toRat

/-- The instant of its own file that a cutaway of the clip shows at an instant of the clip. -/
def ClipCutaway.mediaAt (m : ClipCutaway) (clipMs : Rat) : Rat :=
  m.offsetMs + (clipMs - m.window.startMs)

namespace Cutaway

/-- The instant of its own file that a cutaway of the edit shows over a source instant. -/
def mediaAt (c : Cutaway) (t : Timeline) (sourceMs : Rat) : Rat :=
  c.offsetMs + (sourceMs - c.startMs) / t.speed.toRat

/-- What the trim cuts off the beginning of a cutaway, in the source. -/
def cutMs (c : Cutaway) (t : Timeline) : Nat := t.trimStartMs - c.startMs

/-- By how much a cutaway of the clip is ahead of that of the edit at an instant of the clip. -/
def lead (c : Cutaway) (t : Timeline) (m : ClipCutaway) (clipMs : Rat) : Rat :=
  m.mediaAt clipMs - c.mediaAt t (t.sourceAt clipMs)

/-- A cutaway that keeps in step with the source, to within two milliseconds. -/
def InStep (t : Timeline) (c : Cutaway) (m : ClipCutaway) : Prop :=
  ∀ clipMs : Rat, m.window.startMs ≤ clipMs → clipMs < m.window.endMs → |c.lead t m clipMs| ≤ 2

/-- By how much a cutaway is ahead: by the part cut off less its quotient by the speed if the trim
cuts it, else by no more than clip times are rounded. -/
structure Leads (t : Timeline) (c : Cutaway) (m : ClipCutaway) : Prop where
  cut : c.startMs < t.trimStartMs →
    ∀ clipMs, c.lead t m clipMs = c.cutMs t - c.cutMs t / t.speed.toRat
  uncut : t.trimStartMs ≤ c.startMs → t.Precise → ∀ clipMs, |c.lead t m clipMs| ≤ 1
  inStep_iff : c.startMs < t.trimStartMs ∨ t.Precise →
    (c.InStep t m ↔ |(c.cutMs t : Rat) - c.cutMs t / t.speed.toRat| ≤ 2)

section Lead

variable {t : Timeline} {c : Cutaway} {m : ClipCutaway}

/-- A cutaway is ahead by the same time at all instants. -/
theorem lead_eq (h : t.Forward) (clipMs : Rat) :
    c.lead t m clipMs = m.offsetMs - c.offsetMs - m.window.startMs -
      ((t.trimStartMs : Rat) - c.startMs) / t.speed.toRat := by
  have hspeed := (Binary64.toRat_pos h.finite h.positive).1.ne'
  simp only [lead, ClipCutaway.mediaAt, mediaAt, Timeline.sourceAt]
  field_simp
  ring

theorem lead_of_cut (h : t.Forward) (hcut : c.startMs < t.trimStartMs)
    (hoffset : m.offsetMs = c.offsetMs + c.cutMs t) (hstart : m.window.startMs = t.toClip c.startMs)
    (clipMs : Rat) : c.lead t m clipMs = c.cutMs t - c.cutMs t / t.speed.toRat := by
  have hzero : t.toClip c.startMs = 0 := by
    refine Timeline.toClip_eq_zero h ?_
    simp only [Timeline.elapsed, clampNat]
    omega
  have hvalue : (c.cutMs t : Rat) = t.trimStartMs - c.startMs := Nat.cast_sub hcut.le
  rw [lead_eq h, hoffset, hstart, hzero, ← hvalue]
  push_cast
  ring

theorem abs_lead_of_uncut (h : t.Forward) (hp : t.Precise) (huncut : t.trimStartMs ≤ c.startMs)
    (hend : c.startMs < t.trimEndMs) (hoffset : m.offsetMs = c.offsetMs)
    (hstart : m.window.startMs = t.toClip c.startMs) (clipMs : Rat) : |c.lead t m clipMs| ≤ 1 := by
  have helapsed : (t.elapsed c.startMs : Rat) = c.startMs - t.trimStartMs := by
    rw [Timeline.elapsed, clampNat, max_eq_right huncut, min_eq_left hend.le, Nat.cast_sub huncut]
  have hlead : c.lead t m clipMs = -((t.toClip c.startMs : Rat) - t.exact c.startMs) := by
    rw [lead_eq h, hoffset, hstart, Timeline.exact, helapsed]
    ring
  rw [hlead, abs_neg]
  exact Timeline.abs_toClip_sub_exact_le h hp _

/-- A cutaway that is ahead by the same time at all instants is in step exactly if that time is
short enough. -/
theorem inStep_iff_of_lead {lead : Rat} (hwindow : m.window.startMs < m.window.endMs)
    (hlead : ∀ clipMs, c.lead t m clipMs = lead) : c.InStep t m ↔ |lead| ≤ 2 := by
  constructor
  · intro hstep
    rw [← hlead m.window.startMs]
    exact hstep _ le_rfl (by exact_mod_cast hwindow)
  · intro hle clipMs _ _
    rwa [hlead]

theorem leads_of_shown (h : t.Forward) (hle : c.startMs ≤ c.endMs)
    (hshows : t.shows c.startMs c.endMs) (hwindow : m.window = t.windowOf c.startMs c.endMs)
    (hshown : c.Shown t m) (hsum : c.offsetMs + c.cutMs t ≤ Binary64.top64) : c.Leads t m := by
  have hstart : m.window.startMs = t.toClip c.startMs := by rw [hwindow, Timeline.windowOf]
  have hoffset : m.offsetMs = c.offsetMs + c.cutMs t := hshown.2.1.trans (Nat.min_eq_left hsum)
  obtain ⟨w, hw⟩ := Option.isSome_iff_exists.mp ((Timeline.isSome_window? h hle).trans hshows)
  obtain ⟨hoverlaps, hlt, rfl⟩ := Timeline.window?_eq_some.mp hw
  have hend : c.startMs < t.trimEndMs := by
    simp only [Timeline.overlaps, Bool.and_eq_true, decide_eq_true_eq] at hoverlaps
    exact hoverlaps.2
  have hnonempty : m.window.startMs < m.window.endMs := by rwa [hwindow]
  have huncut (hcut : t.trimStartMs ≤ c.startMs) : c.cutMs t = 0 := Nat.sub_eq_zero_of_le hcut
  refine ⟨fun hcut => lead_of_cut h hcut hoffset hstart, fun hcut hp => ?_, fun hknown => ?_⟩
  · rw [huncut hcut, Nat.add_zero] at hoffset
    exact abs_lead_of_uncut h hp hcut hend hoffset hstart
  · rcases lt_or_ge c.startMs t.trimStartMs with hcut | hcut
    · exact inStep_iff_of_lead hnonempty (lead_of_cut h hcut hoffset hstart)
    · rw [huncut hcut] at hoffset ⊢
      refine iff_of_true (fun clipMs _ _ => ?_) (by simp)
      have hp := hknown.resolve_left hcut.not_gt
      exact (abs_lead_of_uncut h hp hcut hend hoffset hstart clipMs).trans (by norm_num)

end Lead

end Cutaway

/-! ## The cutaways of an accepted edit -/

namespace Clip

/-- Each cutaway of an accepted edit that is shown is ahead of the source by what the trim cuts off
it less its quotient by the speed, and so keeps in step exactly if that is at most two
milliseconds. For a cutaway that is not cut this takes a clip that is not too long. -/
theorem cutaways_ofEdit {e : Edit} {clip : Clip} (hclip : ofEdit e = .ok clip) :
    ∃ ordered, let t := e.timeline ordered
      Forall₂ (fun c m => c.offsetMs + c.cutMs t ≤ Binary64.top64 → Cutaway.Leads t c m)
        (e.cutaways.filter fun c => t.shows c.startMs c.endMs) clip.cutaways := by
  obtain ⟨ordered, hmoved⟩ := moved_ofEdit hclip
  have htimely := Edit.timely_of_problems (ofEdit_eq_ok hclip).1
  have hlisted : ∀ c ∈ e.cutaways.filter fun c => (e.timeline ordered).shows c.startMs c.endMs,
      c ∈ e.cutaways ∧ (e.timeline ordered).shows c.startMs c.endMs :=
    fun c hc => List.mem_filter.mp hc
  refine ⟨ordered, ((List.forall₂_and_left _ _).mpr ⟨hlisted, hmoved.cutaways⟩).imp ?_⟩
  rintro c m ⟨⟨hc, hshows⟩, hwindow, hshown⟩ hsum
  exact Cutaway.leads_of_shown (htimely.forward ordered) (htimely.cutaways c hc).le hshows hwindow
    hshown hsum

/-- Ten seconds shown in five, with a cutaway that begins two seconds before them and one that
begins in them. -/
theorem cutaways_ofEdit_of_early :
    let e : Edit :=
      { sourcePath := "/media/talk.mp4", trimStartMs := 10000, trimEndMs := 20000,
        canvas := .portrait, speed := 2,
        cutaways := [{ path := "/media/early.mp4", startMs := 8000, endMs := 14000 },
          { path := "/media/late.mp4", startMs := 15000, endMs := 18000, offsetMs := 500 }] }
    ∃ clip, ofEdit e = .ok clip ∧ ∃ ordered, let t := e.timeline ordered
      t.Precise ∧ Forall₂ (Cutaway.Leads t) e.cutaways clip.cutaways := by
  intro e
  have hok : (ofEdit e).toOption.map (·.durationMs) = some 5000 := by decide +kernel
  have hall : (e.cutaways.filter fun c => (e.timeline (by decide)).shows c.startMs c.endMs) =
      e.cutaways := by
    decide +kernel
  have hsums : ∀ c ∈ e.cutaways,
      c.offsetMs + c.cutMs (e.timeline (by decide)) ≤ Binary64.top64 := by
    decide +kernel
  have hprecise : (e.timeline (by decide)).Precise := ⟨by decide, by decide +kernel⟩
  obtain ⟨clip, hclip, -⟩ := Outcome.exists_of_map hok
  obtain ⟨ordered, hleads⟩ := cutaways_ofEdit hclip
  dsimp only at hleads
  rw [hall] at hleads
  exact ⟨clip, hclip, ordered, hprecise,
    ((List.forall₂_and_left _ _).mpr ⟨hsums, hleads⟩).imp fun c m h => h.2 h.1⟩

/-- The early cutaway begins with its third second, though only its first one has been played when
the clip begins. -/
theorem not_inStep_of_early :
    let e : Edit :=
      { sourcePath := "/media/talk.mp4", trimStartMs := 10000, trimEndMs := 20000,
        canvas := .portrait, speed := 2,
        cutaways := [{ path := "/media/early.mp4", startMs := 8000, endMs := 14000 }] }
    let t : Timeline := e.timeline (by decide)
    ∃ clip, ofEdit e = .ok clip ∧
      ¬ Forall₂ (Cutaway.InStep t) (e.cutaways.filter fun c => t.shows c.startMs c.endMs)
        clip.cutaways := by
  intro e t
  have hall : (e.cutaways.filter fun c => t.shows c.startMs c.endMs) = e.cutaways := by
    decide +kernel
  have hmoved : (ofEdit e).toOption.map (fun clip =>
      clip.cutaways.map fun m => (m.window, m.offsetMs)) = some [(⟨0, 2000⟩, 2000)] := by
    decide +kernel
  have hspeed : t.speed.toRat = 2 := by decide +kernel
  obtain ⟨clip, hclip, hcutaways⟩ := Outcome.exists_of_map hmoved
  refine ⟨clip, hclip, fun hstep => ?_⟩
  obtain ⟨m, hm, hparts⟩ := List.map_eq_singleton_iff.mp hcutaways
  obtain ⟨hwindow, hoffset⟩ := Prod.mk.inj hparts
  rw [hall, hm, List.forall₂_cons] at hstep
  have hbegin := hstep.1 0 (by rw [hwindow]; simp) (by rw [hwindow]; norm_num)
  simp only [Cutaway.lead, ClipCutaway.mediaAt, Cutaway.mediaAt, Timeline.sourceAt, hwindow,
    hoffset, hspeed] at hbegin
  norm_num [t, e, Edit.timeline] at hbegin

end Clip

end Montage
