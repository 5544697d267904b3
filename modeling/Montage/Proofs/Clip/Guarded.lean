import Mathlib.Data.List.ReduceOption
import Montage.Proofs.Clip.Layers
import Montage.Proofs.Edit.Geometry

/-! # Every step of the translation can be taken

Clip times come from differences and from numbers moved between bounds. Below, a difference is only
there if it is not below zero, and moving only if the bounds are in order. The rules leave no step
out, so that the clip that is made with guarded steps is the clip. -/

namespace Montage

/-! ## The translation with guarded steps -/

namespace Edit

/-- The clip time of a source instant. -/
def guardedTime? (e : Edit) (instantMs : Nat) : Option Nat := do
  let moved ← Limits.clamp? instantMs e.trimStartMs e.trimEndMs
  let elapsed ← Limits.minus? moved e.trimStartMs
  return (.ofNat elapsed / e.speed : Binary64).round.toNat64

/-- What is made of the window of a source range; the inner `none` stands for a range that is not
shown. -/
def guardedLayer? {α : Type} (e : Edit) (startMs endMs : Nat) (make : Window → Option α) :
    Option (Option α) :=
  if e.trimStartMs < endMs ∧ startMs < e.trimEndMs then do
    let first ← e.guardedTime? startMs
    let last ← e.guardedTime? endMs
    if first < last then (make ⟨first, last⟩).map some else some none
  else some none

end Edit

/-- The zoom of a ramp at a source instant. -/
def ZoomRamp.guardedZoom? (r : ZoomRamp) (instantMs : Nat) : Option Binary64 := do
  let span ← Limits.minus? r.endMs r.startMs
  let share ← (.ofNat (instantMs - r.startMs) / .ofNat span : Binary64).clamp? 0 1
  return r.zoomStart + (r.zoomEnd - r.zoomStart) * share

/-- A ramp in clip time. -/
def ZoomRamp.guarded? (e : Edit) (r : ZoomRamp) : Option (Option ClipRamp) :=
  e.guardedLayer? r.startMs r.endMs fun window => do
    return {
      window
      zoomStart := ← r.guardedZoom? (max r.startMs e.trimStartMs)
      zoomEnd := ← r.guardedZoom? (min r.endMs e.trimEndMs) }

/-- A cutaway in clip time. -/
def Cutaway.guarded? (e : Edit) (c : Cutaway) : Option (Option ClipCutaway) :=
  e.guardedLayer? c.startMs c.endMs fun window => do
    return {
      path := c.path
      window
      offsetMs := addMs c.offsetMs (e.trimStartMs - c.startMs)
      placement := ← (c.placement.getD .full).clamped?
      opacity := c.opacity }

/-- A sticker in clip time. -/
def Sticker.guarded? (e : Edit) (s : Sticker) : Option (Option ClipSticker) :=
  e.guardedLayer? s.startMs s.endMs fun window => do
    return { source := s.source, window, placement := ← s.placement.clamped? }

/-- A word in clip time, inside the window of its segment. -/
def TimedWord.guarded? (e : Edit) (segment : Window) (w : TimedWord) : Option (Option ClipWord) :=
  e.guardedLayer? w.startMs (max w.endMs (addMs w.startMs 1)) fun window => do
    let first ← Limits.clamp? window.startMs segment.startMs segment.endMs
    let last ← Limits.clamp? window.endMs segment.startMs segment.endMs
    return { text := w.text, window := ⟨first, last⟩ }

/-- A segment in clip time. -/
def Segment.guarded? (e : Edit) (s : Segment) : Option (Option ClipSegment) :=
  e.guardedLayer? s.startMs s.endMs fun window => do
    let words ← s.words.mapM (·.guarded? e window)
    return {
      text := s.text
      window
      words := words.reduceOption.filter fun w => Text.trim w.text ≠ ""
      startsInClip := e.trimStartMs ≤ s.startMs && s.startMs < e.trimEndMs }

namespace Clip

/-- The clip of an edit whose length and layers are known. -/
def ofParts (e : Edit) (durationMs : Nat) (ramps : List ClipRamp) (cutaways : List ClipCutaway)
    (stickers : List ClipSticker) (segments : List ClipSegment) : Clip :=
  { ofLayers e ⟨0, 0, e.speed, le_rfl⟩ cutaways stickers with durationMs, ramps, segments }

/-- The clip of an edit; there is no outcome when a step cannot be taken. -/
def guarded? (e : Edit) : Option (Outcome Clip) :=
  match e.problems with
  | problem :: _ => some (.fail (.graph problem.message))
  | [] => do
      let durationMs ← e.guardedTime? e.trimEndMs
      if durationMs = 0 then return .fail (.graph Problem.noDuration.message)
      else
        let ramps ← e.ramps.mapM (·.guarded? e)
        let cutaways ← e.cutaways.mapM (·.guarded? e)
        let stickers ← e.stickers.mapM (·.guarded? e)
        let segments ← e.segments.mapM (·.guarded? e)
        return .ok (ofParts e durationMs ramps.reduceOption cutaways.reduceOption
          stickers.reduceOption segments.reduceOption)

end Clip

/-! ## No step is left out -/

theorem Limits.clamp?_of_le {n low high : Nat} (h : low ≤ high) :
    Limits.clamp? n low high = some (clampNat low high n) := by
  rw [Limits.clamp?, if_pos h, clampNat, Nat.max_comm]

/-- Steps that all can be taken are a map. -/
theorem mapM_eq_some_map {α β : Type} {f : α → Option β} {g : α → β} {xs : List α}
    (h : ∀ x ∈ xs, f x = some (g x)) : xs.mapM f = some (xs.map g) := by
  induction xs with
  | nil => rfl
  | cons x xs ih =>
      obtain ⟨hx, hxs⟩ := List.forall_mem_cons.mp h
      rw [List.mapM_cons, hx, ih hxs]
      rfl

theorem reduceOption_map_eq_filterMap {α β : Type} (f : α → Option β) (xs : List α) :
    (xs.map f).reduceOption = xs.filterMap f := by
  rw [List.reduceOption, List.filterMap_map, Function.id_comp]

section Steps

variable {e : Edit} (ordered : e.trimStartMs ≤ e.trimEndMs)

theorem Edit.guardedTime?_eq (instantMs : Nat) :
    e.guardedTime? instantMs = some ((e.timeline ordered).toClip instantMs) := by
  rw [guardedTime?, Limits.clamp?_of_le ordered, Option.bind_eq_bind, Option.bind_some,
    Limits.minus?_of_le (le_clampNat ordered _)]
  rfl

/-- What can be made of each window can be made of a source range. -/
theorem Edit.guardedLayer?_eq {α : Type} {startMs endMs : Nat} {make : Window → Option α}
    (layer : Window → α) (h : ∀ w, (e.timeline ordered).window? startMs endMs = some w →
      make w = some (layer w)) :
    e.guardedLayer? startMs endMs make =
      some (((e.timeline ordered).window? startMs endMs).map layer) := by
  have hoverlaps : (e.timeline ordered).overlaps startMs endMs ↔
      e.trimStartMs < endMs ∧ startMs < e.trimEndMs := by
    rw [Timeline.overlaps, Bool.and_eq_true, decide_eq_true_eq, decide_eq_true_eq]
    rfl
  rw [guardedLayer?]
  split
  case isTrue hshared =>
    simp only [guardedTime?_eq ordered, Option.bind_eq_bind, Option.bind_some]
    split
    case isTrue hlt =>
      have hwindow : (e.timeline ordered).window? startMs endMs =
          some ((e.timeline ordered).windowOf startMs endMs) :=
        Timeline.window?_eq_some.mpr ⟨hoverlaps.mpr hshared, hlt, rfl⟩
      rw [hwindow, Option.map_some]
      exact congrArg (Option.map some) (h _ hwindow)
    case isFalse hlt =>
      rw [Timeline.window?, if_neg fun hboth => hlt hboth.2]
      rfl
  case isFalse hshared =>
    rw [Timeline.window?, if_neg fun hboth => hshared (hoverlaps.mp hboth.1)]
    rfl

theorem ZoomRamp.guardedZoom?_eq {r : ZoomRamp} (h : r.startMs ≤ r.endMs) (instantMs : Nat) :
    r.guardedZoom? instantMs = some (r.zoomAt instantMs) := by
  let part : Binary64 := .ofNat (instantMs - r.startMs) / .ofNat (r.endMs - r.startMs)
  obtain ⟨share, hshare⟩ := Option.isSome_iff_exists.mp
    ((Binary64.clamp?_isSome (x := part)).mpr (by decide +kernel : (0 : Binary64) ≤ 1))
  rw [guardedZoom?, Limits.minus?_of_le h, Option.bind_eq_bind, Option.bind_some, hshare, zoomAt,
    hshare]
  rfl

theorem ZoomRamp.guarded?_eq {r : ZoomRamp} (h : r.startMs ≤ r.endMs) :
    r.guarded? e = some (r.toClip? (e.timeline ordered)) := by
  rw [guarded?, Edit.guardedLayer?_eq ordered (fun window =>
    ⟨window, r.zoomAt (max r.startMs e.trimStartMs), r.zoomAt (min r.endMs e.trimEndMs)⟩)]
  · rw [toClip?]
    cases (e.timeline ordered).window? r.startMs r.endMs <;> rfl
  · intro w _
    rw [guardedZoom?_eq h, guardedZoom?_eq h]
    rfl

/-- A cutaway that can be placed is there exactly if it is shown. -/
theorem Cutaway.guarded?_eq {c : Cutaway} (h : ∀ r ∈ c.placement, r.Proper) :
    ∃ shown, c.guarded? e = some shown ∧ c.toClip? (e.timeline ordered) = shown.map some := by
  obtain ⟨p, hp⟩ : ∃ p, (c.placement.getD .full).clamped? = some p := by
    cases hplacement : c.placement with
    | none =>
        obtain ⟨p, hp, -⟩ := Placement.clamped?_of_isFinite (r := .full)
          Binary64.has_one.isFinite Binary64.has_one.isFinite
        exact ⟨p, hp⟩
    | some r =>
        have hproper := h r hplacement
        obtain ⟨p, hp, -⟩ := Placement.clamped?_of_isFinite hproper.width.1 hproper.height.1
        exact ⟨p, hp⟩
  refine ⟨_, Edit.guardedLayer?_eq ordered (fun window =>
    ⟨c.path, window, addMs c.offsetMs (e.trimStartMs - c.startMs), p, c.opacity⟩) ?_, ?_⟩
  · intro w _
    rw [hp]
    rfl
  · rw [toClip?, hp]
    cases (e.timeline ordered).window? c.startMs c.endMs <;> rfl

/-- A sticker that can be placed is there exactly if it is shown. -/
theorem Sticker.guarded?_eq {s : Sticker} (h : s.placement.Proper) :
    ∃ shown, s.guarded? e = some shown ∧ s.toClip? (e.timeline ordered) = shown.map some := by
  obtain ⟨p, hp, -⟩ := Placement.clamped?_of_isFinite h.width.1 h.height.1
  refine ⟨_, Edit.guardedLayer?_eq ordered (fun window => ⟨s.source, window, p⟩) ?_, ?_⟩
  · intro w _
    rw [hp]
    rfl
  · rw [toClip?, hp]
    cases (e.timeline ordered).window? s.startMs s.endMs <;> rfl

theorem TimedWord.guarded?_eq {segment : Window} (h : segment.startMs ≤ segment.endMs)
    (w : TimedWord) : w.guarded? e segment = some (w.toClip? (e.timeline ordered) segment) := by
  rw [guarded?, Edit.guardedLayer?_eq ordered (fun window =>
    ⟨w.text, ⟨clampNat segment.startMs segment.endMs window.startMs,
      clampNat segment.startMs segment.endMs window.endMs⟩⟩)]
  · rw [toClip?]
    cases (e.timeline ordered).window? w.startMs (max w.endMs (addMs w.startMs 1)) <;> rfl
  · intro window _
    rw [Limits.clamp?_of_le h, Limits.clamp?_of_le h]
    rfl

theorem Segment.guarded?_eq (s : Segment) :
    s.guarded? e = some (s.toClip? (e.timeline ordered)) := by
  rw [guarded?, Edit.guardedLayer?_eq ordered (fun window =>
    ⟨s.text, window, (s.words.filterMap (·.toClip? (e.timeline ordered) window)).filter
      fun w => Text.trim w.text ≠ "", (e.timeline ordered).contains s.startMs⟩)]
  · rw [toClip?]
    cases (e.timeline ordered).window? s.startMs s.endMs <;> rfl
  · intro window hwindow
    obtain ⟨-, hlt, hends⟩ := Timeline.window?_eq_some.mp hwindow
    have hle : window.startMs ≤ window.endMs := by
      rw [hends]
      exact hlt.le
    have hwords := mapM_eq_some_map fun w (_ : w ∈ s.words) =>
      TimedWord.guarded?_eq ordered hle w
    rw [hwords, Option.bind_eq_bind, Option.bind_some, reduceOption_map_eq_filterMap]
    rfl

end Steps

namespace Clip

/-- Layers that can be placed are in the clip. -/
theorem mapM_ofOption_eq {α β : Type} {f g : α → Option (Option β)} {xs : List α}
    (h : ∀ x ∈ xs, ∃ shown, g x = some shown ∧ f x = shown.map some) :
    ∃ layers, xs.mapM g = some layers ∧
      (xs.filterMap f).mapM Outcome.ofOption = .ok layers.reduceOption := by
  induction xs with
  | nil => exact ⟨[], rfl, rfl⟩
  | cons x xs ih =>
      obtain ⟨⟨shown, hguarded, hplain⟩, hrest⟩ := List.forall_mem_cons.mp h
      obtain ⟨layers, hlayers, hvalues⟩ := ih hrest
      refine ⟨shown :: layers, by rw [List.mapM_cons, hguarded, hlayers]; rfl, ?_⟩
      cases shown with
      | none => rwa [List.filterMap_cons_none hplain, List.reduceOption_cons_of_none]
      | some layer =>
          rw [List.filterMap_cons_some hplain, List.mapM_cons, hvalues,
            List.reduceOption_cons_of_some]
          rfl

theorem ofEdit_of_problems {e : Edit} {problem : Problem} {others : List Problem}
    (h : e.problems = problem :: others) : ofEdit e = .fail (.graph problem.message) := by
  rw [ofEdit, h]

theorem ofEdit_of_duration {e : Edit} {ordered : e.trimStartMs ≤ e.trimEndMs}
    (h : e.problems = []) (hduration : (e.timeline ordered).duration = 0) :
    ofEdit e = .fail (.graph Problem.noDuration.message) := by
  rw [ofEdit, h]
  exact (dif_pos ordered).trans (if_pos hduration)

/-- An edit without problems has a clip if the clip has a length; its steps can all be taken. -/
theorem exists_ofEdit {e : Edit} {ordered : e.trimStartMs ≤ e.trimEndMs} (h : e.Lawful)
    (hduration : (e.timeline ordered).duration ≠ 0) :
    ∃ clip, ofEdit e = .ok clip ∧ guarded? e = some (.ok clip) := by
  have hproblems := Edit.problems_eq_nil_iff.mpr h
  obtain ⟨cutaways, hcutaways, hcutaways'⟩ := mapM_ofOption_eq fun c hc =>
    Cutaway.guarded?_eq ordered (h.cutaways c hc).2.2
  obtain ⟨stickers, hstickers, hstickers'⟩ := mapM_ofOption_eq fun s hs =>
    Sticker.guarded?_eq ordered (h.stickers s hs).2.1
  have hramps := mapM_eq_some_map fun r hr =>
    ZoomRamp.guarded?_eq ordered (h.ramps r hr).1.le
  have hsegments := mapM_eq_some_map fun s (_ : s ∈ e.segments) =>
    Segment.guarded?_eq ordered s
  refine ⟨ofLayers e (e.timeline ordered) cutaways.reduceOption stickers.reduceOption, ?_, ?_⟩
  · rw [ofEdit, hproblems]
    refine (dif_pos ordered).trans ((if_neg hduration).trans ?_)
    exact bind_eq_ok_iff.mpr ⟨_, hcutaways', bind_eq_ok_iff.mpr ⟨_, hstickers', rfl⟩⟩
  · rw [guarded?, hproblems, Edit.guardedTime?_eq ordered, Option.bind_eq_bind,
      Option.bind_some]
    refine (if_neg hduration).trans ?_
    simp only [hramps, hcutaways, hstickers, hsegments, Option.bind_eq_bind, Option.bind_some,
      reduceOption_map_eq_filterMap]
    rfl

/-- With guarded steps the clip is the same, whatever the edit: no step is left out. -/
theorem guarded?_eq (e : Edit) : guarded? e = some (ofEdit e) := by
  cases hproblems : e.problems with
  | cons problem others =>
      rw [ofEdit_of_problems hproblems, guarded?, hproblems]
  | nil =>
      have hlawful := Edit.problems_eq_nil_iff.mp hproblems
      by_cases hduration : (e.timeline hlawful.trim.le).duration = 0
      · rw [ofEdit_of_duration hproblems hduration, guarded?, hproblems,
          Edit.guardedTime?_eq hlawful.trim.le, Option.bind_eq_bind, Option.bind_some]
        exact if_pos hduration
      · obtain ⟨clip, hclip, hguarded⟩ := exists_ofEdit hlawful hduration
        rw [hguarded, hclip]

end Clip

end Montage
