import Montage.Caption.Track
import Montage.Proofs.Clip.Layers

/-! # Captions in time

The caption track of a clip whose layers are in time can be made, and no cue of it is empty or
outlasts the clip. -/

namespace Montage

namespace Caption

/-- The time over which a cue is shown. -/
def Cue.window (c : Cue) : Window := ⟨c.startMs, c.endMs⟩

/-! ## Boundaries of words -/

/-- Words that may begin before the end of their segment have boundaries, none after that end. -/
theorem boundariesFrom?_spec {previous endMs : Nat} (words : List ClipWord) (h : previous ≤ endMs) :
    ∃ bounds, boundariesFrom? previous endMs words = some bounds ∧ ∀ b ∈ bounds, b ≤ endMs := by
  induction words generalizing previous with
  | nil => exact ⟨[endMs], rfl, by simp⟩
  | cons word rest ih =>
      have hword := clampNat_le previous endMs word.window.startMs
      obtain ⟨bounds, hbounds, hle⟩ := ih hword
      refine ⟨_ :: bounds, ?_, List.forall_mem_cons.mpr ⟨hword, hle⟩⟩
      rw [boundariesFrom?, if_neg (Nat.not_lt.mpr h)]
      simp [hbounds]

/-- A segment that is not empty has boundaries, none after its end. -/
theorem boundaries?_spec {s : ClipSegment} (h : s.window.startMs ≤ s.window.endMs) :
    ∃ bounds, boundaries? s = some bounds ∧ ∀ b ∈ bounds, b ≤ s.window.endMs := by
  obtain ⟨bounds, hbounds, hle⟩ := boundariesFrom?_spec (s.words.drop 1) h
  refine ⟨s.window.startMs :: bounds, ?_, List.forall_mem_cons.mpr ⟨h, hle⟩⟩
  rw [boundaries?, hbounds]
  rfl

/-! ## Cues -/

namespace Maker

variable {m : Maker} {s : ClipSegment} {durationMs : Nat} {cue : Cue}

theorem segmentCue?_inside (hs : s.window.Inside durationMs) (h : m.segmentCue? s = some cue) :
    cue.window.Inside durationMs := by
  simp only [segmentCue?, Option.ite_none_left_eq_some, Option.some.injEq] at h
  obtain ⟨-, rfl⟩ := h
  exact hs

theorem hookCue?_inside {hook : Hook} (hhook : hook.endMs ≤ durationMs)
    (h : m.hookCue? hook = some cue) : cue.window.Inside durationMs := by
  simp only [hookCue?, Option.ite_none_left_eq_some, Option.some.injEq] at h
  obtain ⟨hne, rfl⟩ := h
  exact ⟨Nat.pos_of_ne_zero hne, hhook⟩

/-- The cues of words last from one boundary to a later one. -/
theorem wordCues?_spec (hs : s.window.Inside durationMs) :
    ∃ cues, m.wordCues? s = some cues ∧ ∀ cue ∈ cues, cue.window.Inside durationMs := by
  obtain ⟨bounds, hbounds, hle⟩ := boundaries?_spec hs.start_lt_end.le
  rw [wordCues?, hbounds]
  refine ⟨_, rfl, fun cue hcue => ?_⟩
  obtain ⟨⟨⟨⟨startMs, endMs⟩, word⟩, i⟩, hmem, hmade⟩ := List.mem_filterMap.mp hcue
  obtain ⟨hlt, hcue⟩ := Option.ite_none_right_eq_some.mp hmade
  obtain rfl := Option.some.inj hcue
  have hpair : (startMs, endMs) ∈ bounds.zip (bounds.drop 1) :=
    (List.of_mem_zip (List.fst_mem_of_mem_zipIdx hmem)).1
  have hend : endMs ∈ bounds := List.mem_of_mem_drop (List.of_mem_zip hpair).2
  exact ⟨hlt, (hle endMs hend).trans hs.end_le⟩

theorem cues?_spec (hs : s.window.Inside durationMs) :
    ∃ cues, m.cues? s = some cues ∧ ∀ cue ∈ cues, cue.window.Inside durationMs := by
  rw [cues?]
  split
  · refine ⟨_, rfl, fun cue hcue => ?_⟩
    exact segmentCue?_inside hs (Option.mem_toList.mp hcue)
  · exact wordCues?_spec hs

/-- The cues of all segments, one segment after the other. -/
theorem mapM_cues?_spec {segments : List ClipSegment}
    (h : ∀ s ∈ segments, s.window.Inside durationMs) :
    ∃ cues, segments.mapM m.cues? = some cues ∧
      ∀ cue ∈ cues.flatten, cue.window.Inside durationMs := by
  induction segments with
  | nil => exact ⟨[], rfl, by simp⟩
  | cons s rest ih =>
      obtain ⟨hs, hrest⟩ := List.forall_mem_cons.mp h
      obtain ⟨first, hfirst, hinside⟩ := cues?_spec (m := m) hs
      obtain ⟨cues, hcues, hinside'⟩ := ih hrest
      refine ⟨first :: cues, ?_, ?_⟩
      · rw [List.mapM_cons, hfirst, hcues]
        rfl
      · rw [List.flatten_cons, List.forall_mem_append]
        exact ⟨hinside, hinside'⟩

/-- The document of segments that lie inside a clip, and of a headline that does not outlast
it. -/
theorem document?_spec {segments : List ClipSegment} {hook : Option Hook}
    (h : ∀ s ∈ segments, s.window.Inside durationMs) (hhook : ∀ x ∈ hook, x.endMs ≤ durationMs) :
    ∃ doc, m.document? segments hook = some doc ∧
      ∀ cue ∈ doc.cues, cue.window.Inside durationMs := by
  obtain ⟨cues, hcues, hinside⟩ := mapM_cues?_spec (m := m) h
  rw [document?, hcues]
  refine ⟨_, rfl, List.forall_mem_append.mpr ⟨fun cue hcue => ?_, hinside⟩⟩
  obtain ⟨x, hx, hcue⟩ := Option.bind_eq_some_iff.mp (Option.mem_toList.mp hcue)
  exact hookCue?_inside (hhook x hx) hcue

end Maker

/-- The caption track of a clip in time fails only for a colour that cannot be read, and no cue of
it is empty or outlasts the clip. -/
theorem ofClip_spec {clip : Clip} (h : clip.InTime) :
    (∃ fault, ofClip clip = .fail fault) ∨
      ∃ doc, ofClip clip = .ok doc ∧ ∀ cue ∈ doc.cues, cue.window.Inside clip.durationMs := by
  have hhook : ∀ x ∈ hookOf clip, x.endMs ≤ clip.durationMs := by
    intro x hx
    obtain ⟨text, -, rfl⟩ := Option.map_eq_some_iff.mp hx
    exact Nat.min_le_right _ _
  rw [ofClip]
  cases Maker.new clip.look clip.canvas.width clip.canvas.height with
  | error fault => exact .inl ⟨fault, rfl⟩
  | ok m =>
      obtain ⟨doc, hdoc, hinside⟩ := Maker.document?_spec (m := m) h.segments hhook
      exact .inr ⟨doc, congrArg Outcome.ofOption hdoc, hinside⟩

end Caption

namespace Clip

/-- The captions of a clip that is in time have no time after its end, and none breaks. -/
theorem InTime.captions {clip : Clip} (h : clip.InTime) :
    Caption.ofClip clip ≠ .error .broken ∧
      ∀ doc, Caption.ofClip clip = .ok doc →
        ∀ cue ∈ doc.cues, cue.window.Inside clip.durationMs := by
  rcases Caption.ofClip_spec h with ⟨fault, hfault⟩ | ⟨doc, hdoc, hinside⟩
  · rw [hfault]
    exact ⟨nofun, nofun⟩
  · rw [hdoc]
    refine ⟨nofun, fun doc' hdoc' => ?_⟩
    cases hdoc'
    exact hinside

/-- The clip of an accepted edit lasts at least a millisecond. It shows the layers of the edit in
their order, but for those outside the trimmed range and those too short for a millisecond of the
clip, and nothing is shown after its end, captions included. -/
theorem timed_ofEdit {e : Edit} {clip : Clip} (h : ofEdit e = .ok clip) :
    (∃ ordered, Moved e (e.timeline ordered) clip) ∧ clip.InTime ∧
      Caption.ofClip clip ≠ .error .broken ∧
      ∀ doc, Caption.ofClip clip = .ok doc →
        ∀ cue ∈ doc.cues, cue.window.Inside clip.durationMs :=
  ⟨moved_ofEdit h, inTime_ofEdit h, (inTime_ofEdit h).captions⟩

/-- Three seconds shown in two: a ramp that the trim cuts, a cutaway before it, and a segment whose
second word ends after it. -/
theorem timed_ofEdit_of_talk :
    let e : Edit :=
      { sourcePath := "/media/talk.mp4", trimStartMs := 1000, trimEndMs := 4000,
        canvas := .portrait, speed := 1.5,
        ramps := [{ startMs := 500, endMs := 2500, zoomStart := 1, zoomEnd := 2 }],
        cutaways := [{ path := "/media/b.mp4", startMs := 0, endMs := 1000 }],
        segments := [{ text := "so far", startMs := 3000, endMs := 4500, words :=
          [⟨"so", 3000, 3300⟩, ⟨"far", 3400, 4400⟩] }],
        hookText := some "Listen", hookMs := 3000 }
    ∃ clip, ofEdit e = .ok clip ∧ clip.durationMs = 2000 ∧ clip.ramps.length = 1 ∧
      clip.cutaways = [] ∧ (∃ ordered, Moved e (e.timeline ordered) clip) ∧ clip.InTime ∧
      Caption.ofClip clip ≠ .error .broken ∧
      ∀ doc, Caption.ofClip clip = .ok doc →
        ∀ cue ∈ doc.cues, cue.window.Inside clip.durationMs := by
  intro e
  have hclip : (ofEdit e).toOption.map (fun c => (c.durationMs, c.ramps.length, c.cutaways)) =
      some (2000, 1, []) := by
    decide +kernel
  cases h : ofEdit e with
  | error failure => rw [h] at hclip; cases hclip
  | ok clip =>
      rw [h] at hclip
      simp only [Except.toOption, Option.map_some, Option.some.injEq, Prod.mk.injEq] at hclip
      obtain ⟨hduration, hramps, hcutaways⟩ := hclip
      exact ⟨clip, rfl, hduration, hramps, hcutaways, timed_ofEdit h⟩

end Clip

end Montage
