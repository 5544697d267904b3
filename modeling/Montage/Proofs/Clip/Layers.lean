import Montage.Proofs.Clip.Windows
import Montage.Proofs.Edit.Problems

/-! # The layers of the clip in time

Each layer of an accepted edit is in the clip at the window of its range, unless it is not shown;
nothing is shown after the end of the clip. -/

namespace Montage

/-- The source range of a ramp. -/
def ZoomRamp.range (r : ZoomRamp) : Nat × Nat := (r.startMs, r.endMs)

/-- The source range of a cutaway. -/
def Cutaway.range (c : Cutaway) : Nat × Nat := (c.startMs, c.endMs)

/-- The source range of a sticker. -/
def Sticker.range (s : Sticker) : Nat × Nat := (s.startMs, s.endMs)

/-- The source range of a segment. -/
def Segment.range (s : Segment) : Nat × Nat := (s.startMs, s.endMs)

/-- The timeline of an edit whose trimmed range is in order. -/
def Edit.timeline (e : Edit) (ordered : e.trimStartMs ≤ e.trimEndMs) : Timeline :=
  ⟨e.trimStartMs, e.trimEndMs, e.speed, ordered⟩

theorem Edit.Timely.forward {e : Edit} (h : e.Timely) (ordered : e.trimStartMs ≤ e.trimEndMs) :
    (e.timeline ordered).Forward :=
  ⟨h.speed_finite, h.speed_positive⟩

/-! ## What stays of a layer -/

/-- The zoom of a ramp in the clip is that of the ramp of the edit, where the trim cuts it. -/
def ZoomRamp.Shown (t : Timeline) (r : ZoomRamp) (c : ClipRamp) : Prop :=
  c.zoomStart = r.zoomAt (max r.startMs t.trimStartMs) ∧
    c.zoomEnd = r.zoomAt (min r.endMs t.trimEndMs)

/-- A cutaway in the clip shows the video of the cutaway of the edit, as far in as the trim cuts
it. -/
def Cutaway.Shown (t : Timeline) (c : Cutaway) (m : ClipCutaway) : Prop :=
  m.path = c.path ∧ m.offsetMs = addMs c.offsetMs (t.trimStartMs - c.startMs) ∧
    m.opacity = c.opacity ∧ (c.placement.getD .full).clamped? = some m.placement

/-- A sticker in the clip shows the image of the sticker of the edit. -/
def Sticker.Shown (s : Sticker) (m : ClipSticker) : Prop :=
  m.source = s.source ∧ s.placement.clamped? = some m.placement

/-- A segment in the clip has the text of the segment of the edit, and some of its words. -/
def Segment.Shown (t : Timeline) (s : Segment) (m : ClipSegment) : Prop :=
  m.text = s.text ∧ m.startsInClip = t.contains s.startMs ∧
    (m.words.map (·.text)).Sublist (s.words.map (·.text))

section Inversion

variable {t : Timeline}

/-- A layer that is made from a window is there exactly if the window is. -/
theorem isSome_of_window {α : Type} (window : Option Window) (make : Window → α) :
    (do return make (← window) : Option α).isSome = window.isSome := by
  cases window <;> rfl

theorem ZoomRamp.toClip?_eq_some {r : ZoomRamp} {c : ClipRamp} : r.toClip? t = some c ↔
    t.window? r.startMs r.endMs = some c.window ∧ r.Shown t c := by
  simp only [toClip?, Option.bind_eq_bind, Option.bind_eq_some_iff, Option.pure_def,
    Option.some.injEq, Shown]
  constructor
  · rintro ⟨window, hwindow, rfl⟩
    exact ⟨hwindow, rfl, rfl⟩
  · rintro ⟨hwindow, hstart, hend⟩
    refine ⟨c.window, hwindow, ?_⟩
    rw [← hstart, ← hend]

theorem Cutaway.toClip?_eq_some {c : Cutaway} {m : ClipCutaway} :
    c.toClip? t = some (some m) ↔
      t.window? c.startMs c.endMs = some m.window ∧ c.Shown t m := by
  simp only [toClip?, Option.bind_eq_bind, Option.bind_eq_some_iff, Option.pure_def,
    Option.some.injEq, Option.map_eq_some_iff, Shown]
  constructor
  · rintro ⟨window, hwindow, placement, hplacement, rfl⟩
    exact ⟨hwindow, rfl, rfl, rfl, hplacement⟩
  · rintro ⟨hwindow, hpath, hoffset, hopacity, hplacement⟩
    refine ⟨m.window, hwindow, m.placement, hplacement, ?_⟩
    rw [← hpath, ← hoffset, ← hopacity]

theorem Sticker.toClip?_eq_some {s : Sticker} {m : ClipSticker} :
    s.toClip? t = some (some m) ↔
      t.window? s.startMs s.endMs = some m.window ∧ s.Shown m := by
  simp only [toClip?, Option.bind_eq_bind, Option.bind_eq_some_iff, Option.pure_def,
    Option.some.injEq, Option.map_eq_some_iff, Shown]
  constructor
  · rintro ⟨window, hwindow, placement, hplacement, rfl⟩
    exact ⟨hwindow, rfl, hplacement⟩
  · rintro ⟨hwindow, hsource, hplacement⟩
    refine ⟨m.window, hwindow, m.placement, hplacement, ?_⟩
    rw [← hsource]

theorem TimedWord.toClip?_eq_some {segment : Window} {w : TimedWord} {m : ClipWord} :
    w.toClip? t segment = some m ↔
      ∃ window, t.window? w.startMs (max w.endMs (addMs w.startMs 1)) = some window ∧
        m.text = w.text ∧
        m.window = ⟨clampNat segment.startMs segment.endMs window.startMs,
          clampNat segment.startMs segment.endMs window.endMs⟩ := by
  simp only [toClip?, Option.bind_eq_bind, Option.bind_eq_some_iff, Option.pure_def,
    Option.some.injEq]
  constructor
  · rintro ⟨window, hwindow, rfl⟩
    exact ⟨window, hwindow, rfl, rfl⟩
  · rintro ⟨window, hwindow, htext, hmoved⟩
    refine ⟨window, hwindow, ?_⟩
    rw [← htext, ← hmoved]

/-- A word of the clip lies inside the window of its segment. -/
theorem TimedWord.within_of_toClip? {segment : Window} {w : TimedWord} {m : ClipWord}
    (hsegment : segment.startMs ≤ segment.endMs) (h : w.toClip? t segment = some m) :
    m.window.Within segment := by
  obtain ⟨window, hwindow, -, hmoved⟩ := toClip?_eq_some.mp h
  have hlt := (Timeline.window?_eq_some.mp hwindow).2.1
  have hw := (Timeline.window?_eq_some.mp hwindow).2.2
  rw [hmoved]
  refine ⟨le_clampNat hsegment _, clampNat_mono _ _ ?_, clampNat_le _ _ _⟩
  rw [hw]
  exact hlt.le

/-- The texts of the words that are moved are some of the texts of the words, in order. -/
theorem TimedWord.sublist_texts {segment : Window} (words : List TimedWord) :
    ((words.filterMap (·.toClip? t segment)).map (·.text)).Sublist (words.map (·.text)) := by
  induction words with
  | nil => exact .slnil
  | cons w words ih =>
      cases hw : w.toClip? t segment with
      | none =>
          rw [List.filterMap_cons_none hw]
          exact ih.cons _
      | some m =>
          obtain ⟨-, -, htext, -⟩ := toClip?_eq_some.mp hw
          rw [List.filterMap_cons_some hw, List.map_cons, List.map_cons, htext]
          exact ih.cons_cons _

theorem Segment.toClip?_eq_some {s : Segment} {m : ClipSegment} (h : s.toClip? t = some m) :
    t.window? s.startMs s.endMs = some m.window ∧ s.Shown t m ∧
      ∀ w ∈ m.words, w.window.Within m.window := by
  simp only [toClip?, Option.bind_eq_bind, Option.bind_eq_some_iff, Option.pure_def,
    Option.some.injEq] at h
  obtain ⟨window, hwindow, rfl⟩ := h
  refine ⟨hwindow, ⟨rfl, rfl, ?_⟩, fun w hw => ?_⟩
  · exact (List.filter_sublist.map _).trans (TimedWord.sublist_texts s.words)
  · obtain ⟨word, -, hword⟩ := List.mem_filterMap.mp (List.mem_filter.mp hw).1
    have hlt := (Timeline.window?_eq_some.mp hwindow).2
    exact TimedWord.within_of_toClip? (by rw [hlt.2]; exact hlt.1.le) hword

end Inversion

/-! ## The layers of an accepted edit -/

namespace Clip

/-- A clip that shows an edit over a timeline: it lasts, and the layers of the edit that are shown
are its layers, in the same order and over the windows of their ranges. -/
structure Moved (e : Edit) (t : Timeline) (clip : Clip) : Prop where
  lasts : 1 ≤ clip.durationMs
  duration : clip.durationMs = t.duration
  ramps : t.Moves ZoomRamp.range ClipRamp.window (ZoomRamp.Shown t) e.ramps clip.ramps
  cutaways : t.Moves Cutaway.range ClipCutaway.window (Cutaway.Shown t) e.cutaways clip.cutaways
  stickers : t.Moves Sticker.range ClipSticker.window Sticker.Shown e.stickers clip.stickers
  segments : t.Moves Segment.range ClipSegment.window (Segment.Shown t) e.segments clip.segments

/-- A clip that shows nothing at a time it does not have: the windows of its layers lie inside it,
and those of words inside their segments. -/
structure InTime (clip : Clip) : Prop where
  ramps : ∀ r ∈ clip.ramps, r.window.Inside clip.durationMs
  cutaways : ∀ c ∈ clip.cutaways, c.window.Inside clip.durationMs
  stickers : ∀ s ∈ clip.stickers, s.window.Inside clip.durationMs
  segments : ∀ s ∈ clip.segments, s.window.Inside clip.durationMs
  words : ∀ s ∈ clip.segments, ∀ w ∈ s.words, w.window.Within s.window

variable {e : Edit} {clip : Clip}

/-- The clip of an accepted edit shows the edit. -/
theorem moved_ofEdit (h : ofEdit e = .ok clip) :
    ∃ ordered, Moved e (e.timeline ordered) clip := by
  obtain ⟨hproblems, ordered, cutaways, stickers, hduration, hcutaways, hstickers, rfl⟩ :=
    ofEdit_eq_ok h
  have htimely := Edit.timely_of_problems hproblems
  have hforward := htimely.forward ordered
  refine ⟨ordered, Nat.pos_of_ne_zero hduration, rfl, ?ramps, ?cutaways, ?stickers, ?segments⟩
  case ramps =>
    refine Timeline.moves_of_filterMap hforward (List.map_id _).symm
      (fun r hr => (htimely.ramps r hr).le) (fun _ _ => isSome_of_window _ _) (fun r c hc => ?_)
    exact ZoomRamp.toClip?_eq_some.mp hc
  case cutaways =>
    refine Timeline.moves_of_filterMap hforward hcutaways
      (fun c hc => (htimely.cutaways c hc).le) (fun _ _ => isSome_of_window _ _) (fun c m hm => ?_)
    exact Cutaway.toClip?_eq_some.mp hm
  case stickers =>
    refine Timeline.moves_of_filterMap hforward hstickers
      (fun s hs => (htimely.stickers s hs).le) (fun _ _ => isSome_of_window _ _) (fun s m hm => ?_)
    exact Sticker.toClip?_eq_some.mp hm
  case segments =>
    refine Timeline.moves_of_filterMap hforward (List.map_id _).symm
      (fun s hs => (htimely.segments s hs).le) (fun _ _ => isSome_of_window _ _) (fun s m hm => ?_)
    obtain ⟨hwindow, hshown, -⟩ := Segment.toClip?_eq_some hm
    exact ⟨hwindow, hshown⟩

/-- Nothing of the clip of an accepted edit is shown after its end. -/
theorem inTime_ofEdit (h : ofEdit e = .ok clip) : clip.InTime := by
  obtain ⟨hproblems, ordered, cutaways, stickers, -, hcutaways, hstickers, rfl⟩ := ofEdit_eq_ok h
  have hforward := (Edit.timely_of_problems hproblems).forward ordered
  refine ⟨?ramps, ?cutaways, ?stickers, ?segments, ?words⟩
  case ramps =>
    intro c hc
    obtain ⟨r, -, hr⟩ := List.mem_filterMap.mp hc
    exact Timeline.inside_of_window? hforward (ZoomRamp.toClip?_eq_some.mp hr).1
  case cutaways =>
    intro m hm
    obtain ⟨c, -, hc⟩ := exists_of_filterMap_eq hcutaways hm
    exact Timeline.inside_of_window? hforward (Cutaway.toClip?_eq_some.mp hc).1
  case stickers =>
    intro m hm
    obtain ⟨s, -, hs⟩ := exists_of_filterMap_eq hstickers hm
    exact Timeline.inside_of_window? hforward (Sticker.toClip?_eq_some.mp hs).1
  case segments =>
    intro m hm
    obtain ⟨s, -, hs⟩ := List.mem_filterMap.mp hm
    exact Timeline.inside_of_window? hforward (Segment.toClip?_eq_some hs).1
  case words =>
    intro m hm
    obtain ⟨s, -, hs⟩ := List.mem_filterMap.mp hm
    exact (Segment.toClip?_eq_some hs).2.2

end Clip

end Montage

/-! ## The onsets of captions

The onsets of a clip are the times at which a segment begins that begins inside the trimmed range.
Each is there once, they rise, and all of them lie before the end of the clip. -/

namespace Montage.Clip

/-! ## Each time once -/

theorem mem_distinct {x : Nat} {times : List Nat} : x ∈ onsets.distinct times ↔ x ∈ times := by
  fun_induction onsets.distinct times with
  | case1 b rest ih => simp [ih]
  | case2 a b rest hne ih => rw [List.mem_cons, ih, List.mem_cons (a := x) (b := a)]
  | case3 times => rfl

theorem distinct_increasing {times : List Nat} (h : times.Pairwise (· ≤ ·)) :
    (onsets.distinct times).Pairwise (· < ·) := by
  fun_induction onsets.distinct times with
  | case1 b rest ih => exact ih (List.pairwise_cons.mp h).2
  | case2 a b rest hne ih =>
      obtain ⟨hfirst, hrest⟩ := List.pairwise_cons.mp h
      refine List.pairwise_cons.mpr ⟨?_, ih hrest⟩
      intro x hx
      have hb : b ≤ x := by
        rcases List.mem_cons.mp (mem_distinct.mp hx) with rfl | hx
        · exact Nat.le_refl _
        · exact (List.pairwise_cons.mp hrest).1 x hx
      have hab := hfirst b (List.mem_cons_self ..)
      omega
  | case3 times hshort =>
      -- what has no two elements is in order
      match times with
      | [] => exact .nil
      | [_] => exact List.pairwise_singleton _ _
      | a :: b :: rest => exact absurd rfl (hshort a b rest)

theorem mem_onsets {clip : Clip} {onset : Nat} : onset ∈ clip.onsets ↔
    ∃ s ∈ clip.segments, s.startsInClip ∧ s.window.startMs = onset := by
  simp [onsets, mem_distinct, and_assoc]

theorem onsets_increasing (clip : Clip) : clip.onsets.Pairwise (· < ·) := by
  apply distinct_increasing
  let le (a b : Nat) : Bool := decide (a ≤ b)
  have htrans : ∀ a b c, le a b → le b c → le a c := by simpa [le] using fun _ _ _ => Nat.le_trans
  have htotal : ∀ a b, le a b || le b a := by simpa [le] using Nat.le_total
  simpa [le] using List.pairwise_mergeSort htrans htotal
    ((clip.segments.filter (·.startsInClip)).map (·.window.startMs))

/-! ## Of an accepted edit -/

/-- The onsets of a clip that shows an edit over a timeline. -/
structure OnsetsOf (e : Edit) (t : Timeline) (clip : Clip) : Prop where
  increasing : clip.onsets.Pairwise (· < ·)
  inside : ∀ onset ∈ clip.onsets, onset < clip.durationMs
  mem_iff : ∀ onset, onset ∈ clip.onsets ↔
    ∃ s ∈ e.segments, e.trimStartMs ≤ s.startMs ∧ s.startMs < e.trimEndMs ∧
      ∃ w, t.window? s.startMs s.endMs = some w ∧ w.startMs = onset

theorem exists_segment {t : Timeline} {s : Segment} {w : Window}
    (h : t.window? s.startMs s.endMs = some w) :
    ∃ m, s.toClip? t = some m ∧ m.window = w ∧ m.startsInClip = t.contains s.startMs := by
  rw [Segment.toClip?, h]
  exact ⟨_, rfl, rfl, rfl⟩

theorem onsetsOf_ofEdit {e : Edit} {clip : Clip} (h : ofEdit e = .ok clip) :
    ∃ ordered, OnsetsOf e (e.timeline ordered) clip := by
  have hinTime := inTime_ofEdit h
  obtain ⟨-, ordered, cutaways, stickers, -, -, -, rfl⟩ := ofEdit_eq_ok h
  refine ⟨ordered, onsets_increasing _, ?_, ?_⟩
  · intro onset honset
    obtain ⟨s, hs, -, rfl⟩ := mem_onsets.mp honset
    obtain ⟨hlt, hle⟩ := hinTime.segments s hs
    exact hlt.trans_le hle
  · intro onset
    have hcontains (instantMs : Nat) : (e.timeline ordered).contains instantMs = true ↔
        e.trimStartMs ≤ instantMs ∧ instantMs < e.trimEndMs := by
      rw [Timeline.contains, Bool.and_eq_true, decide_eq_true_iff, decide_eq_true_iff]
      rfl
    rw [mem_onsets]
    constructor
    · rintro ⟨m, hm, hstarts, rfl⟩
      obtain ⟨s, hs, hmoved⟩ := List.mem_filterMap.mp hm
      obtain ⟨hwindow, ⟨-, hshown, -⟩, -⟩ := Segment.toClip?_eq_some hmoved
      rw [hshown] at hstarts
      obtain ⟨hstart, hend⟩ := (hcontains s.startMs).mp hstarts
      exact ⟨s, hs, hstart, hend, m.window, hwindow, rfl⟩
    · rintro ⟨s, hs, hstart, hend, w, hwindow, rfl⟩
      obtain ⟨m, hmoved, rfl, hstarts⟩ := exists_segment hwindow
      refine ⟨m, List.mem_filterMap.mpr ⟨s, hs, hmoved⟩, ?_, rfl⟩
      rw [hstarts]
      exact (hcontains s.startMs).mpr ⟨hstart, hend⟩

end Montage.Clip
