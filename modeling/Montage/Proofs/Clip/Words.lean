import Montage.Proofs.Clip.Layers
import Montage.Proofs.Clip.Windows

/-! # The words of a segment

A word is given at least a millisecond, but a millisecond of the source, before its ends are rounded
to milliseconds of the clip. A short word whose ends are rounded to the same clip time is left out
of its segment. That cannot happen to a word with more of the source than is shown in a
millisecond, so not at all up to the speed of the source. -/

namespace Montage

open List (Forall₂)

namespace TimedWord

/-- The end of a word in the source, where it lasts at least a millisecond. -/
def lastingEnd (w : TimedWord) : Nat := max w.endMs (w.startMs + 1)

/-- Whether a word is heard in a clip: it is not blank, and it overlaps the trimmed range. -/
def heard (t : Timeline) (w : TimedWord) : Bool :=
  Text.trim w.text ≠ "" && t.overlaps w.startMs w.lastingEnd

/-- Whether both ends of a word have the same clip time. -/
def vanishes (t : Timeline) (w : TimedWord) : Bool := t.toClip w.startMs = t.toClip w.lastingEnd

/-- A word of the clip has the text of a word of the edit, and its window inside that of the
segment. -/
def Shown (t : Timeline) (segment : Window) (w : TimedWord) (m : ClipWord) : Prop :=
  m.text = w.text ∧
    m.window = ⟨clampNat segment.startMs segment.endMs (t.toClip w.startMs),
      clampNat segment.startMs segment.endMs (t.toClip w.lastingEnd)⟩

end TimedWord

/-- A segment of the clip keeps, in order, the words of a segment of the edit that are heard. -/
def Segment.KeepsWords (t : Timeline) (s : Segment) (m : ClipSegment) : Prop :=
  m.words.map (·.text) = (s.words.filter (·.heard t)).map (·.text)

/-- What a segment of the clip has of the words of a segment of the edit: in order, those that are
heard and do not vanish. So it keeps its words exactly if none of those that are heard vanishes. -/
structure Segment.Worded (t : Timeline) (s : Segment) (m : ClipSegment) : Prop where
  words : Forall₂ (TimedWord.Shown t m.window)
    (s.words.filter fun w => w.heard t && !w.vanishes t) m.words
  keeps_iff : s.KeepsWords t m ↔ ∀ w ∈ s.words, w.heard t → ¬ w.vanishes t

/-! ## One word -/

namespace TimedWord

variable {t : Timeline} {w : TimedWord} {segment : Window} {m : ClipWord}

theorem startMs_lt_lastingEnd (w : TimedWord) : w.startMs < w.lastingEnd :=
  lt_of_lt_of_le (Nat.lt_succ_self _) (le_max_right _ _)

/-- A millisecond more is not too great a time for a word that begins in the trimmed range. -/
theorem window?_lasting (htrim : t.trimEndMs ≤ Binary64.top64) :
    t.window? w.startMs (max w.endMs (addMs w.startMs 1)) = t.window? w.startMs w.lastingEnd := by
  by_cases hstart : w.startMs < Binary64.top64
  · rw [addMs, Nat.min_eq_left hstart, lastingEnd]
  · have hafter (endMs : Nat) : t.overlaps w.startMs endMs = false := by
      simp only [Timeline.overlaps, Bool.and_eq_false_iff, decide_eq_false_iff_not]
      omega
    rw [Timeline.window?, Timeline.window?, hafter, hafter]
    simp

/-- The words that stay are those that are heard and do not vanish. -/
theorem filter_toClip?_eq_some (h : t.Forward) (htrim : t.trimEndMs ≤ Binary64.top64) :
    (w.toClip? t segment).filter (fun c => decide (Text.trim c.text ≠ "")) = some m ↔
      (w.heard t && !w.vanishes t) ∧ w.Shown t segment m := by
  have hle := Timeline.toClip_mono h w.startMs_lt_lastingEnd.le
  simp only [Option.filter_eq_some_iff, toClip?_eq_some, window?_lasting htrim,
    Timeline.window?_eq_some, heard, vanishes, Shown, Bool.and_eq_true, Bool.not_eq_true',
    decide_eq_true_eq, decide_eq_false_iff_not]
  constructor
  · rintro ⟨⟨window, ⟨hoverlaps, hlt, rfl⟩, htext, hwindow⟩, htrimmed⟩
    exact ⟨⟨⟨htext ▸ htrimmed, hoverlaps⟩, hlt.ne⟩, htext, hwindow⟩
  · rintro ⟨⟨⟨htrimmed, hoverlaps⟩, hne⟩, htext, hwindow⟩
    exact ⟨⟨_, ⟨hoverlaps, lt_of_le_of_ne hle hne, rfl⟩, htext, hwindow⟩, htext ▸ htrimmed⟩

theorem isSome_filter_toClip? (h : t.Forward) (htrim : t.trimEndMs ≤ Binary64.top64) :
    ((w.toClip? t segment).filter fun c => decide (Text.trim c.text ≠ "")).isSome =
      (w.heard t && !w.vanishes t) := by
  rw [Bool.eq_iff_iff, Option.isSome_iff_exists]
  constructor
  · rintro ⟨m, hm⟩
    exact ((filter_toClip?_eq_some h htrim).mp hm).1
  · intro hstays
    exact ⟨⟨w.text, _⟩, (filter_toClip?_eq_some h htrim).mpr ⟨hstays, rfl, rfl⟩⟩

theorem elapsed_lt_of_heard (htrim : t.trimStartMs < t.trimEndMs) (h : w.heard t) :
    t.elapsed w.startMs < t.elapsed w.lastingEnd := by
  simp only [heard, Timeline.overlaps, Bool.and_eq_true, decide_eq_true_eq] at h
  obtain ⟨-, hend, hbegin⟩ := h
  have hlasts := w.startMs_lt_lastingEnd
  simp only [Timeline.elapsed, clampNat]
  omega

end TimedWord

/-! ## All words of a segment -/

theorem Segment.worded_of_toClip? {t : Timeline} {s : Segment} {m : ClipSegment} (h : t.Forward)
    (htrim : t.trimEndMs ≤ Binary64.top64) (hm : s.toClip? t = some m) : s.Worded t m := by
  obtain ⟨window, -, hm⟩ := Option.bind_eq_some_iff.mp hm
  cases hm
  have hmoved : Forall₂
      (fun w m => (w.toClip? t window).filter (fun c => decide (Text.trim c.text ≠ "")) = some m)
      (s.words.filter fun w => w.heard t && !w.vanishes t) _ :=
    forall₂_filterMap fun w _ => TimedWord.isSome_filter_toClip? h htrim
  rw [← List.filter_filterMap] at hmoved
  have hwords := hmoved.imp fun w m hm => ((TimedWord.filter_toClip?_eq_some h htrim).mp hm).2
  have hsplit : (s.words.filter fun w => w.heard t && !w.vanishes t) =
      (s.words.filter (·.heard t)).filter fun w => !w.vanishes t := by
    rw [List.filter_filter]
    exact List.filter_congr fun w _ => Bool.and_comm _ _
  refine ⟨hwords, fun hkeeps => ?_, fun hstay => ?_⟩
  · have hlength : ((s.words.filter (·.heard t)).filter fun w => !w.vanishes t).length =
        (s.words.filter (·.heard t)).length := by
      rw [← hsplit, hwords.length_eq, ← List.length_map (·.text), hkeeps, List.length_map]
    intro w hw hheard
    simpa using List.length_filter_eq_length_iff.mp hlength w (List.mem_filter.mpr ⟨hw, hheard⟩)
  · have hall : ∀ w ∈ s.words.filter (·.heard t), !w.vanishes t := by
      intro w hw
      obtain ⟨hw, hheard⟩ := List.mem_filter.mp hw
      simpa using hstay w hw hheard
    rw [hsplit, List.filter_eq_self.mpr hall] at hwords
    have htexts := hwords.flip.imp fun m w hm => hm.1
    rwa [← List.forall₂_map_right_iff, ← List.forall₂_map_left_iff, List.forall₂_eq_eq_eq] at htexts

/-! ## The words of an accepted edit -/

/-- The segments of the clip of an accepted edit have those words of the segments of the edit that
are heard and do not vanish. In a clip that is not too long no word vanishes that has more of the
source in the trimmed range than is shown in a millisecond, and none at all if the clip is not
faster than the source. -/
theorem Clip.words_ofEdit {e : Edit} {clip : Clip} (hclip : ofEdit e = .ok clip)
    (htrim : e.trimEndMs ≤ Binary64.top64) :
    ∃ ordered, let t := e.timeline ordered
      Forall₂ (Segment.Worded t) (e.segments.filter fun s => t.shows s.startMs s.endMs)
        clip.segments ∧
      (t.Precise → ∀ w : TimedWord, w.heard t →
        (e.speed.toRat ≤ 1 ∨ t.elapsed w.startMs + e.speed.toRat < t.elapsed w.lastingEnd) →
          ¬ w.vanishes t) := by
  obtain ⟨hproblems, ordered, cutaways, stickers, -, -, -, rfl⟩ := ofEdit_eq_ok hclip
  have htimely := Edit.timely_of_problems hproblems
  have hforward := htimely.forward ordered
  refine ⟨ordered, ?_, fun hprecise w hheard hspeed => ?_⟩
  · have hmoved : Forall₂ (fun s m => Segment.toClip? (e.timeline ordered) s = some m)
        (e.segments.filter fun s => (e.timeline ordered).shows s.startMs s.endMs) _ :=
      forall₂_filterMap fun s hs => (isSome_of_window _ _).trans
        (Timeline.isSome_window? hforward (htimely.segments s hs).le)
    exact hmoved.imp fun s m hm => Segment.worded_of_toClip? hforward htrim hm
  · have hlt := Timeline.toClip_lt hforward hprecise
      (TimedWord.elapsed_lt_of_heard htimely.trim hheard) hspeed
    simpa [TimedWord.vanishes] using hlt.ne

/-- Three seconds shown in two, with a word of no length: its millisecond of the source lies between
two milliseconds of the clip. -/
theorem Clip.words_ofEdit_of_short_word :
    let e : Edit :=
      { sourcePath := "/media/talk.mp4", trimStartMs := 1000, trimEndMs := 4000,
        canvas := .portrait, speed := 1.5,
        segments := [{ text := "so a talk", startMs := 1500, endMs := 3500, words :=
          [⟨"so", 1600, 1900⟩, ⟨"a", 2000, 2000⟩, ⟨"talk", 2000, 2600⟩] }] }
    ∃ clip, ofEdit e = .ok clip ∧ e.trimEndMs ≤ Binary64.top64 ∧
      ∃ ordered, let t := e.timeline ordered
        Forall₂ (Segment.Worded t) (e.segments.filter fun s => t.shows s.startMs s.endMs)
          clip.segments ∧
        ∀ w : TimedWord, w.heard t →
          (e.speed.toRat ≤ 1 ∨ t.elapsed w.startMs + e.speed.toRat < t.elapsed w.lastingEnd) →
            ¬ w.vanishes t := by
  intro e
  have hok : (ofEdit e).toOption.map (·.durationMs) = some 2000 := by decide +kernel
  have hprecise : (e.timeline (by decide)).Precise := ⟨by decide, by decide +kernel⟩
  obtain ⟨clip, hclip, -⟩ := Outcome.exists_of_map hok
  obtain ⟨ordered, hworded, hstay⟩ := words_ofEdit hclip (by decide)
  exact ⟨clip, hclip, by decide, ordered, hworded, hstay hprecise⟩

/-- The word of no length is heard, but its segment does not keep it. -/
theorem Clip.not_keepsWords_of_short_word :
    let e : Edit :=
      { sourcePath := "/media/talk.mp4", trimStartMs := 1000, trimEndMs := 4000,
        canvas := .portrait, speed := 1.5,
        segments := [{ text := "so a talk", startMs := 1500, endMs := 3500, words :=
          [⟨"so", 1600, 1900⟩, ⟨"a", 2000, 2000⟩, ⟨"talk", 2000, 2600⟩] }] }
    let t : Timeline := e.timeline (by decide)
    ∃ clip, ofEdit e = .ok clip ∧
      ¬ Forall₂ (Segment.KeepsWords t) (e.segments.filter fun s => t.shows s.startMs s.endMs)
        clip.segments := by
  intro e t
  have hkept : (ofEdit e).toOption.map (fun c => c.segments.map (·.words.map (·.text))) =
      some [["so", "talk"]] := by
    decide +kernel
  have hheard : ((e.segments.filter fun s => t.shows s.startMs s.endMs).map
      fun s => (s.words.filter (·.heard t)).map (·.text)) = [["so", "a", "talk"]] := by
    decide +kernel
  obtain ⟨clip, hclip, htexts⟩ := Outcome.exists_of_map hkept
  refine ⟨clip, hclip, fun hall => ?_⟩
  have hkeeps : Forall₂ Eq (clip.segments.map (·.words.map (·.text))) _ :=
    List.forall₂_map_left_iff.mpr (List.forall₂_map_right_iff.mpr hall.flip)
  rw [List.forall₂_eq_eq_eq, hheard, htexts] at hkeeps
  exact absurd hkeeps (by decide)

end Montage
