import Montage.Proofs.Caption.Reading

/-! # Times as they are printed

Times are kept in milliseconds and printed in hundredths of a second, cut off. The rows of a segment
still follow one another without a gap. But a cue is left out only if it does not last a
millisecond: one in which no hundredth of a second begins is printed as if it ended where it
starts. -/

namespace Montage

open List (Forall₂)

/-- Ranges that follow one another, from a first bound to a last one. -/
inductive Tile {α : Type} : α → List (α × α) → α → Prop where
  | nil (a : α) : Tile a [] a
  | cons {a b c : α} {ranges : List (α × α)} (rest : Tile b ranges c) : Tile a ((a, b) :: ranges) c

namespace Tile

variable {α β : Type} {a b c : α} {ranges : List (α × α)}

theorem concat (h : Tile a ranges b) (c : α) : Tile a (ranges ++ [(b, c)]) c := by
  induction h with
  | nil a => exact .cons (.nil c)
  | cons _ ih => exact .cons ih

theorem map (h : Tile a ranges b) (f : α → β) :
    Tile (f a) (ranges.map fun range => (f range.1, f range.2)) (f b) := by
  induction h with
  | nil a => exact .nil (f a)
  | cons _ ih => exact .cons ih

theorem ne_nil (h : Tile a ranges b) (hne : a ≠ b) : ranges ≠ [] := by
  rintro rfl
  cases h
  exact hne rfl

/-- Bounds that never fall tile the range from the first to the last one, also without the ranges
that are empty. -/
theorem of_bounds (bound : Nat → Nat) (hbound : ∀ i, bound i ≤ bound (i + 1)) (n : Nat) :
    Tile (bound 0) (((List.range n).filter fun i => bound i < bound (i + 1)).map
      fun i => (bound i, bound (i + 1))) (bound n) := by
  induction n with
  | zero => exact .nil (bound 0)
  | succ n ih =>
      rw [List.range_succ, List.filter_append, List.map_append]
      by_cases hlt : bound n < bound (n + 1)
      · simpa [hlt] using ih.concat (bound (n + 1))
      · have heq : bound (n + 1) = bound n := by
          have := hbound n
          omega
        simpa [heq] using ih

end Tile

namespace Caption

/-! ## Rows -/

/-- The texts of the beginning and the end of an event row. -/
def times? (row : List Char) : Option (List Char × List Char) := do
  match ← fields? 9 row with
  | _layer :: start :: stop :: _ => return (start, stop)
  | _ => none

/-- The times of a row as a player reads them: it ends later than it begins. -/
def Lasts (times : List Char × List Char) : Prop :=
  ∃ start stop, timeMs? times.1 = some start ∧ timeMs? times.2 = some stop ∧ start < stop

/-- The times in the rows that a document has for its cues. -/
def Document.times? (doc : Document) : Option (List (List Char × List Char)) :=
  (ofKind "Dialogue" (doc.lines.map String.toList)).mapM Caption.times?

/-- The times of a cue as they are printed. -/
def Cue.times (c : Cue) : List Char × List Char :=
  ((timestamp c.startMs).toList, (timestamp c.endMs).toList)

/-- A hundredth of a second begins after the beginning of the cue and no later than its end. -/
def Cue.Marked (c : Cue) : Prop := ∃ n, c.startMs < 10 * n ∧ 10 * n ≤ c.endMs

theorem times?_fields {c : Cue} (hstyle : ',' ∉ c.style.toList) :
    times? ([','].intercalate (c.fields.map String.toList)) = some c.times := by
  rw [times?, Cue.fields?_row hstyle]
  rfl

theorem marked_iff {c : Cue} : c.Marked ↔ c.startMs / 10 < c.endMs / 10 := by
  constructor
  · rintro ⟨n, hstart, hend⟩
    omega
  · intro hlt
    exact ⟨c.endMs / 10, by omega, by omega⟩

theorem forall_marked_iff {cues : List Cue} : (∀ c ∈ cues, c.Marked) ↔
    ∀ range ∈ cues.map fun c => (c.startMs, c.endMs), range.1 / 10 < range.2 / 10 := by
  simp only [List.forall_mem_map, marked_iff]

/-- A cue prints as lasting if a hundredth of a second begins in it. -/
theorem lasts_times_iff (c : Cue) : Lasts c.times ↔ c.Marked := by
  simp [Lasts, Cue.times, timeMs?_timestamp, marked_iff]

/-- Otherwise it is printed as if it ended where it starts. -/
theorem times_eq_of_not_marked {c : Cue} (h : c.startMs ≤ c.endMs) (hmarked : ¬ c.Marked) :
    c.times.1 = c.times.2 := by
  have hsame : c.startMs / 10 = c.endMs / 10 := by
    rw [marked_iff] at hmarked
    omega
  simp only [Cue.times, timestamp, hsame]

/-! ## Rows of a segment -/

namespace Maker

variable {m : Maker} {look : CaptionLook} {width height : Nat} {segments : List ClipSegment}
  {hook : Option Hook} {doc : Document} {s : ClipSegment} {cues : List Cue}

/-- The cues of words follow one another from the beginning of their segment to its end; no word has
more than one. -/
theorem tile_wordCues (hwindow : s.window.startMs ≤ s.window.endMs) (hwords : s.words ≠ [])
    (h : m.wordCues? s = some cues) : cues.length ≤ s.words.length ∧
      Tile s.window.startMs (cues.map fun c => (c.startMs, c.endMs)) s.window.endMs := by
  obtain ⟨cues', hcues', hall⟩ := m.wordCues?_eq hwindow hwords
  obtain rfl := Option.some.inj (hcues'.symm.trans h)
  constructor
  · rw [← hall.length_eq]
    apply (List.length_filter_le _ _).trans
    rw [List.length_range]
  · have hbounds := Tile.of_bounds s.boundary
      (fun i => ClipSegment.boundary_mono hwindow (Nat.le_succ i)) s.words.length
    have hranges : cues'.map (fun c => (c.startMs, c.endMs)) =
        ((List.range s.words.length).filter fun i => s.boundary i < s.boundary (i + 1)).map
          fun i => (s.boundary i, s.boundary (i + 1)) := by
      rw [eq_comm, ← List.forall₂_eq_eq_eq, List.forall₂_map_left_iff, List.forall₂_map_right_iff]
      apply hall.imp
      intro i cue hcue
      obtain ⟨hstart, hend⟩ := Window.mk.inj hcue.window
      rw [hstart, hend]
    rwa [hranges, ← ClipSegment.boundary_length hwords]

/-- So do the cues of any segment; without timed words it has one. -/
theorem tile_cues (hwindow : s.window.startMs < s.window.endMs) (h : m.cues? s = some cues) :
    cues.length ≤ max s.words.length 1 ∧
      Tile s.window.startMs (cues.map fun c => (c.startMs, c.endMs)) s.window.endMs := by
  rw [cues?] at h
  split at h
  case isTrue =>
    have hduration : s.window.duration ≠ 0 := by
      rw [Window.duration]
      omega
    obtain rfl := Option.some.inj h
    simp only [segmentCue?, if_neg hduration, Option.toList_some]
    exact ⟨le_max_right _ _, .cons (.nil _)⟩
  case isFalse hwords =>
    obtain ⟨hlength, htile⟩ := tile_wordCues hwindow.le hwords h
    exact ⟨le_max_of_le_left hlength, htile⟩

/-- The event rows of a document have the times of its cues. -/
theorem times?_document? (hm : Maker.new look width height = .ok m)
    (hdoc : m.document? segments hook = some doc) : doc.times? = some (doc.cues.map Cue.times) := by
  have hrows : ofKind "Dialogue" (doc.lines.map String.toList) =
      doc.cues.map fun c => [','].intercalate (c.fields.map String.toList) := by
    have hlines := doc.ofKind_dialogue
    rw [Document.ofKind_append] at hlines
    simpa [show ofKind "Dialogue" [[]] = [] by decide] using hlines
  rw [Document.times?, hrows, mapM_eq_some_iff, List.forall₂_map_left_iff,
    List.forall₂_map_right_iff, List.forall₂_same]
  intro c hc
  have hcomma : ∀ style ∈ [captionStyle, hookStyle], ',' ∉ style.toList := by decide
  exact times?_fields (hcomma c.style (cue_of_document? hm hdoc c hc).1)

/-- So do those of its text, if the name of the font does not make rows of its own. -/
theorem times?_text (hm : Maker.new look width height = .ok m)
    (hdoc : m.document? segments hook = some doc)
    (hfont : look.fontName.toList.Disjoint separators) :
    (ofKind "Dialogue" (rowsOf doc.text)).mapM times? = some (doc.cues.map Cue.times) := by
  rw [rowsOf_document? hm hdoc hfont, Document.ofKind_append,
    show ofKind "Dialogue" [[]] = [] by decide, List.append_nil]
  exact times?_document? hm hdoc

end Maker

/-! ## The captions of a clip -/

/-- The rows of a segment follow one another from its beginning to its end. There is one for each of
its timed words at most, and one without such words. -/
structure Spans (s : ClipSegment) (rows : List (List Char × List Char)) : Prop where
  ne_nil : rows ≠ []
  length_le : rows.length ≤ max s.words.length 1
  tile : Tile (timestamp s.window.startMs).toList rows (timestamp s.window.endMs).toList

/-- What the event rows of the captions of a clip print. -/
structure Prints (clip : Clip) (doc : Document) (rows : List (List Char × List Char)) : Prop where
  /-- These are the times in the rows that are written for the cues, -/
  written : doc.times? = some rows
  /-- and in all event rows of the text, if the name of the font does not make rows of its own. -/
  read : clip.look.fontName.toList.Disjoint separators →
    (ofKind "Dialogue" (rowsOf doc.text)).mapM times? = some rows
  /-- A row ends later than it begins if a hundredth of a second begins in its cue; otherwise it
  ends where it begins. -/
  each : Forall₂ (fun cue times => (Lasts times ↔ cue.Marked) ∧
    (¬ cue.Marked → times.1 = times.2)) doc.cues rows
  lasts : (∀ times ∈ rows, Lasts times) ↔ ∀ cue ∈ doc.cues, cue.Marked
  /-- After the headline, the rows of each segment span it. -/
  spans : ∃ headline groups, rows = headline ++ groups.flatten ∧ headline.length ≤ 1 ∧
    Forall₂ Spans clip.segments groups

theorem ofClip_eq_ok {clip : Clip} {doc : Document} (h : ofClip clip = .ok doc) :
    ∃ m, Maker.new clip.look clip.canvas.width clip.canvas.height = .ok m ∧
      m.document? clip.segments (hookOf clip) = some doc := by
  obtain ⟨m, hm, hdoc⟩ := bind_eq_ok_iff.mp h
  exact ⟨m, Outcome.ofExcept_eq_ok_iff.mp hm, Outcome.ofOption_eq_ok_iff.mp hdoc⟩

/-- Only a colour that cannot be read is a fault. -/
theorem ofClip_eq_fail {clip : Clip} {fault : Fault} (h : ofClip clip = .fail fault) :
    Maker.new clip.look clip.canvas.width clip.canvas.height = .error fault := by
  rw [ofClip] at h
  cases hm : Maker.new clip.look clip.canvas.width clip.canvas.height with
  | error fault' =>
      rw [hm] at h
      cases h
      rfl
  | ok m =>
      rw [hm] at h
      change Outcome.ofOption (m.document? clip.segments (hookOf clip)) = .fail fault at h
      cases hdoc : m.document? clip.segments (hookOf clip) with
      | none => rw [hdoc] at h; cases h
      | some doc => rw [hdoc] at h; cases h

/-- The rows of a document, segment by segment. -/
theorem Maker.spans_document? {m : Maker} {segments : List ClipSegment} {hook : Option Hook}
    {doc : Document} (hdoc : m.document? segments hook = some doc) {durationMs : Nat}
    (hinside : ∀ s ∈ segments, s.window.Inside durationMs) :
    ∃ headline groups, doc.cues.map Cue.times = headline ++ groups.flatten ∧
      headline.length ≤ 1 ∧ Forall₂ Spans segments groups := by
  obtain ⟨groups, hgroups, heq⟩ := Option.bind_eq_some_iff.mp hdoc
  obtain rfl := Option.some.inj heq
  refine ⟨(hook.bind m.hookCue?).toList.map Cue.times, groups.map (·.map Cue.times), ?_, ?_, ?_⟩
  · simp only [List.map_append, List.map_flatten]
  · rw [List.length_map]
    cases hook.bind m.hookCue? <;> simp
  · rw [List.forall₂_map_right_iff]
    have hall := (List.forall₂_and_left _ _).mpr ⟨hinside, mapM_eq_some_iff.mp hgroups⟩
    apply hall.imp
    rintro s cues ⟨hwindow, hcues⟩
    obtain ⟨hlength, htile⟩ := tile_cues hwindow.start_lt_end hcues
    have hne := htile.ne_nil hwindow.start_lt_end.ne
    have htimes := htile.map fun ms => (timestamp ms).toList
    rw [List.map_map] at htimes
    exact ⟨by simpa using hne, by rwa [List.length_map], htimes⟩

/-- The captions of an accepted edit, unless a colour of theirs cannot be read: their rows follow
one another in each segment, and all of them last exactly if a hundredth of a second begins in each
cue. -/
theorem prints_ofEdit {e : Edit} {clip : Clip} (h : Clip.ofEdit e = .ok clip) :
    (∃ fault, Maker.new clip.look clip.canvas.width clip.canvas.height = .error fault) ∨
      ∃ doc rows, ofClip clip = .ok doc ∧ Prints clip doc rows := by
  have hin := Clip.inTime_ofEdit h
  rcases ofClip_spec hin with ⟨fault, hfault⟩ | ⟨doc, hofClip, hinside⟩
  · exact .inl ⟨fault, ofClip_eq_fail hfault⟩
  obtain ⟨m, hm, hdoc⟩ := ofClip_eq_ok hofClip
  refine .inr ⟨doc, doc.cues.map Cue.times, hofClip, ?_⟩
  constructor
  case written => exact Maker.times?_document? hm hdoc
  case read => exact Maker.times?_text hm hdoc
  case each =>
    rw [List.forall₂_map_right_iff, List.forall₂_same]
    intro cue hcue
    exact ⟨lasts_times_iff cue, times_eq_of_not_marked (hinside cue hcue).start_lt_end.le⟩
  case lasts => simp only [List.forall_mem_map, lasts_times_iff]
  case spans => exact Maker.spans_document? hdoc hin.segments

/-- Every row of a headline and of two words lasts. -/
theorem prints_ofEdit_of_talk :
    let e : Edit :=
      { sourcePath := "/media/talk.mp4", trimStartMs := 0, trimEndMs := 4000,
        canvas := .portrait, hookText := some "Listen", hookMs := 1000,
        segments := [{ text := "so far", startMs := 1000, endMs := 2000, words :=
          [⟨"so", 1000, 1300⟩, ⟨"far", 1305, 1900⟩] }] }
    ∃ clip doc rows, Clip.ofEdit e = .ok clip ∧ ofClip clip = .ok doc ∧ Prints clip doc rows ∧
      ∀ times ∈ rows, Lasts times := by
  intro e
  have hcues : (Clip.ofEdit e).toOption.map (fun clip => (ofClip clip).toOption.map fun doc =>
      doc.cues.map fun c => (c.startMs, c.endMs)) =
        some (some [(0, 1000), (1000, 1305), (1305, 2000)]) := by
    decide +kernel
  obtain ⟨clip, hclip, hcues⟩ := Outcome.exists_of_map hcues
  obtain ⟨doc, hdoc, hcues⟩ := Outcome.exists_of_map hcues
  have hmarked : ∀ cue ∈ doc.cues, cue.Marked := by
    rw [forall_marked_iff, hcues]
    decide
  obtain ⟨fault, hfault⟩ | ⟨doc', rows, hdoc', hprints⟩ := prints_ofEdit hclip
  · obtain ⟨m, hm, -⟩ := ofClip_eq_ok hdoc
    cases hm.symm.trans hfault
  · obtain rfl := Except.ok.inj (hdoc.symm.trans hdoc')
    exact ⟨clip, doc, rows, hclip, hdoc, hprints, hprints.lasts.mpr hmarked⟩

/-- Of the rows of two words, the first one is printed as if it ended where it starts. -/
theorem not_lasts_of_short_word :
    let e : Edit :=
      { sourcePath := "/media/talk.mp4", trimStartMs := 0, trimEndMs := 4000,
        canvas := .portrait,
        segments := [{ text := "so well", startMs := 1000, endMs := 2000, words :=
          [⟨"so", 1000, 1004⟩, ⟨"well", 1004, 2000⟩] }] }
    ∃ clip doc rows, Clip.ofEdit e = .ok clip ∧ ofClip clip = .ok doc ∧
      (ofKind "Dialogue" (rowsOf doc.text)).mapM times? = some rows ∧
      ¬ ∀ times ∈ rows, Lasts times := by
  intro e
  have hfacts : (Clip.ofEdit e).toOption.map (fun clip => (ofClip clip).toOption.map fun doc =>
      (clip.look.fontName, doc.cues.map fun c => (c.startMs, c.endMs))) =
        some (some ("Montserrat", [(1000, 1004), (1004, 2000)])) := by
    decide +kernel
  obtain ⟨clip, hclip, hfacts⟩ := Outcome.exists_of_map hfacts
  obtain ⟨doc, hdoc, hfacts⟩ := Outcome.exists_of_map hfacts
  obtain ⟨hfont, hcues⟩ := Prod.mk.inj hfacts
  obtain ⟨m, hm, hmade⟩ := ofClip_eq_ok hdoc
  refine ⟨clip, doc, doc.cues.map Cue.times, hclip, hdoc, ?_, ?_⟩
  · apply Maker.times?_text hm hmade
    rw [hfont]
    decide
  · intro hlasts
    have hmarked : ∀ cue ∈ doc.cues, cue.Marked := by
      simpa only [List.forall_mem_map, lasts_times_iff] using hlasts
    rw [forall_marked_iff, hcues] at hmarked
    revert hmarked
    decide

end Caption

end Montage
