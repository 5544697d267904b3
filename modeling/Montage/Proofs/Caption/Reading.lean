import Montage.Proofs.Caption.Rows

/-! # Documents that are read back

The document of a track is read back as what was asked for: the two styles with the font, sizes,
colours and margins of the look, and an event for each cue. Only the name of the font, which is
written as it is given, may stand in the way. -/

namespace Montage.Caption

open List (Disjoint disjoint_left disjoint_append_left disjoint_append_right Forall₂)

/-! ## Styles -/

/-- A style row without commas in its fields is read back, whatever the fields are. -/
theorem StyleEntry.ofRow?_fields {s : Style} {primary secondary outlineColour back : Colour}
    (hfields : ∀ field ∈ s.fields, ',' ∉ field.toList)
    (hprimary : Colour.ofField? s.primary.toList = some primary)
    (hsecondary : Colour.ofField? s.secondary.toList = some secondary)
    (houtline : Colour.ofField? s.outlineColour.toList = some outlineColour)
    (hback : Colour.ofField? s.back.toList = some back) :
    StyleEntry.ofRow? ([','].intercalate (s.fields.map String.toList)) = some {
      name := s.name
      fontName := s.fontName
      fontSize := s.fontSize
      primary, secondary, outlineColour, back
      bold := s.bold
      outline := Decimal.fixed 1 s.outline
      shadow := Decimal.fixed 1 s.shadow
      alignment := s.alignment
      marginLeft := s.marginH
      marginRight := s.marginH
      marginVertical := s.marginV } := by
  have hsplit : ([','].intercalate (s.fields.map String.toList)).splitOn ',' =
      s.fields.map String.toList := by
    refine List.splitOn_intercalate ',' ?_ (by simp [Style.fields])
    rwa [List.forall_mem_map]
  have hbold : decide ((if s.bold then "-1" else "0").toList ≠ ['0']) = s.bold := by
    cases s.bold <;> rfl
  rw [StyleEntry.ofRow?, hsplit]
  simp only [Style.fields, List.map_cons, List.map_nil, StyleEntry.ofFields?, hprimary, hsecondary,
    houtline, hback, hbold, Decimal.natOfText?_toString, String.ofList_toList, Option.bind_eq_bind,
    Option.bind_some, Option.pure_def]

/-- The styles that a look asks for on a canvas. -/
def StyleEntry.ofLook? (look : CaptionLook) (width height : Nat) : Option (List StyleEntry) := do
  let caption : StyleEntry := {
    name := "Caption"
    fontName := look.fontName
    fontSize := look.fontSize
    primary := ← Colour.ofLook? look.textColor
    secondary := ← Colour.ofLook? look.highlightColor
    outlineColour := ← Colour.ofLook? look.outlineColor
    back := { alpha := 100, red := 0, green := 0, blue := 0 }
    bold := true
    outline := Decimal.fixed 1 look.outlineWidth
    shadow := "0.0"
    alignment :=
      match look.position with
      | .bottom => 2
      | .center => 5
      | .top => 8
    marginLeft := width / 18
    marginRight := width / 18
    marginVertical := look.marginV }
  let headline : StyleEntry := {
    caption with
    name := "Hook"
    fontSize := (.ofNat look.fontSize * hookScale : Binary64).round.toNat32
    shadow := "2.0"
    alignment := 8
    marginVertical := height / 10 }
  return [caption, headline]

theorem StyleEntry.ofLook?_eq_some {look : CaptionLook} {width height : Nat}
    {styles : List StyleEntry} (h : ofLook? look width height = some styles) :
    ∃ caption headline, styles = [caption, headline] ∧ caption.fontName = look.fontName := by
  obtain ⟨primary, -, h⟩ := Option.bind_eq_some_iff.mp h
  obtain ⟨secondary, -, h⟩ := Option.bind_eq_some_iff.mp h
  obtain ⟨outlineColour, -, h⟩ := Option.bind_eq_some_iff.mp h
  exact ⟨_, _, (Option.some.inj h).symm, rfl⟩

/-- The characters that separate fields and rows. -/
def separators : List Char := ',' :: rowEnds

theorem not_mem_separators {c : Char} (h : c.isDigit) : c ∉ separators := fun hmem => by
  have hall : separators.all fun c => !c.isDigit := by decide
  have hnot := List.all_eq_true.mp hall c hmem
  rw [h] at hnot
  cases hnot

theorem disjoint_fixed (places : Nat) (x : Binary64) :
    (Decimal.fixed places x).toList.Disjoint separators := by
  have hmark : ['-', '.', 'N', 'a', 'i', 'n', 'f'].Disjoint separators := by decide
  exact disjoint_left.mpr (Decimal.forall_mem_fixed (fun _ => not_mem_separators)
    (disjoint_left.mp hmark) places x)

namespace Maker

variable {m : Maker} {look : CaptionLook} {width height : Nat}

/-- Of all fields of the two style rows only the name of the font may have separators. -/
theorem disjoint_fields (hm : Maker.new look width height = .ok m)
    (hfont : look.fontName.toList.Disjoint separators) {s : Style}
    (hs : s ∈ [m.style, m.headStyle]) : ∀ field ∈ s.fields, field.toList.Disjoint separators := by
  obtain ⟨rfl, -, -, htext, hhighlight, houtline⟩ := new_eq_ok hm
  have hshared : s.name ∈ [captionStyle, hookStyle] ∧ s.fontName = m.look.fontName ∧
      s.primary = m.textColour ∧ s.secondary = m.highlightColour ∧
      s.outlineColour = m.outlineColour ∧ s.back = "&H64000000" := by
    rcases List.mem_cons.mp hs with rfl | hs
    · exact ⟨List.mem_cons_self, rfl, rfl, rfl, rfl, rfl⟩
    · rw [List.mem_singleton.mp hs]
      exact ⟨List.mem_cons_of_mem _ List.mem_cons_self, rfl, rfl, rfl, rfl, rfl⟩
  obtain ⟨hname, hfontName, hprimary, hsecondary, houtlineColour, hback⟩ := hshared
  have hnumber (n : Nat) : (toString n).toList.Disjoint separators :=
    disjoint_toString (by decide) n
  have hcolour {text tag : String} (h : colour text = .ok tag) : tag.toList.Disjoint separators :=
    disjoint_colour h (by decide)
  have hnames : ∀ name ∈ [captionStyle, hookStyle], name.toList.Disjoint separators := by decide
  have hzero : "0".toList.Disjoint separators := by decide
  have hone : "1".toList.Disjoint separators := by decide
  have hhundred : "100".toList.Disjoint separators := by decide
  have hbackColour : "&H64000000".toList.Disjoint separators := by decide
  have hbold : (if s.bold then "-1" else "0").toList.Disjoint separators := by
    cases s.bold <;> decide
  simp only [Style.fields, List.forall_mem_cons, hfontName, hprimary, hsecondary, houtlineColour,
    hback]
  exact ⟨hnames _ hname, hfont, hnumber _, hcolour htext, hcolour hhighlight,
    hcolour houtline, hbackColour, hbold, hzero, hzero, hzero, hhundred, hhundred, hzero,
    hzero, hone, disjoint_fixed 1 _, disjoint_fixed 1 _, hnumber _, hnumber _, hnumber _, hnumber _,
    hone, List.forall_mem_nil _⟩

/-- The rows of the two styles are read back as what the look asks for. -/
theorem ofRow?_styles (hm : Maker.new look width height = .ok m)
    (hfont : look.fontName.toList.Disjoint separators) :
    ∃ styles, StyleEntry.ofLook? look width height = some styles ∧
      Forall₂ (fun s entry =>
        StyleEntry.ofRow? ([','].intercalate (s.fields.map String.toList)) = some entry)
        [m.style, m.headStyle] styles := by
  have hcomma {s : Style} (hs : s ∈ [m.style, m.headStyle]) :
      ∀ field ∈ s.fields, ',' ∉ field.toList := fun field hfield =>
    disjoint_left.mp (disjoint_fields hm hfont hs field hfield).symm List.mem_cons_self
  obtain ⟨rfl, rfl, rfl, htext, hhighlight, houtline⟩ := new_eq_ok hm
  obtain ⟨primary, hprimary, hprimary'⟩ := colour_read htext
  obtain ⟨secondary, hsecondary, hsecondary'⟩ := colour_read hhighlight
  obtain ⟨outlineColour, houtlineColour, houtlineColour'⟩ := colour_read houtline
  have hback : Colour.ofField? "&H64000000".toList = some ⟨100, 0, 0, 0⟩ := by decide
  have hshadow : Decimal.fixed 1 0 = "0.0" ∧ Decimal.fixed 1 2 = "2.0" := by decide +kernel
  refine ⟨_, by rw [StyleEntry.ofLook?, hprimary, hsecondary, houtlineColour]; rfl, ?_⟩
  refine .cons ?_ (.cons ?_ .nil)
  · have hrow := StyleEntry.ofRow?_fields (s := m.style) (hcomma (by simp)) hprimary' hsecondary'
      houtlineColour' hback
    rw [hrow, style, hshadow.1]
    rfl
  · have hrow := StyleEntry.ofRow?_fields (s := m.headStyle) (hcomma (by simp)) hprimary'
      hsecondary' houtlineColour' hback
    rw [hrow, headStyle, hshadow.2]
    rfl

end Maker

/-! ## Events -/

theorem disjoint_timestamp (ms : Nat) : (timestamp ms).toList.Disjoint separators := by
  have hpadded (n : Nat) : ∀ c ∈ Decimal.padded 2 n, c ∉ separators := fun c hc =>
    not_mem_separators (Decimal.isDigit_of_mem_padded hc)
  have hhours (n : Nat) : ∀ c ∈ Nat.toDigits 10 n, c ∉ separators := fun c hc =>
    not_mem_separators (Nat.isDigit_of_mem_toDigits (by decide) (by decide) hc)
  have hcolon : ':' ∉ separators ∧ '.' ∉ separators := by decide
  rw [toList_timestamp, disjoint_left]
  simp only [List.forall_mem_append, List.forall_mem_cons]
  exact ⟨hhours _, hcolon.1, hpadded _, hcolon.1, hpadded _, hcolon.2, hpadded _⟩

theorem Cue.disjoint_fields {c : Cue} (hstyle : c.style ∈ [captionStyle, hookStyle])
    (htext : c.text.toList.Disjoint rowEnds) :
    ∀ field ∈ c.fields, field.toList.Disjoint rowEnds := by
  have htime (ms : Nat) : (timestamp ms).toList.Disjoint rowEnds :=
    (List.disjoint_cons_right.mp (disjoint_timestamp ms)).2
  have hnames : ∀ name ∈ [captionStyle, hookStyle], name.toList.Disjoint rowEnds := by decide
  have hempty : "".toList.Disjoint rowEnds := by decide
  have hzero : "0".toList.Disjoint rowEnds := by decide
  simp only [Cue.fields, List.forall_mem_cons]
  exact ⟨hzero, htime _, htime _, hnames _ hstyle, hempty, hzero, hzero,
    hzero, hempty, htext, List.forall_mem_nil _⟩

/-- An event as the cue asks for it, with times cut off to hundredths of a second. -/
def EventEntry.ofCue (c : Cue) : EventEntry :=
  { startMs := 10 * (c.startMs / 10), endMs := 10 * (c.endMs / 10), style := c.style,
    text := c.text }

/-- The fields of an event row, whatever its text is. -/
theorem Cue.fields?_row {c : Cue} (hstyle : ',' ∉ c.style.toList) :
    fields? 9 ([','].intercalate (c.fields.map String.toList)) =
      some (c.fields.map String.toList) := by
  let first := [['0'], (timestamp c.startMs).toList, (timestamp c.endMs).toList, c.style.toList, [],
    ['0'], ['0'], ['0'], []]
  have htime (ms : Nat) : ',' ∉ (timestamp ms).toList :=
    disjoint_left.mp (disjoint_timestamp ms).symm List.mem_cons_self
  have hfirst : ∀ text ∈ first, ',' ∉ text := by
    simp [first, htime, hstyle]
  have hfields : c.fields.map String.toList = first ++ [c.text.toList] := rfl
  rw [hfields]
  exact fields?_intercalate hfirst c.text.toList

/-- An event row is read back, whatever its text is. -/
theorem EventEntry.ofRow?_fields {c : Cue} (hstyle : ',' ∉ c.style.toList) :
    EventEntry.ofRow? ([','].intercalate (c.fields.map String.toList)) =
      some (EventEntry.ofCue c) := by
  rw [EventEntry.ofRow?, Cue.fields?_row hstyle]
  simp [Cue.fields, timeMs?_timestamp, ofCue]

/-! ## Documents -/

namespace Document

variable {doc : Document}

theorem disjoint_row {kind separator : String} {fields : List String}
    (hkind : (kind ++ ": ").toList.Disjoint rowEnds)
    (hseparator : separator.toList.Disjoint rowEnds)
    (hfields : ∀ field ∈ fields, field.toList.Disjoint rowEnds) :
    (row kind separator fields).toList.Disjoint rowEnds := by
  rw [toList_row, disjoint_append_left]
  refine ⟨hkind, disjoint_intercalate hseparator ?_⟩
  rwa [List.forall_mem_map]

/-- If no field ends a row, no line has the end of a row in it. -/
theorem disjoint_lines
    (hstyles : ∀ s ∈ doc.styles, ∀ field ∈ s.fields, field.toList.Disjoint rowEnds)
    (hcues : ∀ c ∈ doc.cues, ∀ field ∈ c.fields, field.toList.Disjoint rowEnds) :
    ∀ line ∈ doc.lines, line.toList.Disjoint rowEnds := by
  have hnumber {start : String} (h : start.toList.Disjoint rowEnds) (n : Nat) :
      (start ++ toString n).toList.Disjoint rowEnds := by
    rw [String.toList_append, disjoint_append_left]
    exact ⟨h, disjoint_toString (by decide) n⟩
  have hstyleFormat : (row "Format" ", " styleColumns).toList.Disjoint rowEnds :=
    disjoint_row (by decide) (by decide) (by decide)
  have heventFormat : (row "Format" ", " eventColumns).toList.Disjoint rowEnds :=
    disjoint_row (by decide) (by decide) (by decide)
  simp only [lines, List.forall_mem_append, List.forall_mem_map, List.forall_mem_cons]
  refine ⟨⟨⟨?_, fun s hs => ?_⟩, ?_⟩, fun c hc => ?_⟩
  · exact ⟨by decide, by decide, hnumber (by decide) _, hnumber (by decide) _, by decide, by decide,
      by decide, by decide, hstyleFormat, List.forall_mem_nil _⟩
  · exact disjoint_row (by decide) (by decide) (hstyles s hs)
  · exact ⟨by decide, by decide, heventFormat, List.forall_mem_nil _⟩
  · exact disjoint_row (by decide) (by decide) (hcues c hc)

theorem ofKind_append (kind : String) (rows rows' : List (List Char)) :
    ofKind kind (rows ++ rows') = ofKind kind rows ++ ofKind kind rows' :=
  List.filterMap_append

/-- The rows of a kind say what is written in their fields. -/
theorem ofKind_row {α : Type} (kind : String) (fields : α → List String) (xs : List α) :
    ofKind kind (xs.map fun x => (row kind "," (fields x)).toList) =
      xs.map fun x => [','].intercalate ((fields x).map String.toList) := by
  have hrow (x : α) : Text.after? (kind ++ ": ").toList (row kind "," (fields x)).toList =
      some ([','].intercalate ((fields x).map String.toList)) := by
    rw [toList_row, Text.after?_append]
    rfl
  rw [ofKind, List.filterMap_map]
  simp only [Function.comp_def, hrow]
  exact congrFun List.filterMap_eq_map xs

/-- Neither the header nor the rows of another kind are rows of a kind. -/
theorem ofKind_lines (doc : Document) {kind : String} (h : kind ∈ ["Style", "Dialogue"]) :
    ofKind kind (doc.lines.map String.toList ++ [[]]) =
      ofKind kind (doc.styles.map fun s => (row "Style" "," s.fields).toList) ++
        ofKind kind (doc.cues.map fun c => (row "Dialogue" "," c.fields).toList) := by
  have hfixed {text : String} (hall : ∀ kind ∈ ["Style", "Dialogue"],
      Text.after? (kind ++ ": ").toList text.toList = none) :
      Text.after? (kind ++ ": ").toList text.toList = none := hall kind h
  obtain ⟨first, start, hstart, hP, hF⟩ : ∃ first start, (kind ++ ": ").toList = first :: start ∧
      first ≠ 'P' ∧ first ≠ 'F' := by
    rcases List.mem_cons.mp h with rfl | h
    · exact ⟨'S', _, rfl, by decide, by decide⟩
    · rw [List.mem_singleton.mp h]
      exact ⟨'D', _, rfl, by decide, by decide⟩
  have hsize {label : String} {rest : List Char} (hlabel : label.toList = 'P' :: rest) (n : Nat) :
      Text.after? (kind ++ ": ").toList (label ++ toString n).toList = none := by
    rw [hstart, String.toList_append, hlabel]
    exact Text.after?_of_ne hP _ _
  have hformat (columns : List String) :
      Text.after? (kind ++ ": ").toList (row "Format" ", " columns).toList = none := by
    rw [toList_row, hstart]
    exact Text.after?_of_ne hF _ _
  have hblank : Text.after? (kind ++ ": ").toList "".toList = none := hfixed (by decide)
  have hempty : ofKind kind [[]] = [] := List.filterMap_eq_nil_iff.mpr
    (List.forall_mem_singleton.mpr hblank)
  have hheader : ofKind kind (["[Script Info]", "ScriptType: v4.00+", s!"PlayResX: {doc.width}",
      s!"PlayResY: {doc.height}", "WrapStyle: 0", "ScaledBorderAndShadow: yes", "", "[V4+ Styles]",
      row "Format" ", " styleColumns].map String.toList) = [] := by
    rw [ofKind, List.filterMap_eq_nil_iff, List.forall_mem_map]
    simp only [List.forall_mem_cons]
    exact ⟨hfixed (by decide), hfixed (by decide), hsize rfl _, hsize rfl _, hfixed (by decide),
      hfixed (by decide), hfixed (by decide), hfixed (by decide), hformat _, List.forall_mem_nil _⟩
  have hevents : ofKind kind (["", "[Events]", row "Format" ", " eventColumns].map String.toList) =
      [] := by
    rw [ofKind, List.filterMap_eq_nil_iff, List.forall_mem_map]
    simp only [List.forall_mem_cons]
    exact ⟨hfixed (by decide), hfixed (by decide), hformat _, List.forall_mem_nil _⟩
  simp only [lines, List.map_append, ofKind_append, hheader, hevents, hempty, List.nil_append,
    List.append_nil, List.map_map, Function.comp_def]

theorem ofKind_style (doc : Document) : ofKind "Style" (doc.lines.map String.toList ++ [[]]) =
    doc.styles.map fun s => [','].intercalate (s.fields.map String.toList) := by
  have hcues :
      ofKind "Style" (doc.cues.map fun c => (row "Dialogue" "," c.fields).toList) = [] := by
    rw [ofKind, List.filterMap_eq_nil_iff, List.forall_mem_map]
    intro c _
    rw [toList_row]
    exact Text.after?_of_ne (by decide) _ _
  rw [ofKind_lines doc (by decide), ofKind_row, hcues, List.append_nil]

theorem ofKind_dialogue (doc : Document) : ofKind "Dialogue" (doc.lines.map String.toList ++ [[]]) =
    doc.cues.map fun c => [','].intercalate (c.fields.map String.toList) := by
  have hstyles :
      ofKind "Dialogue" (doc.styles.map fun s => (row "Style" "," s.fields).toList) = [] := by
    rw [ofKind, List.filterMap_eq_nil_iff, List.forall_mem_map]
    intro s _
    rw [toList_row]
    exact Text.after?_of_ne (by decide) _ _
  rw [ofKind_lines doc (by decide), ofKind_row, hstyles, List.nil_append]

end Document

namespace Maker

variable {m : Maker} {look : CaptionLook} {width height : Nat} {segments : List ClipSegment}
  {hook : Option Hook} {doc : Document}

theorem exists_boundaries?_iff {s : ClipSegment} : (∃ bounds, boundaries? s = some bounds) ↔
    s.words.length ≤ 1 ∨ s.window.startMs ≤ s.window.endMs := by
  constructor
  · rintro ⟨bounds, hbounds⟩
    obtain ⟨later, hlater, -⟩ := Option.bind_eq_some_iff.mp hbounds
    match hwords : s.words with
    | [] => exact .inl (Nat.zero_le 1)
    | [word] => exact .inl le_rfl
    | word :: next :: rest =>
        rw [hwords, List.drop_one, List.tail_cons, boundariesFrom?,
          Option.ite_none_left_eq_some] at hlater
        exact .inr (Nat.not_lt.mp hlater.1)
  · rintro (hcount | h)
    · rw [boundaries?, List.drop_eq_nil_of_le hcount]
      exact ⟨_, rfl⟩
    · obtain ⟨bounds, hbounds, -⟩ := boundaries?_spec h
      exact ⟨bounds, hbounds⟩

theorem exists_cues?_iff {s : ClipSegment} : (∃ cues, m.cues? s = some cues) ↔
    s.words.length ≤ 1 ∨ s.window.startMs ≤ s.window.endMs := by
  rw [cues?]
  split
  case isTrue hwords => simp [hwords]
  case isFalse =>
    rw [← exists_boundaries?_iff, wordCues?]
    constructor
    · rintro ⟨cues, hcues⟩
      obtain ⟨bounds, hbounds, -⟩ := Option.bind_eq_some_iff.mp hcues
      exact ⟨bounds, hbounds⟩
    · rintro ⟨bounds, hbounds⟩
      rw [hbounds]
      exact ⟨_, rfl⟩

/-- A document can be made unless a segment with two words or more ends before it begins. -/
theorem exists_document?_iff : (∃ doc, m.document? segments hook = some doc) ↔
    ∀ s ∈ segments, s.words.length ≤ 1 ∨ s.window.startMs ≤ s.window.endMs := by
  have hcues : (∃ groups, segments.mapM m.cues? = some groups) ↔
      ∀ s ∈ segments, ∃ cues, m.cues? s = some cues := by
    simp only [mapM_eq_some_iff, exists_forall₂_iff]
  simp only [← exists_cues?_iff (m := m), ← hcues]
  constructor
  · rintro ⟨doc, hdoc⟩
    obtain ⟨groups, hgroups, -⟩ := Option.bind_eq_some_iff.mp hdoc
    exact ⟨groups, hgroups⟩
  · rintro ⟨groups, hgroups⟩
    rw [document?, hgroups]
    exact ⟨_, rfl⟩

theorem styles_of_document? (h : m.document? segments hook = some doc) :
    doc.styles = [m.style, m.headStyle] := by
  obtain ⟨groups, -, hdoc⟩ := Option.bind_eq_some_iff.mp h
  rw [← Option.some.inj hdoc]

theorem hookCue?_style {hook : Hook} {cue : Cue} (h : m.hookCue? hook = some cue) :
    cue.style = hookStyle := by
  simp only [hookCue?, Option.ite_none_left_eq_some, Option.some.injEq] at h
  rw [← h.2]

theorem cues?_style {s : ClipSegment} {cues : List Cue} (h : m.cues? s = some cues) :
    ∀ cue ∈ cues, cue.style = captionStyle := by
  intro cue hcue
  rw [cues?] at h
  split at h
  case isTrue =>
    obtain rfl := Option.some.inj h
    have hcue := Option.mem_toList.mp hcue
    simp only [segmentCue?, Option.ite_none_left_eq_some, Option.some.injEq] at hcue
    rw [← hcue.2]
  case isFalse hwords =>
    obtain ⟨i, hcue⟩ := exists_highlights hwords h cue hcue
    exact hcue.style

theorem cue_of_document? (hm : Maker.new look width height = .ok m)
    (hdoc : m.document? segments hook = some doc) : ∀ cue ∈ doc.cues,
      cue.style ∈ [captionStyle, hookStyle] ∧ cue.text.toList.Disjoint rowEnds := by
  obtain ⟨groups, hgroups, hdoc⟩ := Option.bind_eq_some_iff.mp hdoc
  obtain rfl := Option.some.inj hdoc
  refine List.forall_mem_append.mpr ⟨fun cue hcue => ?_, fun cue hcue => ?_⟩
  · obtain ⟨h, -, hcue⟩ := Option.bind_eq_some_iff.mp (Option.mem_toList.mp hcue)
    exact ⟨by simp [hookCue?_style hcue], (hookCue?_shows hm hcue).oneRow⟩
  · obtain ⟨cues, hmem, hcue⟩ := List.mem_flatten.mp hcue
    obtain ⟨s, -, hcues⟩ := exists_of_forall₂ (mapM_eq_some_iff.mp hgroups) cues hmem
    obtain ⟨t, hreads, -⟩ := cues?_show hm hcues cue hcue
    exact ⟨by simp [cues?_style hcues cue hcue], hreads.oneRow⟩

/-- The rows of a document are its lines, if the name of the font has no separators. -/
theorem rowsOf_document? (hm : Maker.new look width height = .ok m)
    (hdoc : m.document? segments hook = some doc)
    (hfont : look.fontName.toList.Disjoint separators) :
    rowsOf doc.text = doc.lines.map String.toList ++ [[]] := by
  have hcues := cue_of_document? hm hdoc
  apply rowsOf_join
  apply Document.disjoint_lines
  · intro s hs field hfield
    rw [styles_of_document? hdoc] at hs
    exact (List.disjoint_cons_right.mp (disjoint_fields hm hfont hs field hfield)).2
  · intro c hc
    exact Cue.disjoint_fields (hcues c hc).1 (hcues c hc).2

end Maker

/-! ## Reading back -/

namespace Played

variable {text : String} {p : Played}

theorem fontName_mem {fields : List (List Char)} {entry : StyleEntry}
    (h : StyleEntry.ofFields? fields = some entry) : entry.fontName.toList ∈ fields := by
  unfold StyleEntry.ofFields? at h
  split at h
  case h_1 =>
    simp only [Option.bind_eq_bind, Option.bind_eq_some_iff, Option.pure_def,
      Option.some.injEq] at h
    obtain ⟨_, _, _, _, _, _, _, _, _, _, _, _, _, _, _, _, _, _, rfl⟩ := h
    simp
  case h_2 => cases h

/-- The name of a font that is read has no separators, whatever the document is. -/
theorem disjoint_fontName (h : Played.read? text = some p) :
    ∀ entry ∈ p.styles, entry.fontName.toList.Disjoint separators := by
  obtain ⟨styles, hstyles, h⟩ := Option.bind_eq_some_iff.mp h
  obtain ⟨events, -, h⟩ := Option.bind_eq_some_iff.mp h
  obtain rfl := Option.some.inj h
  intro entry hentry
  obtain ⟨rest, hrest, hentry⟩ := exists_of_forall₂ (mapM_eq_some_iff.mp hstyles) entry hentry
  obtain ⟨r, hr, hafter⟩ := List.mem_filterMap.mp hrest
  rw [Text.after?, Option.ite_none_right_eq_some, Option.some.injEq] at hafter
  -- the name is a piece of a row, which is a piece of the text
  have hname := fontName_mem hentry
  rw [List.splitOn_eq_splitOnP] at hname
  refine List.disjoint_cons_right.mpr ⟨fun hcomma => ?_, disjoint_left.mpr fun c hc => ?_⟩
  · simpa using (mem_of_mem_splitOnP hname ',' hcomma).2
  · have hrest := (mem_of_mem_splitOnP hname c hc).1
    rw [← hafter.2] at hrest
    simpa using (mem_of_mem_splitOnP hr c (List.mem_of_mem_drop hrest)).2

end Played

/-- A document is read back as the styles that the look asks for and one event for each cue, exactly
if the name of the font has no comma and no end of a row in it. There is no document if a segment
with two words or more ends before it begins. -/
theorem Maker.read?_document? {m : Maker} {look : CaptionLook} {width height : Nat}
    (hm : Maker.new look width height = .ok m) (segments : List ClipSegment) (hook : Option Hook) :
    (∃ doc styles, m.document? segments hook = some doc ∧
        StyleEntry.ofLook? look width height = some styles ∧
        Played.read? doc.text = some ⟨styles, doc.cues.map EventEntry.ofCue⟩) ↔
      look.fontName.toList.Disjoint separators ∧
        ∀ s ∈ segments, s.words.length ≤ 1 ∨ s.window.startMs ≤ s.window.endMs := by
  rw [← exists_document?_iff]
  constructor
  · rintro ⟨doc, styles, hdoc, hstyles, hread⟩
    refine ⟨?_, doc, hdoc⟩
    obtain ⟨caption, headline, rfl, hname⟩ := StyleEntry.ofLook?_eq_some hstyles
    exact hname ▸ Played.disjoint_fontName hread caption List.mem_cons_self
  · rintro ⟨hfont, doc, hdoc⟩
    obtain ⟨styles, hstyles, hrows⟩ := ofRow?_styles hm hfont
    have hcues := cue_of_document? hm hdoc
    have hrowsOf := rowsOf_document? hm hdoc hfont
    have hstyleRows : (ofKind "Style" (rowsOf doc.text)).mapM StyleEntry.ofRow? = some styles := by
      rw [hrowsOf, Document.ofKind_style, styles_of_document? hdoc, mapM_eq_some_iff,
        List.forall₂_map_left_iff]
      exact hrows
    have heventRows : (ofKind "Dialogue" (rowsOf doc.text)).mapM EventEntry.ofRow? =
        some (doc.cues.map EventEntry.ofCue) := by
      rw [hrowsOf, Document.ofKind_dialogue, mapM_eq_some_iff, List.forall₂_map_left_iff,
        List.forall₂_map_right_iff, List.forall₂_same]
      intro c hc
      have hcomma : ∀ style ∈ [captionStyle, hookStyle], ',' ∉ style.toList := by decide
      exact EventEntry.ofRow?_fields (hcomma c.style (hcues c hc).1)
    refine ⟨doc, styles, hdoc, hstyles, ?_⟩
    rw [Played.read?, hstyleRows, heventRows]
    rfl

/-- Commas in captions stay in their texts. -/
theorem Maker.read?_document?_of_commas :
    let look : CaptionLook := { fontName := "Open Sans", textColor := "##ff8000" }
    let s : ClipSegment :=
      { text := "", window := ⟨1005, 3725⟩, startsInClip := true, words :=
        [⟨"well,", ⟨1005, 2000⟩⟩, ⟨"Style: now", ⟨2000, 3725⟩⟩] }
    ∃ m, Maker.new look 1080 1920 = .ok m ∧
      ∃ doc styles, m.document? [s] (some ⟨"one, two\nthree", 900⟩) = some doc ∧
        StyleEntry.ofLook? look 1080 1920 = some styles ∧
        Played.read? doc.text = some ⟨styles, doc.cues.map EventEntry.ofCue⟩ := by
  intro look s
  let m : Maker :=
    { look, width := 1080, height := 1920, textColour := "&H000080FF",
      highlightColour := "&H0000E0FF", outlineColour := "&H00000000" }
  have hm : Maker.new look 1080 1920 = .ok m := by decide +kernel
  have hfont : look.fontName.toList.Disjoint separators := by decide
  have hwindow : s.window.startMs ≤ s.window.endMs := by decide
  exact ⟨m, hm, (Maker.read?_document? hm [s] _).mpr
    ⟨hfont, List.forall_mem_singleton.mpr (.inr hwindow)⟩⟩

/-- The name of a font with a comma is taken, and shifts the fields of both style rows. -/
theorem Maker.not_read?_document?_of_comma :
    let look : CaptionLook := { fontName := "Arial, sans-serif" }
    ∃ m, Maker.new look 1080 1920 = .ok m ∧
      ¬ ∃ doc styles, m.document? [] none = some doc ∧
        StyleEntry.ofLook? look 1080 1920 = some styles ∧
        Played.read? doc.text = some ⟨styles, doc.cues.map EventEntry.ofCue⟩ := by
  intro look
  let m : Maker :=
    { look, width := 1080, height := 1920, textColour := "&H00FFFFFF",
      highlightColour := "&H0000E0FF", outlineColour := "&H00000000" }
  have hm : Maker.new look 1080 1920 = .ok m := by decide +kernel
  refine ⟨m, hm, ?_⟩
  rintro ⟨doc, styles, hdoc, hstyles, hread⟩
  obtain ⟨caption, headline, rfl, hname⟩ := StyleEntry.ofLook?_eq_some hstyles
  have hfont := Played.disjoint_fontName hread caption List.mem_cons_self
  rw [hname] at hfont
  exact disjoint_left.mp hfont (by decide) List.mem_cons_self

end Montage.Caption
