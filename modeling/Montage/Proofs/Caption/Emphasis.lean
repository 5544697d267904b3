import Montage.Proofs.Caption.Markup
import Montage.Proofs.Lists

/-! # What cues show

The cues of a document are read as markup. Each has the blocks that were made for it and no others,
whatever is written in the captions, and all cues of a segment with timed words show the same
line. -/

namespace Montage

open List (Disjoint disjoint_left disjoint_append_left disjoint_append_right Forall₂)

namespace Caption

/-! ## Words with a block each -/

theorem disjoint_intercalate {sep bad : List Char} {pieces : List (List Char)}
    (hsep : sep.Disjoint bad) (h : ∀ piece ∈ pieces, piece.Disjoint bad) :
    (sep.intercalate pieces).Disjoint bad := by
  induction pieces with
  | nil => exact List.disjoint_nil_left bad
  | cons piece pieces ih =>
      obtain ⟨hpiece, hrest⟩ := List.forall_mem_cons.mp h
      cases pieces with
      | nil => rwa [List.intercalate_singleton]
      | cons next rest =>
          rw [List.intercalate_cons_cons, disjoint_append_left, disjoint_append_left]
          exact ⟨⟨hpiece, hsep⟩, ih hrest⟩

namespace Marked

theorem breaksOnly_spaced {words : List (List Char)} (h : ∀ word ∈ words, BreaksOnly word) :
    ∀ piece ∈ spaced words, BreaksOnly piece := by
  induction words with
  | nil => simp [spaced]
  | cons word words ih =>
      obtain ⟨hword, hrest⟩ := List.forall_mem_cons.mp h
      cases words with
      | nil => simpa [spaced] using hword
      | cons next rest =>
          refine List.forall_mem_cons.mpr ⟨hword.append ⟨?_, trivial⟩, ih hrest⟩
          exact fun heq => absurd heq (by decide)

/-- A row of words with a block each is read as such. -/
theorem reads_ofWords {pairs : List (String × String)}
    (htags : ∀ p ∈ pairs, p.1.toList.Disjoint (braces ++ rowEnds))
    (hwords : ∀ p ∈ pairs, ∃ text, p.2 = escape text) :
    Reads (" ".intercalate (pairs.map fun p => block p.1 ++ p.2))
      (ofWords (pairs.map (·.1.toList)) (pairs.map (·.2.toList))) := by
  have hword : ∀ p ∈ pairs, p.2.toList.Disjoint (braces ++ rowEnds) := by
    intro p hp
    obtain ⟨text, htext⟩ := hwords p hp
    exact htext ▸ disjoint_escape text
  constructor
  case read? =>
    have hread := readFrom?_ofWords fun p (hp : p ∈ pairs) =>
      ⟨(disjoint_append_right.mp (htags p hp)).1, (disjoint_append_right.mp (hword p hp)).1⟩
    rw [read?, String.toList_intercalate, List.map_map]
    simpa [Function.comp_def] using hread
  case oneRow =>
    rw [String.toList_intercalate, List.map_map]
    refine disjoint_intercalate (by decide) ?_
    rw [List.forall_mem_map]
    intro p hp
    have hblock : (block p.1).toList.Disjoint rowEnds := by
      have hrow := (disjoint_append_right.mp (htags p hp)).2
      simp only [block, String.toList_append, disjoint_append_left]
      exact ⟨⟨by decide, hrow⟩, by decide⟩
    rw [Function.comp_apply, String.toList_append, disjoint_append_left]
    exact ⟨hblock, (disjoint_append_right.mp (hword p hp)).2⟩
  case breaks =>
    rw [plain_ofWords (by simp)]
    refine List.forall_mem_cons.mpr ⟨trivial, breaksOnly_spaced ?_⟩
    rw [List.forall_mem_map]
    intro p hp
    obtain ⟨text, htext⟩ := hwords p hp
    exact htext ▸ breaksOnly_escape text

theorem reads_plain (text : String) : Reads (escape text) ⟨(escape text).toList, []⟩ := by
  obtain ⟨hbraces, hrow⟩ := disjoint_append_right.mp (disjoint_escape text)
  refine ⟨?_, hrow, List.forall_mem_singleton.mpr (breaksOnly_escape text)⟩
  have hread := readFrom?_plain hbraces []
  rw [List.append_nil] at hread
  rw [read?, hread]
  simp [readFrom?]

end Marked

/-! ## Cues -/

/-- Text as a look shows it: in upper case if it asks for it, and made safe. -/
def plainText (look : CaptionLook) (text : String) : List Char :=
  (escape (if look.uppercase then Text.upper text else text)).toList

/-- The words of a segment as a look shows them. -/
def plainWords (look : CaptionLook) (s : ClipSegment) : List (List Char) :=
  s.words.map fun word => plainText look (Text.trim word.text)

/-- A cue in which word `i` of a segment is active: it shows the whole line, the words before the
active one plain, this one alone in the colour of highlights, and those after it half
transparent. -/
structure Emphasises (look : CaptionLook) (s : ClipSegment) (i : Nat) (cue : Cue) (t : Marked) :
    Prop where
  active : i < s.words.length
  window : cue.window = ⟨s.boundary i, s.boundary (i + 1)⟩
  words : t.plain = [] :: Marked.spaced (plainWords look s)
  visible : t.visible = [' '].intercalate (plainWords look s)
  spoken : t.tags.take i = List.replicate i ['\\', 'r']
  highlight : ∃ colourTag pulse, colour look.highlightColor = .ok colourTag ∧
    t.tags[i]? = some ("\\r\\1c".toList ++ colourTag.toList ++ ['&'] ++ pulse)
  coming : t.tags.drop (i + 1) =
    List.replicate (s.words.length - (i + 1)) "\\r\\1a&H80&".toList

/-- A cue of a segment: its text pops in as a whole, or one of its words is active. -/
inductive Shows (look : CaptionLook) (s : ClipSegment) (cue : Cue) (t : Marked) : Prop where
  | whole (popMs : Nat) (hwords : s.words = [])
      (htext : t = ⟨[], [(s!"\\fscx80\\fscy80\\t(0,{popMs},\\fscx100\\fscy100)".toList,
        plainText look s.text)]⟩)
  | word (i : Nat) (hword : Emphasises look s i cue t)

namespace Maker

variable {m : Maker} {look : CaptionLook} {width height : Nat} {s : ClipSegment} {cue : Cue}

theorem new_eq_ok (h : Maker.new look width height = .ok m) :
    m.look = look ∧ m.width = width ∧ m.height = height ∧
      colour look.textColor = .ok m.textColour ∧
      colour look.highlightColor = .ok m.highlightColour ∧
      colour look.outlineColor = .ok m.outlineColour := by
  obtain ⟨text, htext, h⟩ := bind_eq_ok_iff.mp h
  obtain ⟨highlight, hhighlight, h⟩ := bind_eq_ok_iff.mp h
  obtain ⟨outline, houtline, h⟩ := bind_eq_ok_iff.mp h
  obtain rfl := Except.ok.inj h
  exact ⟨rfl, rfl, rfl, htext, hhighlight, houtline⟩

/-- The words of a segment with their tags while one of them is active. -/
def tagged (m : Maker) (before : List ClipWord) (word : ClipWord) (after : List ClipWord) :
    List (String × String) :=
  let styled (turn : Turn) (w : ClipWord) := (m.tags (word.window.duration / 2) turn, m.shown w)
  before.map (styled .spoken) ++ styled .active word :: after.map (styled .coming)

theorem highlighting_eq (m : Maker) (before : List ClipWord) (word : ClipWord)
    (after : List ClipWord) : m.highlighting before word after =
      " ".intercalate ((m.tagged before word after).map fun p => block p.1 ++ p.2) := by
  simp [highlighting, tagged, Function.comp_def]

theorem exists_of_mem_tagged {before after : List ClipWord} {word : ClipWord}
    {p : String × String} (h : p ∈ m.tagged before word after) :
    (∃ turn, p.1 = m.tags (word.window.duration / 2) turn) ∧ ∃ w, p.2 = m.shown w := by
  simp only [tagged, List.mem_append, List.mem_cons, List.mem_map] at h
  rcases h with ⟨w, -, rfl⟩ | rfl | ⟨w, -, rfl⟩
  · exact ⟨⟨.spoken, rfl⟩, w, rfl⟩
  · exact ⟨⟨.active, rfl⟩, word, rfl⟩
  · exact ⟨⟨.coming, rfl⟩, w, rfl⟩

theorem tags_active (m : Maker) (pulseMs : Nat) : ∃ pulse,
    (m.tags pulseMs .active).toList =
      "\\r\\1c".toList ++ m.highlightColour.toList ++ ['&'] ++ pulse := by
  simp only [tags]
  split
  · exact ⟨[], by simp only [String.toList_append, List.append_nil]; rfl⟩
  · exact ⟨_, by simp only [String.toList_append, List.append_assoc]; rfl⟩

theorem Highlights.emphasises (hm : Maker.new look width height = .ok m) {i : Nat}
    (h : m.Highlights s i cue) : ∃ t : Marked, t.Reads cue.text ∧ Emphasises look s i cue t := by
  obtain ⟨rfl, -, -, -, hcolour, -⟩ := new_eq_ok hm
  obtain ⟨hwindow, -, before, word, after, hwords, rfl, htext⟩ := h
  have hplain : (m.tagged before word after).map (·.2.toList) = plainWords m.look s := by
    simp [tagged, plainWords, hwords, shown, plainText, cased, Function.comp_def]
  have htags : (m.tagged before word after).map (·.1.toList) =
      List.replicate before.length ['\\', 'r'] ++
        (m.tags (word.window.duration / 2) .active).toList ::
          List.replicate after.length "\\r\\1a&H80&".toList := by
    simp [tagged, tags, Function.comp_def]
  have hcount : s.words.length - (before.length + 1) = after.length := by
    rw [hwords, List.length_append, List.length_cons]
    omega
  obtain ⟨pulse, hpulse⟩ := m.tags_active (word.window.duration / 2)
  rw [hpulse] at htags
  have hlength : ((m.tagged before word after).map (·.1.toList)).length =
      (plainWords m.look s).length := by
    rw [← hplain, List.length_map, List.length_map]
  refine ⟨.ofWords ((m.tagged before word after).map (·.1.toList)) (plainWords m.look s), ?_, ?_⟩
  · rw [htext, highlighting_eq, ← hplain]
    refine Marked.reads_ofWords (fun p hp => ?_) fun p hp => ?_
    · obtain ⟨⟨turn, hturn⟩, -⟩ := exists_of_mem_tagged hp
      exact hturn ▸ disjoint_tags (disjoint_colour hcolour (by decide)) _ turn
    · obtain ⟨-, w, hw⟩ := exists_of_mem_tagged hp
      exact ⟨_, hw⟩
  · constructor
    case active => simp [hwords]
    case window => exact hwindow
    case words => exact Marked.plain_ofWords hlength
    case visible => exact Marked.visible_ofWords hlength
    case spoken =>
      rw [Marked.tags_ofWords hlength, htags, List.take_left' List.length_replicate]
    case highlight =>
      refine ⟨m.highlightColour, pulse, hcolour, ?_⟩
      rw [Marked.tags_ofWords hlength, htags, List.getElem?_append_right (by simp)]
      simp
    case coming =>
      rw [Marked.tags_ofWords hlength, htags, hcount, List.append_cons,
        List.drop_left' (by simp)]

/-- A segment that ends before it begins has no cues for its words. -/
theorem wordCues?_of_end_lt_start (h : s.window.endMs < s.window.startMs) {cues : List Cue}
    (hcues : m.wordCues? s = some cues) : cues = [] := by
  obtain ⟨bounds, hbounds, hcues⟩ := Option.bind_eq_some_iff.mp hcues
  obtain ⟨later, hlater, hbounds⟩ := Option.bind_eq_some_iff.mp hbounds
  obtain rfl := Option.some.inj hbounds
  obtain rfl := Option.some.inj hcues
  match hwords : s.words with
  | [] => rw [List.zip_nil_right, List.zipIdx_nil, List.filterMap_nil]
  | [word] =>
      rw [hwords, List.drop_one, List.tail_cons, boundariesFrom?, Option.some.injEq] at hlater
      simp [← hlater, h.le]
  | word :: next :: rest =>
      rw [hwords, List.drop_one, List.tail_cons, boundariesFrom?, if_pos h] at hlater
      cases hlater

theorem exists_highlights (hwords : s.words ≠ []) {cues : List Cue}
    (hcues : m.wordCues? s = some cues) : ∀ cue ∈ cues, ∃ i, m.Highlights s i cue := by
  rcases Nat.lt_or_ge s.window.endMs s.window.startMs with h | h
  · rw [wordCues?_of_end_lt_start h hcues]
    exact List.forall_mem_nil _
  · obtain ⟨cues', hcues', hall⟩ := m.wordCues?_eq h hwords
    obtain rfl := Option.some.inj (hcues'.symm.trans hcues)
    intro cue hcue
    obtain ⟨i, -, hcue⟩ := exists_of_forall₂ hall cue hcue
    exact ⟨i, hcue⟩

theorem segmentCue?_shows (hm : Maker.new look width height = .ok m) (hwords : s.words = [])
    (h : m.segmentCue? s = some cue) : ∃ t : Marked, t.Reads cue.text ∧ Shows look s cue t := by
  obtain ⟨rfl, -⟩ := new_eq_ok hm
  simp only [segmentCue?, Option.ite_none_left_eq_some, Option.some.injEq] at h
  obtain ⟨-, rfl⟩ := h
  -- the text is a row of one word
  let popMs := min popInMs s.window.duration
  let tags := s!"\\fscx80\\fscy80\\t(0,{popMs},\\fscx100\\fscy100)"
  have htags : tags.toList.Disjoint (braces ++ rowEnds) := by
    simp only [tags, String.toList_append, disjoint_append_left]
    exact ⟨⟨by decide, disjoint_toString (by decide) popMs⟩,
      by decide⟩
  have hreads : Marked.Reads (" ".intercalate ([(tags, escape (m.cased s.text))].map fun p =>
      block p.1 ++ p.2)) _ :=
    Marked.reads_ofWords (List.forall_mem_singleton.mpr htags)
      (List.forall_mem_singleton.mpr ⟨_, rfl⟩)
  exact ⟨_, hreads, .whole popMs hwords rfl⟩

theorem cues?_show (hm : Maker.new look width height = .ok m) {cues : List Cue}
    (h : m.cues? s = some cues) :
    ∀ cue ∈ cues, ∃ t : Marked, t.Reads cue.text ∧ Shows look s cue t := by
  intro cue hcue
  rw [cues?] at h
  split at h
  case isTrue hwords =>
    obtain rfl := Option.some.inj h
    exact segmentCue?_shows hm hwords (Option.mem_toList.mp hcue)
  case isFalse hwords =>
    obtain ⟨i, hcue⟩ := exists_highlights hwords h cue hcue
    obtain ⟨t, hreads, hshows⟩ := hcue.emphasises hm
    exact ⟨t, hreads, .word i hshows⟩

theorem hookCue?_shows (hm : Maker.new look width height = .ok m) {hook : Hook}
    (h : m.hookCue? hook = some cue) :
    (⟨plainText look hook.text, []⟩ : Marked).Reads cue.text := by
  obtain ⟨rfl, -⟩ := new_eq_ok hm
  simp only [hookCue?, Option.ite_none_left_eq_some, Option.some.injEq] at h
  obtain ⟨-, rfl⟩ := h
  exact Marked.reads_plain _

/-- The texts of a document, whatever the captions say: the headline is plain, and each cue of a
segment shows it as it stands, with the tags that were made for it and no others. -/
theorem document?_texts (hm : Maker.new look width height = .ok m)
    {segments : List ClipSegment} {hook : Option Hook} {doc : Document}
    (hdoc : m.document? segments hook = some doc) :
    ∃ headline groups, doc.cues = headline ++ groups.flatten ∧
      (∀ cue ∈ headline, ∃ h ∈ hook,
        (⟨plainText look h.text, []⟩ : Marked).Reads cue.text) ∧
      Forall₂ (fun s cues => m.cues? s = some cues ∧
        ∀ cue ∈ cues, ∃ t : Marked, t.Reads cue.text ∧ Shows look s cue t) segments groups := by
  obtain ⟨groups, hgroups, hdoc⟩ := Option.bind_eq_some_iff.mp hdoc
  obtain rfl := Option.some.inj hdoc
  refine ⟨_, groups, rfl, fun cue hcue => ?_, ?_⟩
  · obtain ⟨h, hhook, hcue⟩ := Option.bind_eq_some_iff.mp (Option.mem_toList.mp hcue)
    exact ⟨h, hhook, hookCue?_shows hm hcue⟩
  · exact (mapM_eq_some_iff.mp hgroups).imp fun s cues hcues => ⟨hcues, cues?_show hm hcues⟩

/-- Braces, backslashes, line ends and a letter that becomes two in upper case. -/
theorem document?_texts_of_braces :
    let look : CaptionLook := { uppercase := true }
    let s : ClipSegment :=
      { text := "", window := ⟨0, 900⟩, startsInClip := true, words :=
        [⟨" \x7b\\b1\x7dso ", ⟨0, 300⟩⟩, ⟨"stra\u00dfe\n", ⟨300, 600⟩⟩, ⟨"\\N", ⟨600, 900⟩⟩] }
    plainWords look s = ["(/B1)SO".toList, "STRASSE".toList, "/N".toList] ∧
      ∃ m doc, Maker.new look 1080 1920 = .ok m ∧
        m.document? [s] (some ⟨"\x7bwow\x7d\n", 500⟩) = some doc ∧ doc.cues.length = 4 ∧
        ∃ headline groups, doc.cues = headline ++ groups.flatten ∧
          (∀ cue ∈ headline, ∃ h ∈ some (Hook.mk "\x7bwow\x7d\n" 500),
            (⟨plainText look h.text, []⟩ : Marked).Reads cue.text) ∧
          Forall₂ (fun s cues => m.cues? s = some cues ∧
            ∀ cue ∈ cues, ∃ t : Marked, t.Reads cue.text ∧ Shows look s cue t) [s] groups := by
  intro look s
  have hwords : plainWords look s = ["(/B1)SO".toList, "STRASSE".toList, "/N".toList] := by
    decide +kernel
  let m : Maker :=
    { look, width := 1080, height := 1920, textColour := "&H00FFFFFF",
      highlightColour := "&H0000E0FF", outlineColour := "&H00000000" }
  have hm : Maker.new look 1080 1920 = .ok m := by decide +kernel
  have hcues : (m.document? [s] (some ⟨"\x7bwow\x7d\n", 500⟩)).any (·.cues.length = 4) := by
    decide +kernel
  obtain ⟨doc, hdoc, hcount⟩ := (Option.any_eq_true _ _).mp hcues
  exact ⟨hwords, m, doc, hm, hdoc, by simpa using hcount, document?_texts hm hdoc⟩

end Maker

end Caption

end Montage
