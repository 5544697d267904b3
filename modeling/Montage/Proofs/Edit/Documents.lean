import Montage.Edit.Decode
import Montage.Proofs.Json.Numbers
import Montage.Proofs.Json.Schema

/-! # Documents of an edit

The members of an edit and of its parts, with what each of them means when it is left out. Texts
whose values mean the same are the same edit, and a text with a member that is there twice or lacks
one is none. -/

namespace Montage

open Json (Schema Member Presence)
open Json.Schema (Faithful faithful_scalar faithful_list faithful_record)

namespace Edit.Format

/-! ## The schema -/

/-- A member that has to be there. -/
def required (name : String) (schema : Schema) : Member Schema := ⟨name, .required, schema⟩

/-- A member that has a value when it is left out. -/
def defaulted (name : String) (schema : Schema) (usual : Json) : Member Schema :=
  ⟨name, .defaulted usual, schema⟩

/-- A member that is null when it is left out. -/
def optional (name : String) (schema : Schema) : Member Schema := ⟨name, .optional, schema⟩

/-- The kinds of scalars. -/
def text : Schema := .scalar Json.string?
def truth : Schema := .scalar Json.bool?
def whole32 : Schema := .scalar Json.nat32?
def whole64 : Schema := .scalar Json.nat64?
def real : Schema := .scalar Json.real?

/-- A number as it is written. -/
def number (digits : String) : Json := .number digits.toList

/-! What the records are made of. -/

def placementMembers : List (Member Schema) :=
  [required "x" real, required "y" real, required "width" real, required "height" real]

def gradeMembers : List (Member Schema) :=
  [defaulted "brightness" real (number "0.0"), defaulted "contrast" real (number "1.0"),
   defaulted "saturation" real (number "1.0"), defaulted "hue" real (number "0.0"),
   defaulted "temperature" real (number "0.0"), defaulted "vignette" real (number "0.0")]

def rampMembers : List (Member Schema) :=
  [required "startMs" whole64, required "endMs" whole64, required "zoomStart" real,
   required "zoomEnd" real]

def cutawayMembers : List (Member Schema) :=
  [required "path" text, required "startMs" whole64, required "endMs" whole64,
   defaulted "sourceOffsetMs" whole64 (number "0"), optional "rect" (.record placementMembers),
   defaulted "opacity" real (number "1.0")]

def stickerMembers : List (Member Schema) :=
  [required "source" (.scalar ImageSource.ofJson?), required "startMs" whole64,
   required "endMs" whole64, required "rect" (.record placementMembers)]

def wordMembers : List (Member Schema) :=
  [required "text" text, required "startMs" whole64, required "endMs" whole64]

def segmentMembers : List (Member Schema) :=
  [required "text" text, required "startMs" whole64, required "endMs" whole64,
   defaulted "words" (.list (.record wordMembers)) (.array [])]

def lookMembers : List (Member Schema) :=
  [defaulted "fontName" text (.text "Montserrat"), defaulted "fontSize" whole32 (number "72"),
   defaulted "textColor" text (.text "#FFFFFF"), defaulted "highlightColor" text (.text "#FFE000"),
   defaulted "outlineColor" text (.text "#000000"), defaulted "outlineWidth" real (number "4.0"),
   defaulted "position" (.scalar CaptionPosition.ofJson?) (.text "bottom"),
   defaulted "marginV" whole32 (number "320"), defaulted "uppercase" truth (.bool false),
   defaulted "highlightScale" whole32 (number "115")]

def musicMembers : List (Member Schema) :=
  [required "path" text, defaulted "volume" real (number "0.3"),
   defaulted "fadeIn" truth (.bool false), defaulted "fadeOut" truth (.bool false),
   defaulted "fadeDurationMs" whole64 (number "1500"),
   defaulted "trimOffsetMs" whole64 (number "0")]

def watermarkMembers : List (Member Schema) :=
  [required "path" text, defaulted "corner" (.scalar Corner.ofJson?) (.text "bottom_right"),
   defaulted "widthRatio" real (number "0.18"), defaulted "opacity" real (number "0.8"),
   defaulted "marginRatio" real (number "0.03")]

def members : List (Member Schema) :=
  [required "sourcePath" text, optional "outputPath" text, required "trimStartMs" whole64,
   required "trimEndMs" whole64, required "targetFormat" (.scalar Canvas.ofJson?),
   defaulted "speed" real (number "1.0"), defaulted "mute" truth (.bool false),
   defaulted "volume" real (number "1.0"),
   defaulted "colorFilter" (.record gradeMembers) (.object []),
   defaulted "keyframes" (.list (.record rampMembers)) (.array []),
   defaulted "autoZoom" truth (.bool false), defaulted "defaultZoom" real (number "1.0"),
   defaulted "subjectFraming" truth (.bool false), defaulted "subjectCount" whole64 (number "1"),
   defaulted "brollLayers" (.list (.record cutawayMembers)) (.array []),
   defaulted "stickerLayers" (.list (.record stickerMembers)) (.array []),
   defaulted "textSegments" (.list (.record segmentMembers)) (.array []),
   defaulted "captionStyle" (.record lookMembers) (.object []), optional "hookText" text,
   defaulted "hookDurationMs" whole64 (number "3000"), optional "audioTrack" (.record musicMembers),
   defaulted "enhanceAudio" truth (.bool false), defaulted "sfxEnabled" truth (.bool false),
   optional "sfxPath" text, defaulted "duckingEnabled" truth (.bool false),
   optional "watermark" (.record watermarkMembers)]

/-! ## The readers -/

theorem faithful_text : Faithful text Json.string? := faithful_scalar rfl
theorem faithful_truth : Faithful truth Json.bool? := faithful_scalar rfl
theorem faithful_whole32 : Faithful whole32 Json.nat32? := faithful_scalar rfl
theorem faithful_whole64 : Faithful whole64 Json.nat64? := faithful_scalar rfl
theorem faithful_real : Faithful real Json.real? := faithful_scalar rfl

theorem real?_zero : (number "0.0").real? = some 0 := by decide +kernel
theorem real?_one : (number "1.0").real? = some 1 := by decide +kernel

end Edit.Format

open Edit.Format

theorem Placement.faithful : Faithful (.record placementMembers) ofJson? := by
  refine @faithful_record placementMembers _ _ (by decide) ?_
  exact .required faithful_real fun _ => .required faithful_real fun _ =>
    .required faithful_real fun _ => .required faithful_real fun _ => .done _

theorem Grade.faithful : Faithful (.record gradeMembers) ofJson? := by
  refine @faithful_record gradeMembers _ _ (by decide) ?_
  exact .defaulted faithful_real real?_zero fun _ =>
    .defaulted faithful_real real?_one fun _ =>
    .defaulted faithful_real real?_one fun _ =>
    .defaulted faithful_real real?_zero fun _ =>
    .defaulted faithful_real real?_zero fun _ =>
    .defaulted faithful_real real?_zero fun _ => .done _

theorem ZoomRamp.faithful : Faithful (.record rampMembers) ofJson? := by
  refine @faithful_record rampMembers _ _ (by decide) ?_
  exact .required faithful_whole64 fun _ => .required faithful_whole64 fun _ =>
    .required faithful_real fun _ => .required faithful_real fun _ => .done _

theorem Cutaway.faithful : Faithful (.record cutawayMembers) ofJson? := by
  refine @faithful_record cutawayMembers _ _ (by decide) ?_
  exact .required faithful_text fun _ => .required faithful_whole64 fun _ =>
    .required faithful_whole64 fun _ => .defaulted faithful_whole64 rfl fun _ =>
    .optional Placement.faithful fun _ => .defaulted faithful_real real?_one fun _ =>
    .done _

theorem Sticker.faithful : Faithful (.record stickerMembers) ofJson? := by
  refine @faithful_record stickerMembers _ _ (by decide) ?_
  exact .required (faithful_scalar rfl) fun _ => .required faithful_whole64 fun _ =>
    .required faithful_whole64 fun _ => .required Placement.faithful fun _ => .done _

theorem TimedWord.faithful : Faithful (.record wordMembers) ofJson? := by
  refine @faithful_record wordMembers _ _ (by decide) ?_
  exact .required faithful_text fun _ => .required faithful_whole64 fun _ =>
    .required faithful_whole64 fun _ => .done _

theorem Segment.faithful : Faithful (.record segmentMembers) ofJson? := by
  refine @faithful_record segmentMembers _ _ (by decide) ?_
  exact .required faithful_text fun _ => .required faithful_whole64 fun _ =>
    .required faithful_whole64 fun _ =>
    .defaulted (faithful_list TimedWord.faithful) rfl fun _ => .done _

theorem CaptionLook.faithful : Faithful (.record lookMembers) ofJson? := by
  refine @faithful_record lookMembers _ _ (by decide) ?_
  exact .defaulted faithful_text rfl fun _ =>
    .defaulted faithful_whole32 rfl fun _ =>
    .defaulted faithful_text rfl fun _ =>
    .defaulted faithful_text rfl fun _ =>
    .defaulted faithful_text rfl fun _ =>
    .defaulted faithful_real (by decide +kernel) fun _ =>
    .defaulted (faithful_scalar rfl) rfl fun _ =>
    .defaulted faithful_whole32 rfl fun _ =>
    .defaulted faithful_truth rfl fun _ =>
    .defaulted faithful_whole32 rfl fun _ => .done _

theorem Music.faithful : Faithful (.record musicMembers) ofJson? := by
  refine @faithful_record musicMembers _ _ (by decide) ?_
  exact .required faithful_text fun _ => .defaulted faithful_real (by decide +kernel) fun _ =>
    .defaulted faithful_truth rfl fun _ =>
    .defaulted faithful_truth rfl fun _ =>
    .defaulted faithful_whole64 rfl fun _ =>
    .defaulted faithful_whole64 rfl fun _ => .done _

theorem Watermark.faithful : Faithful (.record watermarkMembers) ofJson? := by
  refine @faithful_record watermarkMembers _ _ (by decide) ?_
  exact .required faithful_text fun _ =>
    .defaulted (faithful_scalar rfl) rfl fun _ =>
    .defaulted faithful_real (by decide +kernel) fun _ =>
    .defaulted faithful_real (by decide +kernel) fun _ =>
    .defaulted faithful_real (by decide +kernel) fun _ => .done _

/-- The form of an edit. -/
def Edit.schema : Schema := .record members

theorem Edit.faithful : Faithful schema ofJson? := by
  refine @faithful_record members _ _ (by decide) ?_
  exact .required faithful_text fun _ => .optional faithful_text fun _ =>
    .required faithful_whole64 fun _ => .required faithful_whole64 fun _ =>
    .required (faithful_scalar rfl) fun _ => .defaulted faithful_real real?_one fun _ =>
    .defaulted faithful_truth rfl fun _ =>
    .defaulted faithful_real real?_one fun _ =>
    .defaulted Grade.faithful (by decide +kernel) fun _ =>
    .defaulted (faithful_list ZoomRamp.faithful) rfl fun _ =>
    .defaulted faithful_truth rfl fun _ =>
    .defaulted faithful_real real?_one fun _ =>
    .defaulted faithful_truth rfl fun _ =>
    .defaulted faithful_whole64 rfl fun _ =>
    .defaulted (faithful_list Cutaway.faithful) rfl fun _ =>
    .defaulted (faithful_list Sticker.faithful) rfl fun _ =>
    .defaulted (faithful_list Segment.faithful) rfl fun _ =>
    .defaulted CaptionLook.faithful (by decide +kernel) fun _ => .optional faithful_text fun _ =>
    .defaulted faithful_whole64 rfl fun _ => .optional Music.faithful fun _ =>
    .defaulted faithful_truth rfl fun _ =>
    .defaulted faithful_truth rfl fun _ => .optional faithful_text fun _ =>
    .defaulted faithful_truth rfl fun _ => .optional Watermark.faithful fun _ =>
    .done _

end Montage

/-! ## Documents that are read

The least text has four members. -/

namespace Montage.Edit

open Format
open Json.Schema (Same Broken)

/-- The members that every edit has. -/
def least (sourcePath : String) (trimStartMs trimEndMs : Nat) (canvas : Canvas) :
    List (String × Json) :=
  [("sourcePath", .text sourcePath), ("trimStartMs", .ofNat trimStartMs),
   ("trimEndMs", .ofNat trimEndMs), ("targetFormat", .text canvas.label)]

theorem ofJson?_least {trimStartMs trimEndMs : Nat} (sourcePath : String) (canvas : Canvas)
    (hstart : trimStartMs ≤ Binary64.top64) (hend : trimEndMs ≤ Binary64.top64) :
    ofJson? (Json.record (least sourcePath trimStartMs trimEndMs canvas)) =
      some { sourcePath, trimStartMs, trimEndMs, canvas } := by
  have hread : ofJson? (Json.record (least sourcePath trimStartMs trimEndMs canvas)) = (do
      let trimStartMs ← Json.nat64? (.ofNat trimStartMs)
      let trimEndMs ← Json.nat64? (.ofNat trimEndMs)
      let canvas ← Canvas.ofLabel? canvas.label
      return { sourcePath, trimStartMs, trimEndMs, canvas }) := by
    rfl
  rw [hread, Json.nat64?, Json.natUpTo?_ofNat hstart le_rfl, Json.natUpTo?_ofNat hend le_rfl,
    Canvas.ofLabel?_label]
  rfl

theorem isSound_least (sourcePath : String) (trimStartMs trimEndMs : Nat) (canvas : Canvas) :
    (Json.record (least sourcePath trimStartMs trimEndMs canvas)).IsSound := by
  simp [least, Json.record, Json.text, Json.IsSound, Json.MembersSound, Json.isSound_ofNat]

theorem ofText?_of_read? {text : String} {j : Json} (h : Json.read? text = some j) :
    ofText? text = ofJson? j := by
  rw [ofText?, h]
  rfl

/-- Texts are the same edit if their values mean the same: wherever members change places, unknown
ones are added, or one is written with what it means when it is left out. A text is no edit if a
record anywhere in it has a member twice or lacks one that it has to have. And the four members
that every edit has are an edit of these values, with what is usual for all others, in whatever
order and layout they are. -/
theorem ofText?_faithful :
    (∀ (text text' : String) (j j' : Json), Json.read? text = some j →
      Json.read? text' = some j' → Same schema j j' → ofText? text' = ofText? text) ∧
    (∀ (text : String) (j : Json), Json.read? text = some j → Broken schema j →
      ofText? text = none) ∧
    ∀ (sourcePath : String) (trimStartMs trimEndMs : Nat) (canvas : Canvas),
      trimStartMs ≤ Binary64.top64 → trimEndMs ≤ Binary64.top64 →
        (∃ text, Json.read? text =
          some (Json.record (least sourcePath trimStartMs trimEndMs canvas))) ∧
        ∀ (text : String) (members : List (String × Json)),
          members.Perm (least sourcePath trimStartMs trimEndMs canvas) →
            Json.read? text = some (Json.record members) →
              ofText? text = some { sourcePath, trimStartMs, trimEndMs, canvas } := by
  refine ⟨fun text text' j j' h h' hsame => ?same, fun text j h hbroken => ?broken,
    fun sourcePath trimStartMs trimEndMs canvas hstart hend =>
      ⟨⟨_, Json.read?_pretty (isSound_least sourcePath trimStartMs trimEndMs canvas)⟩,
        fun text members hperm h => ?least⟩⟩
  case same => rw [ofText?_of_read? h, ofText?_of_read? h', faithful.same hsame]
  case broken => rw [ofText?_of_read? h, faithful.broken hbroken]
  case least =>
    rw [ofText?_of_read? h, ← ofJson?_least sourcePath canvas hstart hend]
    exact faithful.same (.permuted (hperm.map _))

/-- A cutaway with its members in another order, a note and an offset of zero is the same cutaway,
and one with two paths is none. -/
theorem ofText?_faithful_of_cutaway :
    let path : Option String × Json := (some "path", .text "/media/b.mp4")
    let layer : List (Option String × Json) :=
      [path, (some "startMs", .ofNat 0), (some "endMs", .ofNat 900)]
    let layer' :=
      ((some "sourceOffsetMs", number "0") :: (some "note", .text "late") :: layer).reverse
    let document (layer : List (Option String × Json)) : List (Option String × Json) :=
      (least "/media/talk.mp4" 0 5000 .portrait).map (fun (key, j) => (some key, j)) ++
        [(some "brollLayers", .array [.object layer])]
    let plain : Json := .object (document layer)
    let written : Json := .object ((some "hookText", .null) :: document layer').reverse
    let twice : Json := .object (document (path :: layer))
    Same schema plain written ∧ ofText? (Json.pretty written) = ofText? (Json.pretty plain) ∧
      Broken schema twice ∧ ofText? (Json.pretty twice) = none ∧
      ofText? (Json.pretty (Json.record (least "/media/talk.mp4" 0 5000 .portrait).reverse)) =
        some { sourcePath := "/media/talk.mp4", trimStartMs := 0, trimEndMs := 5000,
               canvas := .portrait } := by
  intro path layer layer' document plain written twice
  have hlayer : Same (.record cutawayMembers) (.object layer) (.object layer') := by
    have hnote : "note" ∉ Json.Schema.names cutawayMembers := by decide
    have hoffset : cutawayMembers[3]? =
        some (defaulted "sourceOffsetMs" whole64 (number "0")) := rfl
    exact (Same.unknown hnote).trans ((Same.usual (List.mem_of_getElem? hoffset) rfl rfl).trans
      (.permuted (List.reverse_perm _).symm))
  have hlayers : Format.members[14]? =
      some (defaulted "brollLayers" (.list (.record cutawayMembers)) (.array [])) := rfl
  have hhook : Format.members[18]? = some (optional "hookText" Format.text) := rfl
  have hsame : Same schema plain written := by
    have hdocument : Same schema plain (.object (document layer')) :=
      .member (List.mem_of_getElem? hlayers) (@Same.item _ [] [] _ _ hlayer)
    exact hdocument.trans ((Same.null (List.mem_of_getElem? hhook) rfl rfl).trans
      (.permuted (List.reverse_perm _).symm))
  have hbroken : Broken schema twice := by
    have hpath : cutawayMembers[0]? = some (required "path" Format.text) := rfl
    refine .member (List.mem_of_getElem? hlayers) (List.mem_append_right _ List.mem_cons_self)
      (.item List.mem_cons_self (.twice (List.mem_of_getElem? hpath) ?_))
    decide
  have hplain : plain.IsSound := by
    simp [plain, document, layer, path, least, Json.text, Json.IsSound, Json.MembersSound,
      Json.ItemsSound, Json.isSound_ofNat]
  have hwritten : written.IsSound := by
    have hzero : number "0" = .ofNat 0 := rfl
    simp [written, document, layer', layer, path, least, hzero, Json.text, Json.IsSound,
      Json.MembersSound, Json.ItemsSound, Json.isSound_ofNat]
  have htwice : twice.IsSound := by
    simp [twice, document, layer, path, least, Json.text, Json.IsSound, Json.MembersSound,
      Json.ItemsSound, Json.isSound_ofNat]
  have hleast : (Json.record (least "/media/talk.mp4" 0 5000 .portrait).reverse).IsSound := by
    simp [least, Json.record, Json.text, Json.IsSound, Json.MembersSound, Json.isSound_ofNat]
  obtain ⟨hread, hrefused, hfour⟩ := ofText?_faithful
  refine ⟨hsame, hread _ _ _ _ (Json.read?_pretty hplain) (Json.read?_pretty hwritten) hsame,
    hbroken, hrefused _ _ (Json.read?_pretty htwice) hbroken, ?_⟩
  exact (hfour "/media/talk.mp4" 0 5000 .portrait (by decide) (by decide)).2 _ _
    (List.reverse_perm _) (Json.read?_pretty hleast)

end Montage.Edit
