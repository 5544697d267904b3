import Montage.Config.Location
import Montage.Proofs.Host.Presence
import Montage.Proofs.Json.Numbers
import Montage.Proofs.Text.Utf8

/-! # Saved settings

Settings that are saved are loaded again as they were, whatever their texts are made of. The only
thing that may be lost on the way is the last place of the greatest zoom, for the reader of numbers
is not exact. Where no settings can be read, all have their defaults; that would be so for a zoom
that is no finite number, which has no text. -/

namespace Montage

open Json (real? nat32? nat64? nullable string?)

/-! ## Settings and their values -/

theorem Json.nullable_optional_text (a : Option String) :
    nullable string? (.optional .text a) = some a := by
  cases a <;> rfl

theorem Json.isSound_optional_text (a : Option String) : (Json.optional .text a).IsSound := by
  cases a <;> simp [Json.optional, Json.text, Json.IsSound]

theorem Json.ofBinary64_of_not_finite {x : Binary64} (h : ¬ x.isFinite) :
    Json.ofBinary64 x = .null := by
  cases x with
  | finite => exact absurd rfl h
  | infinite | undefined => rfl

theorem Json.isSound_ofBinary64 (x : Binary64) : (Json.ofBinary64 x).IsSound := by
  by_cases h : x.isFinite
  · exact (Json.isSome_real?_ofBinary64 h).1
  · rw [Json.ofBinary64_of_not_finite h]
    trivial

/-- The natural numbers among the settings fit their types. -/
structure Config.Fits (c : Config) : Prop where
  defaultWidth : c.render.defaultWidth ≤ Binary64.top32
  defaultHeight : c.render.defaultHeight ≤ Binary64.top32
  fps : c.render.fps ≤ Binary64.top32
  videoBitrateKbps : c.render.videoBitrateKbps ≤ Binary64.top32
  audioBitrateKbps : c.render.audioBitrateKbps ≤ Binary64.top32
  timeoutSecs : c.vision.timeoutSecs ≤ Binary64.top64

namespace Config

variable {c : Config} {x : Binary64} {t t' : FileTree} {path : String}

/-- The settings with another greatest zoom. -/
def withZoom (c : Config) (x : Binary64) : Config :=
  { c with render := { c.render with autoZoomMax := x } }

theorem isSound_toJson (c : Config) : c.toJson.IsSound := by
  simp [toJson, RenderSettings.toJson, VisionSettings.toJson, LogSettings.toJson, Json.record,
    Json.IsSound, Json.MembersSound, Json.text, Json.isSound_ofNat, Json.isSound_ofBinary64,
    Json.isSound_optional_text]

theorem ofJson?_render (hc : c.Fits) : RenderSettings.ofJson? c.render.toJson =
    (real? (.ofBinary64 c.render.autoZoomMax)).map fun x => (c.withZoom x).render := by
  have hread : RenderSettings.ofJson? c.render.toJson = (do
      let defaultWidth ← nat32? (.ofNat c.render.defaultWidth)
      let defaultHeight ← nat32? (.ofNat c.render.defaultHeight)
      let fps ← nat32? (.ofNat c.render.fps)
      let videoBitrateKbps ← nat32? (.ofNat c.render.videoBitrateKbps)
      let audioBitrateKbps ← nat32? (.ofNat c.render.audioBitrateKbps)
      let autoZoomMax ← real? (.ofBinary64 c.render.autoZoomMax)
      let soundEffectPath ← nullable string? (.optional .text c.render.soundEffectPath)
      let fontsDir ← nullable string? (.optional .text c.render.fontsDir)
      let tempDir ← nullable string? (.optional .text c.render.tempDir)
      let outputDir ← nullable string? (.optional .text c.render.outputDir)
      return { c.render with
        defaultWidth, defaultHeight, fps, videoBitrateKbps, audioBitrateKbps, autoZoomMax,
        soundEffectPath, fontsDir, tempDir, outputDir }) := by
    rfl
  simp only [hread, Json.nat32?_ofNat, hc.defaultWidth, hc.defaultHeight, hc.fps,
    hc.videoBitrateKbps, hc.audioBitrateKbps, Json.nullable_optional_text]
  cases real? (.ofBinary64 c.render.autoZoomMax) <;> rfl

theorem ofJson?_vision (hc : c.Fits) : VisionSettings.ofJson? c.vision.toJson = some c.vision := by
  have hread : VisionSettings.ofJson? c.vision.toJson = (do
      let apiKey ← nullable string? (.optional .text c.vision.apiKey)
      let timeoutSecs ← nat64? (.ofNat c.vision.timeoutSecs)
      return { c.vision with apiKey, timeoutSecs }) := by
    rfl
  simp only [hread, Json.nullable_optional_text, nat64?,
    Json.natUpTo?_ofNat hc.timeoutSecs le_rfl]
  rfl

theorem ofJson?_logging (s : LogSettings) : LogSettings.ofJson? s.toJson = some s := by
  have hread : LogSettings.ofJson? s.toJson = (do
      let file ← nullable string? (.optional .text s.file)
      return { s with file }) := by
    rfl
  rw [hread, Json.nullable_optional_text]
  rfl

/-- The value of some settings is read as these settings, with the zoom that is read. -/
theorem ofJson?_toJson (hc : c.Fits) :
    ofJson? c.toJson = (real? (.ofBinary64 c.render.autoZoomMax)).map c.withZoom := by
  have hread : ofJson? c.toJson = (do
      let render ← RenderSettings.ofJson? c.render.toJson
      let vision ← VisionSettings.ofJson? c.vision.toJson
      let logging ← LogSettings.ofJson? c.logging.toJson
      return { render, vision, logging }) := by
    rfl
  rw [hread, ofJson?_render hc, ofJson?_vision hc, ofJson?_logging]
  cases real? (.ofBinary64 c.render.autoZoomMax) <;> rfl

theorem ofText?_text (hc : c.Fits) :
    ofText? c.text = (real? (.ofBinary64 c.render.autoZoomMax)).map c.withZoom := by
  rw [ofText?, text, Json.read?_pretty (isSound_toJson c)]
  exact ofJson?_toJson hc

/-! ## Files -/

theorem save_eq_ok (h : c.save t path = (t', .ok ())) :
    ∃ made : FileTree, made.write path (Text.encodeUtf8 c.text) = .ok t' := by
  unfold save at h
  dsimp only at h
  split at h
  case h_1 => cases h
  case h_2 =>
    split at h
    case h_1 made hwrite =>
      cases h
      exact ⟨_, hwrite⟩
    case h_2 => cases h

theorem readText_of_write {text : String} (h : t.write path (Text.encodeUtf8 text) = .ok t') :
    t'.readText path = .ok text := by
  refine bind_eq_ok_iff.mpr ⟨_, FileTree.read_of_write h, ?_⟩
  rw [Text.decodeUtf8?_encodeUtf8]
  rfl

theorem load_of_readText {text : String} (h : t.readText path = .ok text) :
    load t path = (ofText? text).getD {} := by
  rw [load, h]
  rfl

theorem load_of_error {e : OsError} (h : t.readText path = .error e) : load t path = {} := by
  rw [load, h]
  rfl

/-- A missing file cannot be read. -/
theorem exists_readText_eq_error (h : ¬ t.has path) : ∃ e, t.readText path = .error e := by
  cases hfind : t.find path with
  | ok entry => exact absurd (by rw [FileTree.has, hfind]; rfl) h
  | error e => exact ⟨e, by rw [FileTree.readText, FileTree.read, hfind]; rfl⟩

/-- Settings are saved where directories can be made and a file can be written. -/
theorem exists_save (c : Config) {parent : String} (hparent : Path.parent? path = some parent)
    (hmade : (t.createDirectories parent).2 = .ok ())
    (htakes : (t.createDirectories parent).1.Takes path) : ∃ t', c.save t path = (t', .ok ()) := by
  obtain ⟨t', hwrite⟩ := htakes.write (Text.encodeUtf8 c.text)
  refine ⟨t', ?_⟩
  unfold save
  simp only [hparent, hmade, hwrite]

/-- What is loaded after settings were saved depends only on how the zoom is read. -/
theorem load_of_save (hc : c.Fits) (hsave : c.save t path = (t', .ok ())) : load t' path =
    ((real? (.ofBinary64 c.render.autoZoomMax)).map c.withZoom).getD {} := by
  obtain ⟨made, hwrite⟩ := save_eq_ok hsave
  rw [load_of_readText (readText_of_write hwrite), ofText?_text hc]

example : real? (.ofBinary64 1.0000000000000007) = some 1.0000000000000009 := by decide +kernel

/-- Settings that were saved are loaded as they were, but for the greatest zoom; and so is this if
it is read as it is written. All natural numbers fit their types, and the zoom is finite. Where
there is no file, or none that can be read as settings, all settings have their defaults. -/
theorem load_save (t : FileTree) (path : String) :
    (∀ (c : Config) (t' : FileTree), c.Fits → c.render.autoZoomMax.isFinite →
      c.save t path = (t', .ok ()) →
      (∃ zoom, real? (.ofBinary64 c.render.autoZoomMax) = some zoom ∧
        load t' path = c.withZoom zoom) ∧
      (real? (.ofBinary64 c.render.autoZoomMax) = some c.render.autoZoomMax →
        load t' path = c)) ∧
    (¬ t.has path → load t path = {}) ∧
    (∀ e, t.readText path = .error e → load t path = {}) ∧
    ∀ text, t.readText path = .ok text → ofText? text = none → load t path = {} := by
  refine ⟨fun c t' hc hfinite hsave => ⟨?read, fun hzoom => ?exact⟩, fun hmissing => ?missing,
    fun e => load_of_error, fun text htext hnone => ?unparsable⟩
  case read =>
    obtain ⟨zoom, hzoom⟩ := Option.isSome_iff_exists.mp (Json.isSome_real?_ofBinary64 hfinite).2
    refine ⟨zoom, hzoom, ?_⟩
    rw [load_of_save hc hsave, hzoom]
    rfl
  case exact =>
    rw [load_of_save hc hsave, hzoom]
    rfl
  case missing =>
    obtain ⟨e, he⟩ := exists_readText_eq_error hmissing
    exact load_of_error he
  case unparsable =>
    rw [load_of_readText htext, hnone]
    rfl

/-- Texts with quotes, control characters and characters outside the basic plane, an empty one, and
a number of 64 bits; a missing file, a directory and a broken text. -/
theorem load_save_of_escapes :
    let t : FileTree :=
      { entries := [(Location.key ["home"], .directory),
          (Location.key ["broken.json"], .file [0x7b] false)] }
    let path := "/home/.config/reelcut/config.json"
    let c : Config :=
      { render :=
          { ffmpegPath := "C:\\bin\\\"ff\"\n", autoZoomMax := 1.2, tempDir := some ""
            outputDir := some "\x00\x1f\x7f𝄞" }
        vision := { apiKey := some "null", endpoint := "", timeoutSecs := Binary64.top64 }
        logging := { level := "reelcut=debug,warn", json := true, file := some "é\u2028/" } }
    (∃ t', c.save t path = (t', .ok ()) ∧ load t' path = c) ∧ load t path = {} ∧
      load t "/home" = {} ∧ load t "/broken.json" = {} := by
  intro t path c
  have hc : c.Fits := ⟨by decide, by decide, by decide, by decide, by decide, le_rfl⟩
  have hzoom : real? (.ofBinary64 c.render.autoZoomMax) = some c.render.autoZoomMax := by
    decide +kernel
  obtain ⟨t', hsave⟩ := exists_save (t := t) c
    (by decide +kernel : Path.parent? path = some "/home/.config/reelcut")
    (by decide +kernel) (by decide +kernel)
  obtain ⟨hsaved, hmissing, -, -⟩ := load_save t path
  obtain ⟨-, -, hunreadable, -⟩ := load_save t "/home"
  obtain ⟨-, -, -, hunparsable⟩ := load_save t "/broken.json"
  obtain ⟨-, hexact⟩ := hsaved c t' hc (by decide +kernel) hsave
  exact ⟨⟨t', hsave, hexact hzoom⟩, hmissing (by decide +kernel),
    hunreadable .isADirectory (by decide +kernel),
    hunparsable "\x7b" (by decide +kernel) (by decide +kernel)⟩

end Config

end Montage
