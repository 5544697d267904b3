import Montage.Config.Basic
import Montage.Host.FileTree
import Montage.Json.Decode
import Montage.Json.Printer
import Montage.Json.Reader

/-!
# The configuration file

The data form of the configuration, in which every member may be left out and then has its default,
and the usual place of the file.
-/

namespace Montage

open Json (string? bool? nat32? nat64? real? fields?)

/-- The names of the render settings, in order. -/
def RenderSettings.memberNames : List String :=
  ["ffmpeg_path", "ffprobe_path", "default_width", "default_height", "fps", "video_bitrate_kbps",
   "audio_bitrate_kbps", "prefer_hardware_encoder", "auto_zoom_max", "sfx_path", "fonts_dir",
   "temp_dir", "output_dir"]

/-- Render settings from a value. -/
def RenderSettings.ofJson? (j : Json) : Option RenderSettings := do
  let f ← fields? memberNames j
  let usual : RenderSettings := {}
  return {
    ffmpegPath := ← f.defaulted "ffmpeg_path" usual.ffmpegPath string?
    ffprobePath := ← f.defaulted "ffprobe_path" usual.ffprobePath string?
    defaultWidth := ← f.defaulted "default_width" usual.defaultWidth nat32?
    defaultHeight := ← f.defaulted "default_height" usual.defaultHeight nat32?
    fps := ← f.defaulted "fps" usual.fps nat32?
    videoBitrateKbps := ← f.defaulted "video_bitrate_kbps" usual.videoBitrateKbps nat32?
    audioBitrateKbps := ← f.defaulted "audio_bitrate_kbps" usual.audioBitrateKbps nat32?
    preferHardwareEncoder :=
      ← f.defaulted "prefer_hardware_encoder" usual.preferHardwareEncoder bool?
    autoZoomMax := ← f.defaulted "auto_zoom_max" usual.autoZoomMax real?
    soundEffectPath := ← f.optional "sfx_path" string?
    fontsDir := ← f.optional "fonts_dir" string?
    tempDir := ← f.optional "temp_dir" string?
    outputDir := ← f.optional "output_dir" string? }

/-- Vision settings from a value. -/
def VisionSettings.ofJson? (j : Json) : Option VisionSettings := do
  let f ← fields? ["api_key", "endpoint", "model", "timeout_secs"] j
  let usual : VisionSettings := {}
  return {
    apiKey := ← f.optional "api_key" string?
    endpoint := ← f.defaulted "endpoint" usual.endpoint string?
    model := ← f.defaulted "model" usual.model string?
    timeoutSecs := ← f.defaulted "timeout_secs" usual.timeoutSecs nat64? }

/-- Log settings from a value. -/
def LogSettings.ofJson? (j : Json) : Option LogSettings := do
  let f ← fields? ["level", "json", "file"] j
  let usual : LogSettings := {}
  return {
    level := ← f.defaulted "level" usual.level string?
    json := ← f.defaulted "json" usual.json bool?
    file := ← f.optional "file" string? }

/-- A configuration from a value. -/
def Config.ofJson? (j : Json) : Option Config := do
  let f ← fields? ["render", "vision", "logging"] j
  return {
    render := ← f.defaulted "render" {} RenderSettings.ofJson?
    vision := ← f.defaulted "vision" {} VisionSettings.ofJson?
    logging := ← f.defaulted "logging" {} LogSettings.ofJson? }

/-- The configuration in a data text. -/
def Config.ofText? (text : String) : Option Config := do ofJson? (← Json.read? text)

/-- The value of render settings. -/
def RenderSettings.toJson (s : RenderSettings) : Json :=
  .record [
    ("ffmpeg_path", .text s.ffmpegPath),
    ("ffprobe_path", .text s.ffprobePath),
    ("default_width", .ofNat s.defaultWidth),
    ("default_height", .ofNat s.defaultHeight),
    ("fps", .ofNat s.fps),
    ("video_bitrate_kbps", .ofNat s.videoBitrateKbps),
    ("audio_bitrate_kbps", .ofNat s.audioBitrateKbps),
    ("prefer_hardware_encoder", .bool s.preferHardwareEncoder),
    ("auto_zoom_max", .ofBinary64 s.autoZoomMax),
    ("sfx_path", .optional .text s.soundEffectPath),
    ("fonts_dir", .optional .text s.fontsDir),
    ("temp_dir", .optional .text s.tempDir),
    ("output_dir", .optional .text s.outputDir)]

/-- The value of vision settings. -/
def VisionSettings.toJson (s : VisionSettings) : Json :=
  .record [
    ("api_key", .optional .text s.apiKey),
    ("endpoint", .text s.endpoint),
    ("model", .text s.model),
    ("timeout_secs", .ofNat s.timeoutSecs)]

/-- The value of log settings. -/
def LogSettings.toJson (s : LogSettings) : Json :=
  .record [("level", .text s.level), ("json", .bool s.json), ("file", .optional .text s.file)]

/-- The value of a configuration. -/
def Config.toJson (c : Config) : Json :=
  .record [("render", c.render.toJson), ("vision", c.vision.toJson), ("logging", c.logging.toJson)]

/-- The data text of a configuration. -/
def Config.text (c : Config) : String := c.toJson.pretty

end Montage

/-! ## Where the configuration is kept -/

namespace Montage.Config

/-- The path of the configuration file under the given environment. -/
def path (environment : String → Option String) : String :=
  let base :=
    match environment "XDG_CONFIG_HOME" with
    | some dir => dir
    | none => Path.join ((environment "HOME").getD "/tmp") ".config"
  Path.join (Path.join base "reelcut") "config.json"

/-- The configuration at a path; all defaults when there is none or it cannot be read. -/
def load (t : FileTree) (path : String) : Config :=
  ((t.readText path).toOption.bind Config.ofText?).getD {}

/-- Writes the configuration to a path, in a directory that is made if needed. -/
def save (c : Config) (t : FileTree) (path : String) : FileTree × Except OsError Unit :=
  let (t, made) :=
    match Path.parent? path with
    | some parent => t.createDirectories parent
    | none => (t, .ok ())
  match made with
  | .error e => (t, .error e)
  | .ok _ =>
      match t.write path (Text.encodeUtf8 c.text) with
      | .ok t => (t, .ok ())
      | .error e => (t, .error e)

end Montage.Config
