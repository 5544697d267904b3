import Montage.Binary64.Arith
import Montage.Edit.Canvas
import Montage.Edit.Geometry

/-!
# The edit

The description of one render. All times of an edit are milliseconds of the source.
-/

/-!
## Colour grading

Six controls, each with a neutral value. A grade whose controls are all neutral changes nothing.
-/

namespace Montage

/-- The colour controls of an edit. -/
structure Grade where
  brightness : Binary64 := 0
  contrast : Binary64 := 1
  saturation : Binary64 := 1
  hue : Binary64 := 0
  temperature : Binary64 := 0
  vignette : Binary64 := 0
  deriving DecidableEq

namespace Grade

/-- Differences up to this much count as none. -/
def tolerance : Binary64 := 0.000001

/-- Whether a control is off its neutral value. -/
def differs (value neutral : Binary64) : Bool := tolerance.lt (value - neutral).abs

/-- Whether brightness, contrast or saturation is off neutral. -/
def hasExposure (g : Grade) : Bool :=
  differs g.brightness 0 || differs g.contrast 1 || differs g.saturation 1

/-- Whether the hue is turned. -/
def hasHue (g : Grade) : Bool := differs g.hue 0

/-- Whether the colour temperature is shifted. -/
def hasTemperature (g : Grade) : Bool := differs g.temperature 0

/-- Whether there is a vignette. -/
def hasVignette (g : Grade) : Bool := differs g.vignette 0

/-- Whether the grade changes nothing. -/
def isNeutral (g : Grade) : Bool :=
  !g.hasExposure && !g.hasHue && !g.hasTemperature && !g.hasVignette

/-- Each control with its name and its least and greatest value. -/
def controls (g : Grade) : List (String × Binary64 × Binary64 × Binary64) :=
  [("brightness", g.brightness, -1, 1),
   ("contrast", g.contrast, 0, 3),
   ("saturation", g.saturation, 0, 3),
   ("hue", g.hue, -180, 180),
   ("temperature", g.temperature, -1, 1),
   ("vignette", g.vignette, 0, 1)]

/-- Name and value of the first control outside its range. -/
def outOfRange? (g : Grade) : Option (String × Binary64) :=
  (g.controls.find? fun (_, value, least, greatest) =>
    !value.isFinite || value.lt least || greatest.lt value).map fun (name, value, _) =>
      (name, value)

/-- The colour temperature in kelvin: 10000 at the cold end, 3000 at the warm end. -/
def kelvin (g : Grade) : Binary64 := 6500 - g.temperature * 3500

end Grade

end Montage

/-! ## The layers and the edit -/

namespace Montage

/-- A zoom that changes evenly over a range of the source. -/
structure ZoomRamp where
  startMs : Nat
  endMs : Nat
  zoomStart : Binary64
  zoomEnd : Binary64
  deriving DecidableEq

/-- A video shown over the main picture for a range of the source. -/
structure Cutaway where
  path : String
  startMs : Nat
  endMs : Nat
  /-- Where in its own file the video starts. -/
  offsetMs : Nat := 0
  /-- The whole canvas when absent. -/
  placement : Option Placement := none
  opacity : Binary64 := 1
  deriving DecidableEq

/-- Where a still image comes from. -/
inductive ImageSource where
  | file (path : String)
  /-- A data URL that holds the image itself. -/
  | inline (url : String)
  deriving DecidableEq

/-- A still image shown over the picture for a range of the source. -/
structure Sticker where
  source : ImageSource
  startMs : Nat
  endMs : Nat
  placement : Placement
  deriving DecidableEq

/-- A spoken word with its range of the source. -/
structure TimedWord where
  text : String
  startMs : Nat
  endMs : Nat
  deriving DecidableEq

/-- A line of caption, with or without the times of its words. -/
structure Segment where
  text : String
  startMs : Nat
  endMs : Nat
  words : List TimedWord := []
  deriving DecidableEq

/-- Where captions stand on the canvas. -/
inductive CaptionPosition where
  | bottom
  | center
  | top
  deriving DecidableEq, Repr

/-- How captions look. Colours are written `#RRGGBB`. -/
structure CaptionLook where
  fontName : String := "Montserrat"
  fontSize : Nat := 72
  textColor : String := "#FFFFFF"
  highlightColor : String := "#FFE000"
  outlineColor : String := "#000000"
  outlineWidth : Binary64 := 4
  position : CaptionPosition := .bottom
  marginV : Nat := 320
  uppercase : Bool := false
  /-- The size of the spoken word at its peak, in percent. -/
  highlightScale : Nat := 115
  deriving DecidableEq

/-- Background music. -/
structure Music where
  path : String
  volume : Binary64 := 0.3
  fadeIn : Bool := false
  fadeOut : Bool := false
  fadeMs : Nat := 1500
  /-- Where in its own file the music starts. -/
  offsetMs : Nat := 0
  deriving DecidableEq

/-- A corner of the canvas. -/
inductive Corner where
  | topLeft
  | topRight
  | bottomLeft
  | bottomRight
  deriving DecidableEq, Repr

/-- A logo drawn over everything else. Width and margin are fractions of the canvas width. -/
structure Watermark where
  path : String
  corner : Corner := .bottomRight
  widthRatio : Binary64 := 0.18
  opacity : Binary64 := 0.8
  marginRatio : Binary64 := 0.03
  deriving DecidableEq

/-- The description of one render. -/
structure Edit where
  sourcePath : String
  /-- Derived from the source when absent. -/
  outputPath : Option String := none
  trimStartMs : Nat
  trimEndMs : Nat
  canvas : Canvas
  speed : Binary64 := 1
  /-- Whether the source is silenced. -/
  mute : Bool := false
  volume : Binary64 := 1
  grade : Grade := {}
  ramps : List ZoomRamp := []
  /-- Whether the picture zooms slowly when there are no ramps. -/
  autoZoom : Bool := false
  /-- The zoom outside all ramps. -/
  restZoom : Binary64 := 1
  /-- Whether the crop follows located subjects. -/
  subjectFraming : Bool := false
  subjectCount : Nat := 1
  cutaways : List Cutaway := []
  stickers : List Sticker := []
  segments : List Segment := []
  look : CaptionLook := {}
  /-- A headline at the beginning of the clip. -/
  hookText : Option String := none
  hookMs : Nat := 3000
  music : Option Music := none
  /-- Whether noise is reduced and loudness normalised. -/
  enhanceAudio : Bool := false
  /-- Whether a sound is played at each caption onset. -/
  soundEffects : Bool := false
  soundEffectPath : Option String := none
  /-- Whether speech pushes the music down. -/
  ducking : Bool := false
  watermark : Option Watermark := none
  deriving DecidableEq

end Montage

/-!
## Files of an edit

Every file that an edit names, with what names it.
-/

namespace Montage.Edit

/-- The files of an edit, each with what names it. -/
def files (e : Edit) : List (String × String) :=
  [("source", e.sourcePath)] ++
    e.cutaways.zipIdx.map (fun (c, i) => (s!"B-roll layer {i}", c.path)) ++
    e.stickers.zipIdx.filterMap (fun (s, i) =>
      match s.source with
      | .file path => some (s!"sticker layer {i}", path)
      | .inline _ => none) ++
    e.music.toList.map (fun m => ("audio track", m.path)) ++
    e.soundEffectPath.toList.map (fun path => ("sound effect", path)) ++
    e.watermark.toList.map (fun w => ("watermark", w.path))

/-- A line for each file that does not exist. -/
def missingFiles (e : Edit) (fileExists : String → Bool) : List String :=
  (e.files.filter fun (_, path) => !fileExists path).map fun (what, path) =>
    s!"{what} file missing: {path}"

end Montage.Edit
