import Montage.Edit.Spec
import Montage.Json.Decode
import Montage.Json.Reader

/-!
# Reading an edit

The data form of an edit and of its parts: the members in their order, which of them may be left
out, and the spelling of the choices.
-/

namespace Montage

open Json (Fields string? bool? nat32? nat64? real? list? nullable choice? fields?)

/-- The canvas of a name. -/
def Canvas.ofJson? : Json → Option Canvas := choice? ofLabel?

/-- A placement; all four members are required. -/
def Placement.ofJson? (j : Json) : Option Placement := do
  let f ← fields? ["x", "y", "width", "height"] j
  return {
    x := ← f.required "x" real?
    y := ← f.required "y" real?
    width := ← f.required "width" real?
    height := ← f.required "height" real? }

/-- A grade; a member left out is neutral. -/
def Grade.ofJson? (j : Json) : Option Grade := do
  let f ← fields? ["brightness", "contrast", "saturation", "hue", "temperature", "vignette"] j
  let neutral : Grade := {}
  return {
    brightness := ← f.defaulted "brightness" neutral.brightness real?
    contrast := ← f.defaulted "contrast" neutral.contrast real?
    saturation := ← f.defaulted "saturation" neutral.saturation real?
    hue := ← f.defaulted "hue" neutral.hue real?
    temperature := ← f.defaulted "temperature" neutral.temperature real?
    vignette := ← f.defaulted "vignette" neutral.vignette real? }

/-- A zoom ramp; all members are required. -/
def ZoomRamp.ofJson? (j : Json) : Option ZoomRamp := do
  let f ← fields? ["startMs", "endMs", "zoomStart", "zoomEnd"] j
  return {
    startMs := ← f.required "startMs" nat64?
    endMs := ← f.required "endMs" nat64?
    zoomStart := ← f.required "zoomStart" real?
    zoomEnd := ← f.required "zoomEnd" real? }

/-- A cutaway; offset, placement and opacity may be left out. -/
def Cutaway.ofJson? (j : Json) : Option Cutaway := do
  let f ← fields? ["path", "startMs", "endMs", "sourceOffsetMs", "rect", "opacity"] j
  return {
    path := ← f.required "path" string?
    startMs := ← f.required "startMs" nat64?
    endMs := ← f.required "endMs" nat64?
    offsetMs := ← f.defaulted "sourceOffsetMs" 0 nat64?
    placement := ← f.optional "rect" Placement.ofJson?
    opacity := ← f.defaulted "opacity" 1 real? }

/-- An image source: an object with exactly one member. -/
def ImageSource.ofJson? : Json → Option ImageSource
  | .object [(some "path", value)] => (string? value).map .file
  | .object [(some "dataUrl", value)] => (string? value).map .inline
  | _ => none

/-- A sticker; all members are required. -/
def Sticker.ofJson? (j : Json) : Option Sticker := do
  let f ← fields? ["source", "startMs", "endMs", "rect"] j
  return {
    source := ← f.required "source" ImageSource.ofJson?
    startMs := ← f.required "startMs" nat64?
    endMs := ← f.required "endMs" nat64?
    placement := ← f.required "rect" Placement.ofJson? }

/-- A timed word; all members are required. -/
def TimedWord.ofJson? (j : Json) : Option TimedWord := do
  let f ← fields? ["text", "startMs", "endMs"] j
  return {
    text := ← f.required "text" string?
    startMs := ← f.required "startMs" nat64?
    endMs := ← f.required "endMs" nat64? }

/-- A caption segment; the words may be left out. -/
def Segment.ofJson? (j : Json) : Option Segment := do
  let f ← fields? ["text", "startMs", "endMs", "words"] j
  return {
    text := ← f.required "text" string?
    startMs := ← f.required "startMs" nat64?
    endMs := ← f.required "endMs" nat64?
    words := ← f.defaulted "words" [] (list? TimedWord.ofJson?) }

/-- The name of a caption position. -/
def CaptionPosition.name : CaptionPosition → String
  | .bottom => "bottom"
  | .center => "center"
  | .top => "top"

/-- The caption position of a name. -/
def CaptionPosition.ofJson? : Json → Option CaptionPosition :=
  choice? fun name => [bottom, center, top].find? fun p => p.name == name

/-- A caption look; every member may be left out. -/
def CaptionLook.ofJson? (j : Json) : Option CaptionLook := do
  let f ← fields? ["fontName", "fontSize", "textColor", "highlightColor", "outlineColor",
    "outlineWidth", "position", "marginV", "uppercase", "highlightScale"] j
  let usual : CaptionLook := {}
  return {
    fontName := ← f.defaulted "fontName" usual.fontName string?
    fontSize := ← f.defaulted "fontSize" usual.fontSize nat32?
    textColor := ← f.defaulted "textColor" usual.textColor string?
    highlightColor := ← f.defaulted "highlightColor" usual.highlightColor string?
    outlineColor := ← f.defaulted "outlineColor" usual.outlineColor string?
    outlineWidth := ← f.defaulted "outlineWidth" usual.outlineWidth real?
    position := ← f.defaulted "position" usual.position CaptionPosition.ofJson?
    marginV := ← f.defaulted "marginV" usual.marginV nat32?
    uppercase := ← f.defaulted "uppercase" usual.uppercase bool?
    highlightScale := ← f.defaulted "highlightScale" usual.highlightScale nat32? }

/-- Background music; only the path is required. -/
def Music.ofJson? (j : Json) : Option Music := do
  let f ← fields? ["path", "volume", "fadeIn", "fadeOut", "fadeDurationMs", "trimOffsetMs"] j
  return {
    path := ← f.required "path" string?
    volume := ← f.defaulted "volume" 0.3 real?
    fadeIn := ← f.defaulted "fadeIn" false bool?
    fadeOut := ← f.defaulted "fadeOut" false bool?
    fadeMs := ← f.defaulted "fadeDurationMs" 1500 nat64?
    offsetMs := ← f.defaulted "trimOffsetMs" 0 nat64? }

/-- The name of a corner. -/
def Corner.name : Corner → String
  | .topLeft => "top_left"
  | .topRight => "top_right"
  | .bottomLeft => "bottom_left"
  | .bottomRight => "bottom_right"

/-- The corner of a name. -/
def Corner.ofJson? : Json → Option Corner :=
  choice? fun name => [topLeft, topRight, bottomLeft, bottomRight].find? fun c => c.name == name

/-- A watermark; only the path is required. -/
def Watermark.ofJson? (j : Json) : Option Watermark := do
  let f ← fields? ["path", "corner", "widthRatio", "opacity", "marginRatio"] j
  return {
    path := ← f.required "path" string?
    corner := ← f.defaulted "corner" .bottomRight Corner.ofJson?
    widthRatio := ← f.defaulted "widthRatio" 0.18 real?
    opacity := ← f.defaulted "opacity" 0.8 real?
    marginRatio := ← f.defaulted "marginRatio" 0.03 real? }

/-- The members of an edit, in order. -/
def Edit.memberNames : List String :=
  ["sourcePath", "outputPath", "trimStartMs", "trimEndMs", "targetFormat", "speed", "mute",
   "volume", "colorFilter", "keyframes", "autoZoom", "defaultZoom", "subjectFraming",
   "subjectCount", "brollLayers", "stickerLayers", "textSegments", "captionStyle", "hookText",
   "hookDurationMs", "audioTrack", "enhanceAudio", "sfxEnabled", "sfxPath", "duckingEnabled",
   "watermark"]

/-- An edit; the source, the trim and the canvas are required. -/
def Edit.ofJson? (j : Json) : Option Edit := do
  let f ← fields? memberNames j
  return {
    sourcePath := ← f.required "sourcePath" string?
    outputPath := ← f.optional "outputPath" string?
    trimStartMs := ← f.required "trimStartMs" nat64?
    trimEndMs := ← f.required "trimEndMs" nat64?
    canvas := ← f.required "targetFormat" Canvas.ofJson?
    speed := ← f.defaulted "speed" 1 real?
    mute := ← f.defaulted "mute" false bool?
    volume := ← f.defaulted "volume" 1 real?
    grade := ← f.defaulted "colorFilter" {} Grade.ofJson?
    ramps := ← f.defaulted "keyframes" [] (list? ZoomRamp.ofJson?)
    autoZoom := ← f.defaulted "autoZoom" false bool?
    restZoom := ← f.defaulted "defaultZoom" 1 real?
    subjectFraming := ← f.defaulted "subjectFraming" false bool?
    subjectCount := ← f.defaulted "subjectCount" 1 nat64?
    cutaways := ← f.defaulted "brollLayers" [] (list? Cutaway.ofJson?)
    stickers := ← f.defaulted "stickerLayers" [] (list? Sticker.ofJson?)
    segments := ← f.defaulted "textSegments" [] (list? Segment.ofJson?)
    look := ← f.defaulted "captionStyle" {} CaptionLook.ofJson?
    hookText := ← f.optional "hookText" string?
    hookMs := ← f.defaulted "hookDurationMs" 3000 nat64?
    music := ← f.optional "audioTrack" Music.ofJson?
    enhanceAudio := ← f.defaulted "enhanceAudio" false bool?
    soundEffects := ← f.defaulted "sfxEnabled" false bool?
    soundEffectPath := ← f.optional "sfxPath" string?
    ducking := ← f.defaulted "duckingEnabled" false bool?
    watermark := ← f.optional "watermark" Watermark.ofJson? }

/-- The edit that a data text describes. -/
def Edit.ofText? (text : String) : Option Edit := do ofJson? (← Json.read? text)

end Montage
