import Montage.Edit.Decode
import Montage.Json.Printer

/-!
# Writing an edit

The data form of an edit with every member given, in the order in which they are declared.
-/

namespace Montage

/-- The value of a placement. -/
def Placement.toJson (p : Placement) : Json :=
  .record [("x", .ofBinary64 p.x), ("y", .ofBinary64 p.y), ("width", .ofBinary64 p.width),
    ("height", .ofBinary64 p.height)]

/-- The value of a grade. -/
def Grade.toJson (g : Grade) : Json :=
  .record [("brightness", .ofBinary64 g.brightness), ("contrast", .ofBinary64 g.contrast),
    ("saturation", .ofBinary64 g.saturation), ("hue", .ofBinary64 g.hue),
    ("temperature", .ofBinary64 g.temperature), ("vignette", .ofBinary64 g.vignette)]

/-- The value of a zoom ramp. -/
def ZoomRamp.toJson (r : ZoomRamp) : Json :=
  .record [("startMs", .ofNat r.startMs), ("endMs", .ofNat r.endMs),
    ("zoomStart", .ofBinary64 r.zoomStart), ("zoomEnd", .ofBinary64 r.zoomEnd)]

/-- The value of a cutaway. -/
def Cutaway.toJson (c : Cutaway) : Json :=
  .record [("path", .text c.path), ("startMs", .ofNat c.startMs), ("endMs", .ofNat c.endMs),
    ("sourceOffsetMs", .ofNat c.offsetMs), ("rect", .optional Placement.toJson c.placement),
    ("opacity", .ofBinary64 c.opacity)]

/-- The value of an image source. -/
def ImageSource.toJson : ImageSource → Json
  | .file path => .record [("path", .text path)]
  | .inline url => .record [("dataUrl", .text url)]

/-- The value of a sticker. -/
def Sticker.toJson (s : Sticker) : Json :=
  .record [("source", s.source.toJson), ("startMs", .ofNat s.startMs), ("endMs", .ofNat s.endMs),
    ("rect", s.placement.toJson)]

/-- The value of a timed word. -/
def TimedWord.toJson (w : TimedWord) : Json :=
  .record [("text", .text w.text), ("startMs", .ofNat w.startMs), ("endMs", .ofNat w.endMs)]

/-- The value of a caption segment. -/
def Segment.toJson (s : Segment) : Json :=
  .record [("text", .text s.text), ("startMs", .ofNat s.startMs), ("endMs", .ofNat s.endMs),
    ("words", .array (s.words.map TimedWord.toJson))]

/-- The value of a caption look. -/
def CaptionLook.toJson (l : CaptionLook) : Json :=
  .record [("fontName", .text l.fontName), ("fontSize", .ofNat l.fontSize),
    ("textColor", .text l.textColor), ("highlightColor", .text l.highlightColor),
    ("outlineColor", .text l.outlineColor), ("outlineWidth", .ofBinary64 l.outlineWidth),
    ("position", .text l.position.name), ("marginV", .ofNat l.marginV),
    ("uppercase", .bool l.uppercase), ("highlightScale", .ofNat l.highlightScale)]

/-- The value of background music. -/
def Music.toJson (m : Music) : Json :=
  .record [("path", .text m.path), ("volume", .ofBinary64 m.volume), ("fadeIn", .bool m.fadeIn),
    ("fadeOut", .bool m.fadeOut), ("fadeDurationMs", .ofNat m.fadeMs),
    ("trimOffsetMs", .ofNat m.offsetMs)]

/-- The value of a watermark. -/
def Watermark.toJson (w : Watermark) : Json :=
  .record [("path", .text w.path), ("corner", .text w.corner.name),
    ("widthRatio", .ofBinary64 w.widthRatio), ("opacity", .ofBinary64 w.opacity),
    ("marginRatio", .ofBinary64 w.marginRatio)]

/-- The value of an edit. -/
def Edit.toJson (e : Edit) : Json :=
  .record [("sourcePath", .text e.sourcePath), ("outputPath", .optional .text e.outputPath),
    ("trimStartMs", .ofNat e.trimStartMs), ("trimEndMs", .ofNat e.trimEndMs),
    ("targetFormat", .text e.canvas.label), ("speed", .ofBinary64 e.speed), ("mute", .bool e.mute),
    ("volume", .ofBinary64 e.volume), ("colorFilter", e.grade.toJson),
    ("keyframes", .array (e.ramps.map ZoomRamp.toJson)), ("autoZoom", .bool e.autoZoom),
    ("defaultZoom", .ofBinary64 e.restZoom), ("subjectFraming", .bool e.subjectFraming),
    ("subjectCount", .ofNat e.subjectCount),
    ("brollLayers", .array (e.cutaways.map Cutaway.toJson)),
    ("stickerLayers", .array (e.stickers.map Sticker.toJson)),
    ("textSegments", .array (e.segments.map Segment.toJson)), ("captionStyle", e.look.toJson),
    ("hookText", .optional .text e.hookText), ("hookDurationMs", .ofNat e.hookMs),
    ("audioTrack", .optional Music.toJson e.music), ("enhanceAudio", .bool e.enhanceAudio),
    ("sfxEnabled", .bool e.soundEffects), ("sfxPath", .optional .text e.soundEffectPath),
    ("duckingEnabled", .bool e.ducking), ("watermark", .optional Watermark.toJson e.watermark)]

end Montage
