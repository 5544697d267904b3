import Montage.Clip.Basic
import Montage.Edit.Encode

/-!
# Writing a clip

The data form of a clip. Windows are pairs of times, and placements are lists of four numbers.
-/

namespace Montage

/-- The value of a window. -/
def Window.toJson (w : Window) : Json := .array [.ofNat w.startMs, .ofNat w.endMs]

/-- The value of a placement as a list. -/
def Placement.toJsonArray (p : Placement) : Json :=
  .array [.ofBinary64 p.x, .ofBinary64 p.y, .ofBinary64 p.width, .ofBinary64 p.height]

/-- The value of a ramp. -/
def ClipRamp.toJson (r : ClipRamp) : Json :=
  .record [("window", r.window.toJson), ("zoomStart", .ofBinary64 r.zoomStart),
    ("zoomEnd", .ofBinary64 r.zoomEnd)]

/-- The value of a cutaway. -/
def ClipCutaway.toJson (c : ClipCutaway) : Json :=
  .record [("path", .text c.path), ("window", c.window.toJson),
    ("sourceOffsetMs", .ofNat c.offsetMs), ("rect", c.placement.toJsonArray),
    ("opacity", .ofBinary64 c.opacity)]

/-- The value of a sticker. -/
def ClipSticker.toJson (s : ClipSticker) : Json :=
  .record [("source", s.source.toJson), ("window", s.window.toJson),
    ("rect", s.placement.toJsonArray)]

/-- The value of a word. -/
def ClipWord.toJson (w : ClipWord) : Json :=
  .record [("text", .text w.text), ("window", w.window.toJson)]

/-- The value of a caption segment. -/
def ClipSegment.toJson (s : ClipSegment) : Json :=
  .record [("text", .text s.text), ("window", s.window.toJson),
    ("startsInClip", .bool s.startsInClip), ("words", .array (s.words.map ClipWord.toJson))]

/-- The value of a clip. -/
def Clip.toJson (c : Clip) : Json :=
  .record [("sourcePath", .text c.sourcePath), ("trimStartMs", .ofNat c.trimStartMs),
    ("trimEndMs", .ofNat c.trimEndMs), ("durationMs", .ofNat c.durationMs),
    ("durationSecs", .ofBinary64 c.durationSeconds), ("sourceSpanMs", .ofNat c.sourceSpan),
    ("targetFormat", .text c.canvas.label), ("speed", .ofBinary64 c.speed), ("mute", .bool c.mute),
    ("volume", .ofBinary64 c.volume), ("colorFilter", c.grade.toJson),
    ("keyframes", .array (c.ramps.map ClipRamp.toJson)), ("autoZoom", .bool c.autoZoom),
    ("defaultZoom", .ofBinary64 c.restZoom), ("subjectFraming", .bool c.subjectFraming),
    ("subjectCount", .ofNat c.subjectCount),
    ("broll", .array (c.cutaways.map ClipCutaway.toJson)),
    ("stickers", .array (c.stickers.map ClipSticker.toJson)),
    ("segments", .array (c.segments.map ClipSegment.toJson)),
    ("captionOnsets", .array (c.onsets.map .ofNat)), ("captionStyle", c.look.toJson),
    ("hookText", .optional .text c.hookText), ("hookDurationMs", .ofNat c.hookMs),
    ("music", .optional Music.toJson c.music), ("enhanceAudio", .bool c.enhanceAudio),
    ("sfxEnabled", .bool c.soundEffects), ("sfxPath", .optional .text c.soundEffectPath),
    ("duckingEnabled", .bool c.ducking), ("watermark", .optional Watermark.toJson c.watermark)]

end Montage
