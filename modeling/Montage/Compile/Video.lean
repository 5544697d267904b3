import Montage.Clip.Basic
import Montage.Compile.Zoom
import Montage.Config.Basic
import Montage.Edit.Geometry
import Montage.Edit.Subject
import Montage.Graph.Builder
import Montage.Probe

/-!
# The picture

The video graph of a clip: framing, tempo, zoom, layers, colour, captions and watermark, in this
order. Only the framing is always there; what is left out adds no node.
-/

namespace Montage

/-! ## Assets

The files and settings that are found before a clip is compiled. -/

/-- What the compilation needs besides the clip. -/
structure Assets where
  /-- The caption file, if there are captions. -/
  subtitlePath : Option String := none
  fontsDir : Option String := none
  /-- One image for each sticker, in order. -/
  stickerPaths : List String := []
  soundEffectPath : Option String := none
  autoZoomMax : Binary64 := 1.15
  deriving DecidableEq

/-- The source of a clip, cut to the trimmed range. -/
def Clip.sourceInput (clip : Clip) : MediaInput :=
  .trimmed clip.sourcePath clip.trimStartMs clip.sourceSpan

end Montage

/-! ## The stages -/

namespace Montage.Video

open Montage.Filter (withArgs)

/-- The difference between one and the next greater number. -/
def unitStep : Binary64 := .ofRat (mkRat 1 Binary64.leastNormal)

/-- A quarter turn, in radians. -/
def quarterTurn : Binary64 := 1.5707963267948966

/-- Cut to a window and scaled to a size. -/
def cropScale (w : CropWindow) (width height : Nat) : List Filter :=
  [withArgs "crop" s!"{w.width}:{w.height}:{w.x}:{w.y}", withArgs "scale" s!"{width}:{height}",
   withArgs "setsar" "1"]

/-- The heights of `n` bands that together have the given height. All but the last are the even
number next to an equal share. -/
def bandHeights (height n : Nat) : List Nat :=
  let n := max n 1
  let band := max (evenFloor (height / n)) 2
  List.replicate (n - 1) band ++ [max (height - band * (n - 1)) 2]

/-- The bound of heights and of the numbers of bands that they are computed with. -/
def heightLimit : Nat := 4294967296

/-- The heights of `n` bands, if they can be computed: only the number's remainder by the bound of
heights counts for an equal share, there must be one, and the bands must not be too high
together. -/
def bandHeights? (height n : Nat) : Option (List Nat) :=
  let count := max n 1
  let share := count % heightLimit
  let band := max (evenFloor (height / share)) 2
  if share = 0 ∨ heightLimit ≤ band * (share - 1) then none
  else if count = share then some (bandHeights height n)
  else Limits.guardList count 4 fun _ =>
    List.replicate (count - 1) band ++ [max (height - band * (share - 1)) 2]

/-- The window that shows a subject in a picture of the given size. -/
def subjectWindow? (probe : Probe) (subject : Region) (width height : Nat) :
    Option CropWindow := do
  let w ← CropWindow.largest? probe.width probe.height (.ofNat width / .ofNat height)
  w.centeredOn? subject.centerX w.center.2 probe.width probe.height

/-- The window that shows one subject if the framing follows it, else the middle of the source. -/
def wholeWindow? (clip : Clip) (probe : Probe) (subjects : List Region) : Option CropWindow :=
  match clip.subjectFraming, subjects with
  | true, subject :: _ => subjectWindow? probe subject clip.canvas.width clip.canvas.height
  | _, _ =>
      CropWindow.largest? probe.width probe.height
        (.ofNat clip.canvas.width / .ofNat clip.canvas.height)

/-- One band for each subject, cut out of its own copy of the source. -/
def bands (probe : Probe) (width : Nat) :
    Builder → List (Pad × Region × Nat) → Option (Builder × List Pad)
  | b, [] => some (b, [])
  | b, (branch, subject, height) :: rest => do
      let window ← subjectWindow? probe subject width height
      let (b, pad) := b.node .video .frame [branch] (cropScale window width height)
      let (b, pads) ← bands probe width b rest
      return (b, pad :: pads)

/-- The framing: a stack of bands for several subjects, else one window, which follows the subject
if there is one. -/
def frame (clip : Clip) (probe : Probe) (subjects : List Region) (b : Builder) (source : Pad) :
    Option (Builder × Pad) := do
  let width := clip.canvas.width
  let height := clip.canvas.height
  let n := subjects.length
  if clip.subjectFraming ∧ 1 < n then
    let (b, branches) := b.fanOut .video .frame [source] [withArgs "split" (toString n)] n
    let heights ← bandHeights? height n
    let (b, pads) ← bands probe width b (branches.zip (subjects.zip heights))
    return b.node .video .frame pads [withArgs "vstack" s!"inputs={n}"]
  else
    let window ← wholeWindow? clip probe subjects
    return b.node .video .frame [source] (cropScale window width height)

/-- The change of tempo, unless the speed is one. -/
def tempo (clip : Clip) (b : Builder) (pad : Pad) : Builder × Pad :=
  if unitStep.lt (clip.speed - 1).abs then
    b.node .video .tempo [pad]
      [withArgs "setpts" s!"(PTS-STARTPTS)/{Decimal.fixed 6 clip.speed}"]
  else (b, pad)

/-- The zoom, if there is any. -/
def motion (clip : Clip) (autoZoomMax : Binary64) (b : Builder) (pad : Pad) : Builder × Pad :=
  match Zoom.expr? clip autoZoomMax with
  | some zoom =>
      b.node .video .motion [pad] (Zoom.filters zoom.text clip.canvas.width clip.canvas.height)
  | none => (b, pad)

/-- The option that shows a layer in its window only. -/
def enableText (w : Window) : String :=
  s!"enable='between(t,{Decimal.fixed 3 w.startSeconds},{Decimal.fixed 3 w.endSeconds})'"

/-- The filters that prepare a cutaway: fill its rectangle, start at its time, fade if it is not
opaque. -/
def cutawayFilters (layer : ClipCutaway) (r : PixelRect) : List Filter :=
  [withArgs "scale" s!"{r.width}:{r.height}:force_original_aspect_ratio=increase",
   withArgs "crop" s!"{r.width}:{r.height}",
   withArgs "setsar" "1",
   withArgs "setpts" s!"PTS-STARTPTS+{Decimal.fixed 3 layer.window.startSeconds}/TB"] ++
    if layer.opacity < 1 then
      [withArgs "format" "rgba",
       withArgs "colorchannelmixer" s!"aa={Decimal.fixed 3 layer.opacity}"]
    else []

/-- One cutaway over the picture. -/
def cutaway (clip : Clip) (b : Builder) (pad : Pad) (layer : ClipCutaway) :
    Outcome (Builder × Pad) := do
  let (b, input) := b.addInput (.trimmed layer.path layer.offsetMs layer.window.duration)
  let r ← Outcome.ofOption (layer.placement.toPixels? clip.canvas.width clip.canvas.height)
  let (b, media) ← b.take .video input
  let (b, prepared) := b.node .video .overlay [media] (cutawayFilters layer r)
  return b.node .video .overlay [pad, prepared]
    [withArgs "overlay" s!"x={r.x}:y={r.y}:{enableText layer.window}:eof_action=pass"]

/-- One sticker over the picture, centred in its rectangle. -/
def sticker (clip : Clip) (b : Builder) (pad : Pad) (layer : ClipSticker) (path : String) :
    Outcome (Builder × Pad) := do
  let (b, input) := b.addInput (.loopedImage path clip.durationMs)
  let r ← Outcome.ofOption (layer.placement.toPixels? clip.canvas.width clip.canvas.height)
  let (b, image) ← b.take .video input
  let (b, prepared) := b.node .video .overlay [image]
    [withArgs "scale" s!"{r.width}:{r.height}:force_original_aspect_ratio=decrease",
     withArgs "format" "rgba"]
  return b.node .video .overlay [pad, prepared]
    [withArgs "overlay"
      s!"x='{r.x}+({r.width}-w)/2':y='{r.y}+({r.height}-h)/2':{enableText layer.window}"]

/-- The text of the fault that reports a number of images other than that of the stickers. -/
def imageCountText (stickers images : Nat) : String :=
  s!"{stickers} sticker layers but {images} sticker images were resolved"

/-- All cutaways, then all stickers. -/
def layers (clip : Clip) (stickerPaths : List String) (b : Builder) (pad : Pad) :
    Outcome (Builder × Pad) := do
  let (b, pad) ← clip.cutaways.foldlM (fun s layer => cutaway clip s.1 s.2 layer) (b, pad)
  if stickerPaths.length ≠ clip.stickers.length then
    .fail (.graph (imageCountText clip.stickers.length stickerPaths.length))
  else
    (clip.stickers.zip stickerPaths).foldlM
      (fun s image => sticker clip s.1 s.2 image.1 image.2) (b, pad)

/-- The filters of a grade; none for a neutral one. -/
def gradeFilters? (g : Grade) : Option (List Filter) :=
  if g.isNeutral then none
  else some <|
    (if g.hasExposure then
      [withArgs "eq" (s!"brightness={Decimal.fixed 3 g.brightness}:" ++
        s!"contrast={Decimal.fixed 3 g.contrast}:saturation={Decimal.fixed 3 g.saturation}")]
    else []) ++
    (if g.hasHue then [withArgs "hue" s!"h={Decimal.fixed 3 g.hue}"] else []) ++
    (if g.hasTemperature then
      [withArgs "colortemperature" s!"temperature={Decimal.fixed 0 g.kelvin}"]
    else []) ++
    (if g.hasVignette then
      [withArgs "vignette" s!"angle={Decimal.fixed 4 (g.vignette * quarterTurn)}"]
    else [])

/-- The grade, unless it is neutral. -/
def color (clip : Clip) (b : Builder) (pad : Pad) : Builder × Pad :=
  match gradeFilters? clip.grade with
  | some filters => b.node .video .color [pad] filters
  | none => (b, pad)

/-- A character of a path inside a quoted filter option, which is unquoted once for the graph and
once more for the option. A quote leaves the quoted run and comes back escaped for the second
reading; a backslash is written as a slash. -/
def escapePathChar : Char → List Char
  | '\\' => ['/']
  | '\'' => ['\'', '\\', '\\', '\\', '\'', '\'']
  | ':' => ['\\', ':']
  | c => [c]

/-- A path inside a quoted filter option. -/
def escapePath (path : String) : String := String.ofList (path.toList.flatMap escapePathChar)

/-- The filter that burns captions in. -/
def subtitleFilter (path : String) (fontsDir : Option String) : Filter :=
  withArgs "subtitles" (s!"filename='{escapePath path}'" ++
    (match fontsDir with
      | some dir => s!":fontsdir='{escapePath dir}'"
      | none => ""))

/-- The captions, if there are any. -/
def subtitles (assets : Assets) (b : Builder) (pad : Pad) : Builder × Pad :=
  match assets.subtitlePath with
  | some path => b.node .video .subtitle [pad] [subtitleFilter path assets.fontsDir]
  | none => (b, pad)

/-- Where a watermark stands, at a distance from the edges. -/
def cornerText (corner : Corner) (margin : Nat) : String :=
  match corner with
  | .topLeft => s!"x={margin}:y={margin}"
  | .topRight => s!"x=W-w-{margin}:y={margin}"
  | .bottomLeft => s!"x={margin}:y=H-h-{margin}"
  | .bottomRight => s!"x=W-w-{margin}:y=H-h-{margin}"

/-- The watermark, if there is one. -/
def watermark (clip : Clip) (b : Builder) (pad : Pad) : Outcome (Builder × Pad) :=
  match clip.watermark with
  | none => return (b, pad)
  | some mark => do
      let width := Binary64.ofNat clip.canvas.width
      let (b, input) := b.addInput { path := mark.path }
      let markWidth := max (evenFloor (width * mark.widthRatio).round.toNat32) 2
      let margin := (width * mark.marginRatio).round.toNat32
      let (b, logo) ← b.take .video input
      let (b, prepared) := b.node .video .watermark [logo]
        [withArgs "scale" s!"{markWidth}:-2", withArgs "format" "rgba",
         withArgs "colorchannelmixer" s!"aa={Decimal.fixed 3 mark.opacity}"]
      return b.node .video .watermark [pad, prepared]
        [withArgs "overlay" (cornerText mark.corner margin)]

/-- The video graph of a clip, before its wiring is checked. -/
def build (clip : Clip) (probe : Probe) (subjects : List Region) (assets : Assets) :
    Outcome Graph := do
  let (b, source) ← (Builder.new clip.sourceInput).take .video 0
  let (b, pad) ← Outcome.ofOption (frame clip probe subjects b source)
  let (b, pad) := tempo clip b pad
  let (b, pad) := motion clip assets.autoZoomMax b pad
  let (b, pad) ← layers clip assets.stickerPaths b pad
  let (b, pad) := color clip b pad
  let (b, pad) := subtitles assets b pad
  let (b, pad) ← watermark clip b pad
  return b.finish (some pad) none

/-- The video graph of a clip. -/
def compile (clip : Clip) (probe : Probe) (subjects : List Region) (assets : Assets) :
    Outcome Graph := do
  let graph ← build clip probe subjects assets
  Outcome.ofExcept (graph.checked.mapError WiringFault.toFault)

end Montage.Video
