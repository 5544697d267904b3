import Montage.Clip.Timeline
import Montage.Edit.Check
import Montage.Fault
import Montage.Text.Split

/-!
# The clip

An edit that keeps all rules, with every time moved from the source to the clip. Layers outside
the trimmed range are left out, and layers cut by it are cut.
-/

namespace Montage

/-- A zoom that changes evenly over a window of the clip. -/
structure ClipRamp where
  window : Window
  zoomStart : Binary64
  zoomEnd : Binary64
  deriving DecidableEq

/-- A cutaway in clip time; the offset includes what the trim cuts off its beginning. -/
structure ClipCutaway where
  path : String
  window : Window
  offsetMs : Nat
  placement : Placement
  opacity : Binary64
  deriving DecidableEq

/-- A sticker in clip time. -/
structure ClipSticker where
  source : ImageSource
  window : Window
  placement : Placement
  deriving DecidableEq

/-- A word in clip time. -/
structure ClipWord where
  text : String
  window : Window
  deriving DecidableEq

/-- A caption segment in clip time. -/
structure ClipSegment where
  text : String
  window : Window
  words : List ClipWord
  /-- Whether the segment begins inside the trimmed range. -/
  startsInClip : Bool
  deriving DecidableEq

/-- A checked edit in clip time. -/
structure Clip where
  sourcePath : String
  trimStartMs : Nat
  trimEndMs : Nat
  durationMs : Nat
  canvas : Canvas
  speed : Binary64
  mute : Bool
  volume : Binary64
  grade : Grade
  ramps : List ClipRamp
  autoZoom : Bool
  restZoom : Binary64
  subjectFraming : Bool
  subjectCount : Nat
  cutaways : List ClipCutaway
  stickers : List ClipSticker
  segments : List ClipSegment
  look : CaptionLook
  hookText : Option String
  hookMs : Nat
  music : Option Music
  enhanceAudio : Bool
  soundEffects : Bool
  soundEffectPath : Option String
  ducking : Bool
  watermark : Option Watermark
  deriving DecidableEq

/-- The zoom of a ramp at a source instant, even between its ends. -/
def ZoomRamp.zoomAt (r : ZoomRamp) (instantMs : Nat) : Binary64 :=
  let share := .ofNat (instantMs - r.startMs) / .ofNat (r.endMs - r.startMs)
  r.zoomStart + (r.zoomEnd - r.zoomStart) * ((Binary64.clamp? share 0 1).getD share)

/-- A ramp in clip time. Where the trim cuts it, it has the zoom it would have there. -/
def ZoomRamp.toClip? (t : Timeline) (r : ZoomRamp) : Option ClipRamp := do
  return {
    window := ← t.window? r.startMs r.endMs
    zoomStart := r.zoomAt (max r.startMs t.trimStartMs)
    zoomEnd := r.zoomAt (min r.endMs t.trimEndMs) }

/-- The sum of two times, at most the greatest one. -/
def addMs (a b : Nat) : Nat := min (a + b) Binary64.top64

/-- A cutaway in clip time; the inner `none` stands for a placement that cannot be clamped. -/
def Cutaway.toClip? (t : Timeline) (c : Cutaway) : Option (Option ClipCutaway) := do
  let window ← t.window? c.startMs c.endMs
  return (c.placement.getD .full).clamped?.map fun placement =>
    { path := c.path
      window
      offsetMs := addMs c.offsetMs (t.trimStartMs - c.startMs)
      placement
      opacity := c.opacity }

/-- A sticker in clip time; the inner `none` stands for a placement that cannot be clamped. -/
def Sticker.toClip? (t : Timeline) (s : Sticker) : Option (Option ClipSticker) := do
  let window ← t.window? s.startMs s.endMs
  return s.placement.clamped?.map fun placement => { source := s.source, window, placement }

/-- A word in clip time, inside the window of its segment. A word lasts at least a millisecond of
the source. -/
def TimedWord.toClip? (t : Timeline) (segment : Window) (w : TimedWord) : Option ClipWord := do
  let window ← t.window? w.startMs (max w.endMs (addMs w.startMs 1))
  return {
    text := w.text
    window :=
      ⟨clampNat segment.startMs segment.endMs window.startMs,
       clampNat segment.startMs segment.endMs window.endMs⟩ }

/-- A segment in clip time. Words that are left out of the clip or blank are dropped. -/
def Segment.toClip? (t : Timeline) (s : Segment) : Option ClipSegment := do
  let window ← t.window? s.startMs s.endMs
  return {
    text := s.text
    window
    words := (s.words.filterMap (·.toClip? t window)).filter fun w => Text.trim w.text ≠ ""
    startsInClip := t.contains s.startMs }

/-- The clip of an edit whose layers are in clip time already. -/
def Clip.ofLayers (e : Edit) (t : Timeline) (cutaways : List ClipCutaway)
    (stickers : List ClipSticker) : Clip where
  sourcePath := e.sourcePath
  trimStartMs := e.trimStartMs
  trimEndMs := e.trimEndMs
  durationMs := t.duration
  canvas := e.canvas
  speed := e.speed
  mute := e.mute
  volume := e.volume
  grade := e.grade
  ramps := e.ramps.filterMap (·.toClip? t)
  autoZoom := e.autoZoom
  restZoom := e.restZoom
  subjectFraming := e.subjectFraming
  subjectCount := e.subjectCount
  cutaways := cutaways
  stickers := stickers
  segments := e.segments.filterMap (·.toClip? t)
  look := e.look
  hookText := (e.hookText.map Text.trim).filter (· ≠ "")
  hookMs := e.hookMs
  music := e.music
  enhanceAudio := e.enhanceAudio
  soundEffects := e.soundEffects
  soundEffectPath := e.soundEffectPath
  ducking := e.ducking
  watermark := e.watermark

/-- The clip of an edit. The first problem of the edit is its fault; an edit whose clip is empty
has one, too. -/
def Clip.ofEdit (e : Edit) : Outcome Clip :=
  match e.problems with
  | problem :: _ => .fail (.graph problem.message)
  | [] =>
      if h : e.trimStartMs ≤ e.trimEndMs then
        let t : Timeline := ⟨e.trimStartMs, e.trimEndMs, e.speed, h⟩
        if t.duration = 0 then .fail (.graph Problem.noDuration.message)
        else do
          let cutaways ← (e.cutaways.filterMap (·.toClip? t)).mapM Outcome.ofOption
          let stickers ← (e.stickers.filterMap (·.toClip? t)).mapM Outcome.ofOption
          return .ofLayers e t cutaways stickers
      else .error .broken

namespace Clip

/-- The length of the clip in seconds. -/
def durationSeconds (c : Clip) : Binary64 := Window.seconds c.durationMs

/-- The length of the trimmed range of the source. -/
def sourceSpan (c : Clip) : Nat := c.trimEndMs - c.trimStartMs

/-- The clip times at which a segment that begins in the clip begins, each once, in order. -/
def onsets (c : Clip) : List Nat :=
  let starts := (c.segments.filter (·.startsInClip)).map (·.window.startMs)
  distinct (starts.mergeSort fun a b => a ≤ b)
where
  distinct : List Nat → List Nat
    | a :: b :: rest => if a = b then distinct (b :: rest) else a :: distinct (b :: rest)
    | short => short

end Clip

end Montage
