import Montage.Decimal.Shortest
import Montage.Edit.Spec
import Montage.Text.Split

/-!
# Checking an edit

The rules an edit has to keep. `Edit.problems` lists every breach, in the order of the rules; the
first one is reported.
-/

namespace Montage

/-- The part of an edit that a rule is about. -/
inductive Part where
  | ramp (index : Nat)
  | cutaway (index : Nat)
  | sticker (index : Nat)
  | segment (index : Nat)
  deriving DecidableEq, Repr

/-- The name of a part in the edit's data form. -/
def Part.path : Part → String
  | ramp i => s!"keyframes[{i}]"
  | cutaway i => s!"brollLayers[{i}]"
  | sticker i => s!"stickerLayers[{i}]"
  | segment i => s!"textSegments[{i}]"

/-- A breach of a rule for edits. -/
inductive Problem where
  | trimOrder (startMs endMs : Nat)
  | speed (value : Binary64)
  | volume (value : Binary64)
  | restZoom (value : Binary64)
  | subjectCount (value : Nat)
  | grade (control : String) (value : Binary64)
  | emptyRange (part : Part) (startMs endMs : Nat)
  | rampZoom (index : Nat) (side : String) (value : Binary64)
  | rampOverlap (first : Nat) (a : ZoomRamp) (second : Nat) (b : ZoomRamp)
  | unitRange (what : String) (value : Binary64)
  | placement (part : Part)
  | inlineImage (index : Nat)
  | wordOrder (index : Nat) (text : String)
  | musicVolume (value : Binary64)
  | watermarkWidth (value : Binary64)
  | noDuration
  deriving DecidableEq

namespace Problem

open Decimal (plain)

/-- The greatest number of subjects that are framed at once. -/
def maxSubjects : Nat := 3

/-- The text of a problem. -/
def message : Problem → String
  | trimOrder startMs endMs => s!"trimEndMs ({endMs}) must be greater than trimStartMs ({startMs})"
  | speed value => s!"speed must be a positive number, got {plain value}"
  | volume value => s!"volume must be non-negative, got {plain value}"
  | restZoom value => s!"defaultZoom must be at least 1.0, got {plain value}"
  | subjectCount value => s!"subjectCount must be between 1 and {maxSubjects}, got {value}"
  | grade control value => s!"colorFilter.{control} out of range: {plain value}"
  | emptyRange part startMs endMs =>
      s!"{part.path}: endMs ({endMs}) must be greater than startMs ({startMs})"
  | rampZoom i side value => s!"keyframes[{i}].{side} must be at least 1.0, got {plain value}"
  | rampOverlap i a j b =>
      s!"keyframes[{i}] ({a.startMs}..{a.endMs}ms) overlaps keyframes[{j}] " ++
        s!"({b.startMs}..{b.endMs}ms)"
  | unitRange what value => s!"{what} must be within [0, 1], got {plain value}"
  | placement part => s!"{part.path}.rect must have finite coordinates and a positive size"
  | inlineImage i => s!"stickerLayers[{i}].source is not a base64 image data URL"
  | wordOrder i text => s!"textSegments[{i}] word '{text}' ends before it starts"
  | musicVolume value => s!"audioTrack.volume must be non-negative, got {plain value}"
  | watermarkWidth value => s!"watermark.widthRatio must be in (0, 1], got {plain value}"
  | noDuration => "Clip duration resolves to zero milliseconds"

/-- The problem, if the rule is not kept. -/
def ensure (kept : Bool) (problem : Problem) : List Problem := if kept then [] else [problem]

end Problem

open Problem (ensure)

/-- A finite number of at least `least`. -/
def Binary64.finiteFrom (value least : Binary64) : Bool := value.isFinite && !value.lt least

/-- A number of `[0, 1]`. -/
def Binary64.inUnit (value : Binary64) : Bool := le 0 value && value.le 1

/-- Finite coordinates and a positive size. -/
def Placement.isProper (r : Placement) : Bool :=
  r.x.isFinite && r.y.isFinite && r.width.isFinite && r.height.isFinite &&
    !r.width.le 0 && !r.height.le 0

/-- A range must not be empty. -/
def rangeProblems (part : Part) (startMs endMs : Nat) : List Problem :=
  ensure (startMs < endMs) (.emptyRange part startMs endMs)

/-- A ramp has a range and zooms in at both ends. -/
def ZoomRamp.problems (index : Nat) (r : ZoomRamp) : List Problem :=
  rangeProblems (.ramp index) r.startMs r.endMs ++
    ensure (r.zoomStart.finiteFrom 1) (.rampZoom index "zoomStart" r.zoomStart) ++
    ensure (r.zoomEnd.finiteFrom 1) (.rampZoom index "zoomEnd" r.zoomEnd)

/-- The neighbours of a list that overlap in time. -/
def overlapProblems : List (ZoomRamp × Nat) → List Problem
  | (a, i) :: (b, j) :: rest =>
      ensure (a.endMs ≤ b.startMs) (.rampOverlap i a j b) ++ overlapProblems ((b, j) :: rest)
  | _ => []

/-- Ramps may leave gaps and may touch, but no two may overlap. -/
def rampProblems (ramps : List ZoomRamp) : List Problem :=
  ramps.zipIdx.flatMap (fun (r, i) => r.problems i) ++
    overlapProblems (ramps.zipIdx.mergeSort fun a b => a.1.startMs ≤ b.1.startMs)

/-- A cutaway has a range, an opacity and, if placed, a proper placement. -/
def Cutaway.problems (index : Nat) (c : Cutaway) : List Problem :=
  rangeProblems (.cutaway index) c.startMs c.endMs ++
    ensure c.opacity.inUnit (.unitRange s!"brollLayers[{index}].opacity" c.opacity) ++
    ensure (c.placement.all Placement.isProper) (.placement (.cutaway index))

/-- The beginning of every inline image. -/
def inlineImageStart : List Char := "data:image/".toList

/-- What stands before the payload of an inline image. -/
def payloadMark : List Char := ";base64,".toList

/-- Whether a text begins as an inline image and has a payload mark. -/
def isInlineImage (url : String) : Bool :=
  inlineImageStart.isPrefixOf url.toList && Text.contains payloadMark url.toList

/-- A sticker has a range, a proper placement and, if inline, the form of an image. -/
def Sticker.problems (index : Nat) (s : Sticker) : List Problem :=
  rangeProblems (.sticker index) s.startMs s.endMs ++
    ensure s.placement.isProper (.placement (.sticker index)) ++
    match s.source with
    | .file _ => []
    | .inline url => ensure (isInlineImage url) (.inlineImage index)

/-- A segment has a range, and its words do not end before they start. -/
def Segment.problems (index : Nat) (s : Segment) : List Problem :=
  rangeProblems (.segment index) s.startMs s.endMs ++
    s.words.flatMap fun w => ensure (w.startMs ≤ w.endMs) (.wordOrder index w.text)

/-- The volume of music is a number, not negative. -/
def Music.problems (m : Music) : List Problem :=
  ensure (m.volume.finiteFrom 0) (.musicVolume m.volume)

/-- A watermark has a width, and its opacity and margin are fractions. -/
def Watermark.problems (w : Watermark) : List Problem :=
  ensure (Binary64.lt 0 w.widthRatio && w.widthRatio.le 1)
      (.watermarkWidth w.widthRatio) ++
    ensure w.opacity.inUnit (.unitRange "watermark.opacity" w.opacity) ++
    ensure w.marginRatio.inUnit (.unitRange "watermark.marginRatio" w.marginRatio)

/-- Every breach of a rule, in the order of the rules. -/
def Edit.problems (e : Edit) : List Problem :=
  ensure (e.trimStartMs < e.trimEndMs) (.trimOrder e.trimStartMs e.trimEndMs) ++
    ensure (e.speed.isFinite && !e.speed.le 0) (.speed e.speed) ++
    ensure (e.volume.finiteFrom 0) (.volume e.volume) ++
    ensure (e.restZoom.finiteFrom 1) (.restZoom e.restZoom) ++
    ensure (1 ≤ e.subjectCount && e.subjectCount ≤ Problem.maxSubjects)
      (.subjectCount e.subjectCount) ++
    (e.grade.outOfRange?.map fun (control, value) => Problem.grade control value).toList ++
    rampProblems e.ramps ++
    e.cutaways.zipIdx.flatMap (fun (c, i) => c.problems i) ++
    e.stickers.zipIdx.flatMap (fun (s, i) => s.problems i) ++
    e.segments.zipIdx.flatMap (fun (s, i) => s.problems i) ++
    e.music.toList.flatMap Music.problems ++
    e.watermark.toList.flatMap Watermark.problems

end Montage
