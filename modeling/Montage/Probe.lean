import Montage.Binary64.Arith
import Montage.Config.Basic
import Montage.Decimal.Reader
import Montage.Fault
import Montage.Json.Decode
import Montage.Json.Reader

/-!
# Facts about the source

What the probe of a media file reports: the size of the picture as it is shown, the length, and
whether there is sound.
-/

namespace Montage

/-- Facts about a source that shape its graph. -/
structure Probe where
  width : Nat
  height : Nat
  durationMs : Option Nat
  hasAudio : Bool
  /-- Whether the facts were read from the source. -/
  probed : Bool
  deriving DecidableEq, Repr

namespace Probe

/-- What is assumed of a source that cannot be probed. -/
def assumed (settings : RenderSettings) : Probe :=
  { width := settings.defaultWidth, height := settings.defaultHeight, durationMs := none,
    hasAudio := true, probed := false }

/-- A stream as the probe reports it: its kind, its size, and its rotation in degrees as a tag and
as display data. -/
structure StreamReport where
  kind : String
  width : Option Nat
  height : Option Nat
  rotateTag : Option String
  rotations : List (Option Binary64)

/-- The report of the probe: the length as a text, and the streams. -/
structure Report where
  duration : Option String
  streams : List StreamReport

open Json (string? nat32? real? list? nullable fields?)

/-- The rotation of a tags record. -/
def rotateOfJson? (j : Json) : Option (Option String) := do
  (← fields? ["rotate"] j).optionalMember "rotate" string?

/-- The rotation of a display data record. -/
def rotationOfJson? (j : Json) : Option (Option Binary64) := do
  (← fields? ["rotation"] j).optionalMember "rotation" real?

/-- The length of a format record. -/
def durationOfJson? (j : Json) : Option (Option String) := do
  (← fields? ["duration"] j).optionalMember "duration" string?

/-- A stream record. -/
def StreamReport.ofJson? (j : Json) : Option StreamReport := do
  let f ← fields? ["codec_type", "width", "height", "tags", "side_data_list"] j
  return {
    kind := ← f.required "codec_type" string?
    width := ← f.optionalMember "width" nat32?
    height := ← f.optionalMember "height" nat32?
    rotateTag := (← f.optional "tags" rotateOfJson?).join
    rotations := ← f.defaulted "side_data_list" [] (list? rotationOfJson?) }

/-- The report of a value. -/
def Report.ofJson? (j : Json) : Option Report := do
  let f ← fields? ["format", "streams"] j
  return {
    duration := (← f.optional "format" durationOfJson?).join
    streams := ← f.defaulted "streams" [] (list? StreamReport.ofJson?) }

/-- The least rotation that fits 64 bits with a sign. -/
def leastDegrees : Int := -9223372036854775808

/-- The greatest such rotation. -/
def greatestDegrees : Int := 9223372036854775807

/-- A rotation tag: a whole number of 64 bits. -/
def degreesOfTag? (tag : String) : Option Int := do
  let degrees ← Decimal.intOfText? tag.toList
  if leastDegrees ≤ degrees ∧ degrees ≤ greatestDegrees then some degrees else none

/-- A rotation from display data: rounded, and kept in 64 bits. -/
def degreesOfData (x : Binary64) : Int :=
  let rounded := x.round
  if rounded.signBit then -(rounded.abs.toNatUpTo leastDegrees.natAbs : Nat)
  else (rounded.toNatUpTo greatestDegrees.natAbs : Nat)

/-- The rotation of a stream in degrees; the tag wins over the first display data. -/
def StreamReport.rotation (s : StreamReport) : Int :=
  match s.rotateTag.bind degreesOfTag? with
  | some degrees => degrees
  | none => ((s.rotations.findSome? id).map degreesOfData).getD 0

/-- A length in milliseconds; only a positive finite one counts. -/
def durationOfText? (text : String) : Option Nat := do
  let seconds ← Decimal.numberOfText? text.toList
  if seconds.isFinite ∧ Binary64.lt 0 seconds then some (seconds * 1000).round.toNat64 else none

/-- The facts in a report. A picture that is turned by a quarter is shown with its sides
exchanged. -/
def ofReport (r : Report) : Except Fault Probe :=
  match r.streams.find? fun s => s.kind == "video" with
  | none => .error (.probe "No video stream found")
  | some video =>
      match video.width, video.height with
      | some width, some height =>
          if width = 0 ∨ height = 0 then .error (.probe "Video stream has no dimensions")
          else
            let turned := video.rotation % 180 = 90
            .ok {
              width := if turned then height else width
              height := if turned then width else height
              durationMs := r.duration.bind durationOfText?
              hasAudio := r.streams.any fun s => s.kind == "audio"
              probed := true }
      | _, _ => .error (.probe "Video stream has no dimensions")

/-- The facts in the output of the probe; `complain` is what the reader of data says about an output
that it refuses. -/
def ofText (text : String) (complain : Complaint := .unknown) : Except Fault Probe :=
  match Json.read? text >>= Report.ofJson? with
  | none => .error (.probe (complain.explain "Failed to parse ffprobe output" text))
  | some report => ofReport report

end Probe

end Montage
