import Montage.Binary64.Arith
import Montage.Decimal.Reader

/-!
# Progress

A render reports its progress in percent. Events that would not move forward are held back. While
encoding, the percent follows from the time that the encoder says it has reached.
-/

namespace Montage

/-- A part of a render. -/
inductive RenderStage where
  | preparing
  | probing
  | locating
  | compiling
  | encoding
  | complete
  deriving DecidableEq, Repr

namespace RenderStage

/-- Every stage, in order. -/
def all : List RenderStage :=
  [.preparing, .probing, .locating, .compiling, .encoding, .complete]

/-- The name of a stage. -/
def name : RenderStage → String
  | preparing => "preparing"
  | probing => "probing"
  | locating => "locating"
  | compiling => "compiling"
  | encoding => "encoding"
  | complete => "complete"

/-- The name of a stage at the beginning of a phrase. -/
def title : RenderStage → String
  | preparing => "Preparing"
  | probing => "Probing"
  | locating => "Locating"
  | compiling => "Compiling"
  | encoding => "Encoding"
  | complete => "Complete"

end RenderStage

/-- An event: how far, in which stage, and how many seconds are left, if known. -/
structure Progress where
  stage : RenderStage
  percent : Binary64
  remaining : Option Binary64
  deriving DecidableEq

namespace Progress

/-- The percent when the source is probed. -/
def probed : Binary64 := 5

/-- The percent when subjects are about to be located. -/
def locating : Binary64 := 7

/-- The percent when the program is compiled. -/
def compiled : Binary64 := 10

/-- The greatest percent while encoding. -/
def ceiling : Binary64 := 99

/-- The event at the end of a render. -/
def finished : Progress := ⟨.complete, 100, some 0⟩

end Progress

/-- The events that were forwarded, last one first. -/
structure Tracker where
  events : List Progress := []
  deriving DecidableEq

namespace Tracker

/-- The percent of the last event that was forwarded. -/
def last? (t : Tracker) : Option Binary64 := t.events.head?.map (·.percent)

/-- Reports an event. It is forwarded, with its percent brought into `[0, 100]`, if that is a number
and more than the last one; the answer tells which. -/
def report (t : Tracker) (e : Progress) : Tracker × Bool :=
  if e.percent.isFinite then
    let percent := (e.percent.clamp? 0 100).getD e.percent
    if t.last?.any fun last => percent ≤ last then (t, false)
    else (⟨{ e with percent } :: t.events⟩, true)
  else (t, false)

/-- Reports the end. -/
def complete (t : Tracker) : Tracker := (t.report .finished).1

end Tracker

/-- What the encoder has said: the time it has reached, in seconds, and whether it is done. -/
structure EncodeState where
  reached : Binary64 := 0
  done : Bool := false
  deriving DecidableEq

namespace EncodeState

/-- One statement of the encoder. Both names of the time are in microseconds; a value that is no
number changes nothing. -/
def update (s : EncodeState) (key value : String) : EncodeState :=
  if key = "out_time_ms" ∨ key = "out_time_us" then
    match Decimal.numberOfText? value.toList with
    | some micros => { s with reached := micros / 1000000 }
    | none => s
  else if key = "progress" then { s with done := value = "end" }
  else s

/-- The share of the expected length that was reached, within `[0, 1]`. -/
def ratio (s : EncodeState) (expected : Binary64) : Binary64 :=
  if expected ≤ 0 then 0
  else
    let share := s.reached / expected
    (share.clamp? 0 1).getD share

end EncodeState

/-- The percent while encoding, for a share of the expected length. -/
def encodePercent (ratio : Binary64) : Binary64 :=
  let share := (ratio.clamp? 0 1).getD ratio
  (Progress.compiled + (Progress.ceiling - Progress.compiled) * share).minimum Progress.ceiling

/-- The seconds that are left, if the rest goes on as it did; unknown at the beginning. -/
def remaining? (elapsed ratio : Binary64) : Option Binary64 :=
  if Binary64.lt 0 ratio then some ((elapsed / ratio - elapsed).maximum 0) else none

end Montage
