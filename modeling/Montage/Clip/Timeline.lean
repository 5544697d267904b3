import Montage.Binary64.Arith

/-!
# Clip time

A clip shows the trimmed range of the source at some speed. An instant of the source is moved into
the range and then scaled: `(instant - start) / speed`, rounded to whole milliseconds.
-/

namespace Montage

/-- A half-open range of clip time, in milliseconds. -/
structure Window where
  startMs : Nat
  endMs : Nat
  deriving DecidableEq, Repr

namespace Window

/-- The length of the window; zero when its ends are not in order. -/
def duration (w : Window) : Nat := w.endMs - w.startMs

/-- A number of milliseconds in seconds. -/
def seconds (ms : Nat) : Binary64 := .ofNat ms / 1000

/-- The beginning, in seconds. -/
def startSeconds (w : Window) : Binary64 := seconds w.startMs

/-- The end, in seconds. -/
def endSeconds (w : Window) : Binary64 := seconds w.endMs

end Window

/-- `n` moved into `[low, high]`. -/
def clampNat (low high n : Nat) : Nat := min (max low n) high

/-- A trimmed range of the source and the speed at which it is shown. -/
structure Timeline where
  trimStartMs : Nat
  trimEndMs : Nat
  speed : Binary64
  ordered : trimStartMs ≤ trimEndMs

namespace Timeline

/-- The clip time of a source instant. -/
def toClip (t : Timeline) (instantMs : Nat) : Nat :=
  (.ofNat (clampNat t.trimStartMs t.trimEndMs instantMs - t.trimStartMs) / t.speed).round.toNat64

/-- The length of the clip. -/
def duration (t : Timeline) : Nat := t.toClip t.trimEndMs

/-- Whether a source instant lies inside the trimmed range. -/
def contains (t : Timeline) (instantMs : Nat) : Bool :=
  t.trimStartMs ≤ instantMs && instantMs < t.trimEndMs

/-- Whether a source range has an instant in common with the trimmed range. -/
def overlaps (t : Timeline) (startMs endMs : Nat) : Bool :=
  t.trimStartMs < endMs && startMs < t.trimEndMs

/-- The clip window of a source range; `none` when the range lies outside the trimmed one or
shrinks to nothing. -/
def window? (t : Timeline) (startMs endMs : Nat) : Option Window :=
  if t.overlaps startMs endMs ∧ t.toClip startMs < t.toClip endMs then
    some ⟨t.toClip startMs, t.toClip endMs⟩
  else none

end Timeline

end Montage
