import Montage.Config.Basic
import Montage.Locate.Heuristic
import Montage.Locate.Vision

/-!
# The locator

Tiers are asked in order until one answers. A tier that needs a still picture is passed over when
there is none. When no tier answers, the centres are spread evenly.
-/

namespace Montage

/-- One frame of the source: its size, and a still picture if one was taken. A still that cannot be
decoded is there, but holds no picture. -/
structure Frame where
  still : Option (Option Picture)
  width : Nat
  height : Nat

/-- One way to find subjects. No regions count as no answer. -/
structure Tier where
  method : Method
  needsStill : Bool
  locate : Frame → Nat → Option (List Region)

namespace Tier

/-- Evenly spread centres. -/
def center : Tier where
  method := .fallback
  needsStill := false
  locate frame count := some (Region.evenlySpaced frame.width frame.height count)

/-- The brightness heuristic on the still picture. -/
def heuristic : Tier where
  method := .heuristic
  needsStill := true
  locate frame count := do
    let picture ← frame.still.join
    Heuristic.regions? picture frame.width frame.height count

/-- The remote classifier; `ask` gives the body of its reply, if there is one. -/
def vision (ask : Frame → Nat → Option String) : Tier where
  method := .vision
  needsStill := true
  locate frame count := do (Vision.regions (← ask frame count) frame.width frame.height).toOption

/-- The answer of a tier in the form of every answer; `none` passes on to the next tier. -/
def answer? (t : Tier) (frame : Frame) (count : Nat) : Option (List Region) := do
  Region.normalized? (← t.locate frame count) count

/-- Whether a tier is asked at all. -/
def isUsable (t : Tier) (frame : Frame) : Bool := !t.needsStill || frame.still.isSome

end Tier

namespace Locator

/-- Asks the tiers in order: which of them were asked, and the first answer. -/
def consult (frame : Frame) (count : Nat) : List Tier → List Bool × Option (List Region)
  | [] => ([], none)
  | t :: rest =>
      if t.isUsable frame then
        match t.answer? frame count with
        | some regions => (true :: rest.map fun _ => false, some regions)
        | none =>
            let (asked, answer) := consult frame count rest
            (true :: asked, answer)
      else
        let (asked, answer) := consult frame count rest
        (false :: asked, answer)

/-- The subjects of a frame: at least one, from left to right. -/
def locate (tiers : List Tier) (frame : Frame) (count : Nat) : List Region :=
  let count := max count 1
  ((consult frame count tiers).2).getD (Region.evenlySpaced frame.width frame.height count)

/-- The subjects of a frame, if there can be so many regions. -/
def locate? (tiers : List Tier) (frame : Frame) (count : Nat) : Option (List Region) :=
  Limits.guardList count Region.bytes fun _ => locate tiers frame count

/-- The environment variable whose value replaces the configured credential. -/
def credentialVariable : String := "REELCUT_VISION_API_KEY"

/-- The credential of the remote classifier: that of the environment, if set, else the configured
one; a blank one is none. -/
def credential? (settings : VisionSettings) (environment : Option String) : Option String :=
  ((environment.or settings.apiKey).map Text.trim).filter (· ≠ "")

/-- The usual tiers: the remote classifier if there is a credential, the heuristic, and the
centres. -/
def usualTiers (credential : Option String) (ask : Frame → Nat → Option String) : List Tier :=
  (if credential.isSome then [Tier.vision ask] else []) ++ [.heuristic, .center]

end Locator

end Montage
