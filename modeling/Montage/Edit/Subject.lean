import Montage.Binary64.Arith
import Montage.Fault

/-!
# Subject regions

A point of the source picture that framing keeps in view, and the form every locator answer takes:
from left to right, and as many as were asked for.
-/

namespace Montage

/-- How a region was found. -/
inductive Method where
  | vision
  | heuristic
  | fallback
  deriving DecidableEq, Repr

/-- The name of a method. -/
def Method.name : Method → String
  | .vision => "vision"
  | .heuristic => "heuristic"
  | .fallback => "fallback"

/-- A point of interest, in source pixels, with a confidence between zero and one. -/
structure Region where
  centerX : Binary64
  centerY : Binary64
  confidence : Binary64
  method : Method
  deriving DecidableEq

namespace Region

/-- At least one centre, spread evenly across the width at half the height. -/
def evenlySpaced (width height count : Nat) : List Region :=
  let count := max count 1
  (List.range count).map fun i =>
    { centerX := .ofNat width * .ofNat (2 * i + 1) / .ofNat (2 * count)
      centerY := .ofNat height / 2
      confidence := 0
      method := .fallback }

/-- The bytes that a region takes up in a list. -/
def bytes : Nat := 32

/-- Evenly spread centres, if there can be so many. -/
def evenlySpaced? (width height count : Nat) : Option (List Region) :=
  Limits.guardList count bytes fun _ => evenlySpaced width height count

/-- Sorted from left to right, equal centres in their given order. -/
def sorted (regions : List Region) : List Region :=
  regions.mergeSort fun a b => a.centerX.totalLe b.centerX

/-- `regions` with its last entry repeated up to `count` entries. -/
def padded (count : Nat) (regions : List Region) : List Region :=
  match regions.getLast? with
  | some last => regions ++ List.replicate (count - regions.length) last
  | none => regions

/-- From left to right, cut to `count` entries (at least one) and padded to `count` with the last
one; `none` for no regions. -/
def normalized? (regions : List Region) (count : Nat) : Option (List Region) :=
  if regions = [] then none else some (padded count ((sorted regions).take (max count 1)))

/-- Whether no centre lies to the right of the next one. -/
def leftToRight : List Region → Bool
  | a :: b :: rest => a.centerX.le b.centerX && leftToRight (b :: rest)
  | _ => true

end Region

end Montage
