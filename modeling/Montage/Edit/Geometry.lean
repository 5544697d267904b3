import Montage.Binary64.Arith
import Montage.Fault

/-!
# Rectangles

Where layers lie on the canvas, and which window of the source is kept.
-/

/-!
## Placement on the canvas

A rectangle in fractions of the canvas, its clamping onto the canvas, and its pixels.
-/

namespace Montage

/-- `n` rounded down to an even number. -/
def evenFloor (n : Nat) : Nat := n - n % 2

/-- A rectangle in fractions of the canvas. -/
structure Placement where
  x : Binary64
  y : Binary64
  width : Binary64
  height : Binary64
  deriving DecidableEq

/-- A rectangle in whole pixels. -/
structure PixelRect where
  x : Nat
  y : Nat
  width : Nat
  height : Nat
  deriving DecidableEq, Repr

namespace Placement

/-- The whole canvas. -/
def full : Placement := ⟨0, 0, 1, 1⟩

/-- The rectangle moved and cut onto the canvas: sides of at least a hundredth and at most the
whole, then the corner so that the rectangle fits. There is none when a side is not a number. -/
def clamped? (r : Placement) : Option Placement := do
  let width ← r.width.clamp? 0.01 1
  let height ← r.height.clamp? 0.01 1
  let x ← r.x.clamp? 0 (1 - width)
  let y ← r.y.clamp? 0 (1 - height)
  return ⟨x, y, width, height⟩

/-- The pixels of a fraction of a side. -/
def span (fraction : Binary64) (side : Nat) : Nat := (fraction * .ofNat side).round.toNat32

/-- The rectangle in pixels: even sides of at least two, and a corner that keeps them on the
canvas. -/
def toPixels? (r : Placement) (canvasWidth canvasHeight : Nat) : Option PixelRect := do
  let r ← r.clamped?
  let width := max (evenFloor (span r.width canvasWidth)) 2
  let height := max (evenFloor (span r.height canvasHeight)) 2
  return {
    x := min (span r.x canvasWidth) (canvasWidth - width)
    y := min (span r.y canvasHeight) (canvasHeight - height)
    width, height }

end Placement

/-! ## Cropping the source

The window of the source picture that is kept: the largest one of an aspect, and the same window
moved so that a point of interest is in its middle. -/

/-- A window of the source picture, in pixels. -/
structure CropWindow where
  x : Nat
  y : Nat
  width : Nat
  height : Nat
  deriving DecidableEq, Repr

namespace CropWindow

/-- The even side next to the given one, within `[2, limit]`. -/
def fitSide? (side : Binary64) (limit : Nat) : Option Nat :=
  Limits.clamp? (evenFloor side.round.toNat32) 2 limit

/-- The sides of the largest window of the aspect that fits the source. -/
def fitSides? (sourceWidth sourceHeight : Nat) (aspect : Binary64) : Option (Nat × Nat) :=
  if aspect < (.ofNat sourceWidth / .ofNat sourceHeight : Binary64) then do
    return (← fitSide? (.ofNat sourceHeight * aspect) sourceWidth, max (evenFloor sourceHeight) 2)
  else do
    return (max (evenFloor sourceWidth) 2, ← fitSide? (.ofNat sourceWidth / aspect) sourceHeight)

/-- The centred window of the aspect with the largest even sides that fit the source. A side of
the source below two counts as two. -/
def largest? (sourceWidth sourceHeight : Nat) (aspect : Binary64) : Option CropWindow := do
  let sourceWidth := max sourceWidth 2
  let sourceHeight := max sourceHeight 2
  let (width, height) ← fitSides? sourceWidth sourceHeight aspect
  return {
    x := (← Limits.minus? sourceWidth width) / 2
    y := (← Limits.minus? sourceHeight height) / 2
    width, height }

/-- The corner, along one axis, of a window of the given side that is centred at `center` as far
as the source allows. -/
def cornerFor? (center : Binary64) (side source : Nat) : Option Nat :=
  ((center - .ofNat side / 2).clamp? 0 (.ofNat (source - side))).map fun corner =>
    corner.round.toNat32

/-- The window moved so that its centre is at the point, as far as the source allows. -/
def centeredOn? (w : CropWindow) (centerX centerY : Binary64) (sourceWidth sourceHeight : Nat) :
    Option CropWindow := do
  return { w with
    x := ← cornerFor? centerX w.width sourceWidth
    y := ← cornerFor? centerY w.height sourceHeight }

/-- The middle of the window. -/
def center (w : CropWindow) : Binary64 × Binary64 :=
  (.ofNat w.x + .ofNat w.width / 2, .ofNat w.y + .ofNat w.height / 2)

end CropWindow

end Montage
