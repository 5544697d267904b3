import Montage.Clip.Basic
import Montage.Decimal.Fixed
import Montage.Graph.Basic

/-!
# Zoom

The zoom of the picture is a function of clip time, written as an expression that the filters
evaluate for every frame. Expressions are built as trees; `Expr.text` writes them and `Expr.eval`
is their meaning on exact numbers.
-/

namespace Montage.Zoom

/-- An expression in the time `t`, in seconds. Brackets are part of the tree. -/
inductive Expr where
  | time
  /-- A number, written with six places. -/
  | number (value : Binary64)
  | bracket (inner : Expr)
  | add (left right : Expr)
  | sub (left right : Expr)
  | mul (left right : Expr)
  | div (left right : Expr)
  | min (left right : Expr)
  /-- `inside` when the time lies between two numbers, ends included, else `outside`. -/
  | within (startAt endAt : Binary64) (inside outside : Expr)
  deriving DecidableEq

namespace Expr

/-- A number as expressions write it. -/
def numberText (value : Binary64) : String := Decimal.fixed 6 value

/-- The exact value of a number as it is written. -/
def written (value : Binary64) : Rat := Rounding.nearestEven (value.toRat * 1000000) / 1000000

/-- The expression as it is written. -/
def text : Expr → String
  | time => "t"
  | number value => numberText value
  | bracket inner => s!"({inner.text})"
  | add left right => s!"{left.text}+{right.text}"
  | sub left right => s!"{left.text}-{right.text}"
  | mul left right => s!"{left.text}*{right.text}"
  | div left right => s!"{left.text}/{right.text}"
  | min left right => s!"min({left.text},{right.text})"
  | within startAt endAt inside outside =>
      s!"if(between(t,{numberText startAt},{numberText endAt}),{inside.text},{outside.text})"

/-- The value of the written expression at a time. -/
def eval (t : Rat) : Expr → Rat
  | time => t
  | number value => written value
  | bracket inner => inner.eval t
  | add left right => left.eval t + right.eval t
  | sub left right => left.eval t - right.eval t
  | mul left right => left.eval t * right.eval t
  | div left right => left.eval t / right.eval t
  | min left right => if left.eval t ≤ right.eval t then left.eval t else right.eval t
  | within startAt endAt inside outside =>
      if written startAt ≤ t ∧ t ≤ written endAt then inside.eval t else outside.eval t

end Expr

/-- Zooms closer than this count as equal. -/
def tolerance : Binary64 := 0.000001

/-- The shortest ramp, in seconds. -/
def leastRamp : Binary64 := 0.0001

/-- The shortest clip, in seconds. -/
def leastClip : Binary64 := 0.001

/-- The value of a ramp: even change from its first zoom over its length. -/
def rampExpr (r : ClipRamp) : Expr :=
  let start := r.window.startSeconds
  .add (.number r.zoomStart)
    (.div
      (.mul (.bracket (.number (r.zoomEnd - r.zoomStart))) (.bracket (.sub .time (.number start))))
      (.number ((r.window.endSeconds - start).maximum leastRamp)))

/-- The ramps in the order of their beginnings, each tried before the later ones; `rest` outside
all of them. -/
def rampsExpr (ramps : List ClipRamp) (rest : Binary64) : Expr :=
  (ramps.mergeSort fun a b => a.window.startMs ≤ b.window.startMs).foldr
    (fun r tail => .within r.window.startSeconds r.window.endSeconds (rampExpr r) tail)
    (.number rest)

/-- An even zoom from `base` over the whole clip, never above `cap`. -/
def creepExpr (base cap duration : Binary64) : Expr :=
  .min (.number cap)
    (.add (.number base)
      (.div (.mul (.number (cap - base)) .time) (.number (duration.maximum leastClip))))

/-- The zoom of a clip, if there is any. Ramps win over the automatic zoom, which wins over a
constant one. -/
def expr? (clip : Clip) (autoZoomMax : Binary64) : Option Expr :=
  let base := clip.restZoom
  let cap := autoZoomMax.maximum base
  if clip.ramps ≠ [] then some (rampsExpr clip.ramps base)
  else if clip.autoZoom && tolerance.lt (cap - base) then
    some (creepExpr base cap clip.durationSeconds)
  else if tolerance.lt (base - 1).abs then some (.number base)
  else none

/-- A side of the canvas, zoomed and cut to an even number. -/
def scaledSide (side : Nat) (zoom : String) : String := s!"trunc({side}*({zoom})/2)*2"

/-- The filters that zoom about the middle of a picture of the given size and keep that size. The
offsets follow from the zoom, since the crop knows only the size it was set up with. -/
def filters (zoom : String) (width height : Nat) : List Filter :=
  let w := scaledSide width zoom
  let h := scaledSide height zoom
  [⟨"scale", s!"w='{w}':h='{h}':eval=frame"⟩,
   ⟨"crop", s!"w={width}:h={height}:x='({w}-{width})/2':y='({h}-{height})/2'"⟩]

end Montage.Zoom
