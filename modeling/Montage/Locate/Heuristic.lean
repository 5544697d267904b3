import Montage.Edit.Subject

/-!
# The brightness heuristic

The picture is split into columns of equal width. A column whose brightness varies much is likely
to hold a subject.
-/

namespace Montage

/-- A grey picture: its size and the brightness at each column and row. -/
structure Picture where
  width : Nat
  height : Nat
  luma : Nat → Nat → UInt8

namespace Heuristic

/-- The number of columns that a picture is split into. -/
def columnCount : Nat := 3

/-- The distance of the pixels that are looked at, along both axes. -/
def sampleStride : Nat := 4

/-- A picture whose variances sum up to less is blank. -/
def leastTotal : Binary64 := 0.001

/-- Every `stride`-th number below `size`. -/
def sampled (size stride : Nat) : List Nat :=
  (List.range ((size + stride - 1) / stride)).map (· * stride)

/-- The column that a pixel at `x` belongs to. -/
def columnOf (width columns x : Nat) : Nat := min (x * columns / max width 1) (columns - 1)

/-- The brightness of the sampled pixels of a column, row by row. -/
def samples (p : Picture) (columns stride column : Nat) : List Nat :=
  (sampled p.height stride).flatMap fun y =>
    ((sampled p.width stride).filter fun x => columnOf p.width columns x = column).map fun x =>
      (p.luma x y).toNat

/-- The sum of some numbers, added one after the other. -/
def total (numbers : List Binary64) : Binary64 := numbers.foldl (· + ·) 0

/-- The variance of some brightness values; zero for none. -/
def variance (values : List Nat) : Binary64 :=
  if values = [] then 0
  else
    let n := Binary64.ofNat values.length
    let mean := total (values.map .ofNat) / n
    let meanSquare := total (values.map fun v => .ofNat v * .ofNat v) / n
    (meanSquare - mean * mean).maximum 0

/-- The variance of each column. -/
def columnVariances (p : Picture) (columns stride : Nat) : List Binary64 :=
  let columns := max columns 1
  let stride := max stride 1
  (List.range columns).map fun c => variance (samples p columns stride c)

/-- The variance of each column, if there can be so many columns. -/
def columnVariances? (p : Picture) (columns stride : Nat) : Option (List Binary64) :=
  Limits.guardList columns 8 fun _ => columnVariances p columns stride

/-- The `count` columns of greatest variance, from left to right; of equal ones the left one
first. -/
def pickColumns (variances : List Binary64) (count : Nat) : List Nat :=
  let ranked := variances.zipIdx.mergeSort fun a b => b.1.totalLe a.1
  ((ranked.take count).map Prod.snd).mergeSort fun a b => a ≤ b

/-- Regions at the busiest columns of a picture; none for a blank one. -/
def regions? (p : Picture) (sourceWidth sourceHeight count : Nat) : Option (List Region) :=
  let variances := columnVariances p columnCount sampleStride
  let sum := total variances
  if sum < leastTotal then none
  else
    let columnWidth := .ofNat sourceWidth / .ofNat columnCount
    some ((pickColumns variances count).map fun c =>
      { centerX := columnWidth * (.ofNat c + 0.5)
        centerY := .ofNat sourceHeight / 2
        confidence := variances[c]?.getD 0 / sum
        method := .heuristic })

end Heuristic

end Montage
