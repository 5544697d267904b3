import Montage.Binary64.Basic
import Montage.Decimal.Reader

/-!
# Shortest decimal text

The fewest significant digits that read back as the same binary64 number, and of the decimals with
that many digits the one nearest to the number. The plain text never has an exponent; the
data-format text has one outside a middle range and marks whole numbers with `.0`.
-/

namespace Montage.Decimal

/-- A decimal `digits · 10 ^ exp`. -/
structure Scaled where
  digits : Nat
  exp : Int
  deriving DecidableEq, Repr

/-- The greatest `k` with `10 ^ k ≤ q`, for positive `q`. The binary logarithm fixes it up to one
either way. -/
def log10 (q : Rat) : Int :=
  let guess : Int := Rounding.log2 q * 30103 / 100000
  if (10 : Rat) ^ (guess + 1) ≤ q then guess + 1
  else if (10 : Rat) ^ guess ≤ q then guess
  else guess - 1

/-- The reals that round to one positive binary64 number: an interval, with its ends when the
significand is even. -/
structure Basin where
  low : Rat
  high : Rat
  closed : Bool

/-- Whether a value rounds to the number of the basin. -/
def Basin.holds (b : Basin) (q : Rat) : Bool :=
  if b.closed then b.low ≤ q && q ≤ b.high else b.low < q && q < b.high

/-- The basin of `mant · 2 ^ exp`. Below a power of two the numbers lie twice as dense. -/
def basin (mant : Nat) (exp : Int) : Basin :=
  let unit := (2 : Rat) ^ exp
  let value := mant * unit
  let below := if mant = Binary64.leastNormal ∧ exp ≠ -1074 then unit / 4 else unit / 2
  { low := value - below, high := value + unit / 2, closed := mant % 2 = 0 }

/-- The decimal of the basin nearest to `value` on the grid of multiples of `10 ^ exp`, if one of
the two grid points around `value` lies in the basin. A tie goes up. -/
def onGrid? (b : Basin) (value : Rat) (exp : Int) : Option Scaled :=
  let step := (10 : Rat) ^ exp
  let low := (value / step).floor.toNat
  let lowHit := b.holds (low * step)
  let highHit := b.holds ((low + 1 : Nat) * step)
  if lowHit && (!highHit || value - low * step < (low + 1 : Nat) * step - value) then
    some ⟨low, exp⟩
  else if highHit then some ⟨low + 1, exp⟩
  else none

/-- The first grid with a hit, coarser ones first; seventeen digits always suffice. -/
def firstHit (b : Basin) (value : Rat) (top : Int) : Nat → Scaled
  | 0 => ⟨(value / (10 : Rat) ^ (top - 16)).floor.toNat, top - 16⟩
  | left + 1 =>
      match onGrid? b value (top - (16 - left : Nat)) with
      | some hit => hit
      | none => firstHit b value top left

/-- `d` without its trailing zeros, each moved into the exponent. -/
def Scaled.stripped (d : Scaled) : Scaled :=
  go d.digits d.exp (Nat.toDigits 10 d.digits).length
where
  go (digits : Nat) (exp : Int) : Nat → Scaled
    | 0 => ⟨digits, exp⟩
    | n + 1 => if digits ≠ 0 ∧ digits % 10 = 0 then go (digits / 10) (exp + 1) n else ⟨digits, exp⟩

/-- The shortest decimal that reads back as the positive number `mant · 2 ^ exp`. -/
def shortestOf (mant : Nat) (exp : Int) : Scaled :=
  let value := (mant : Rat) * (2 : Rat) ^ exp
  (firstHit (basin mant exp) value (log10 value) 17).stripped

/-- A decimal without exponent. -/
def Scaled.positional (d : Scaled) : List Char :=
  if 0 ≤ d.exp then pointed (d.digits * Nat.pow 10 d.exp.toNat) 0
  else pointed d.digits (-d.exp).toNat

/-- The plain text of a number: shortest, without exponent, whole numbers without a point. -/
def plainChars : Binary64 → List Char
  | .undefined .. => ['N', 'a', 'N']
  | .infinite negative => (if negative then ['-'] else []) ++ ['i', 'n', 'f']
  | .finite negative mant exp _ =>
      (if negative then ['-'] else []) ++
        (if mant = 0 then ['0'] else (shortestOf mant exp).positional)

/-- The plain text of a number: shortest, without exponent, whole numbers without a point. -/
def plain (x : Binary64) : String := String.ofList (plainChars x)

/-- The least decimal point position, counted from the first digit, with positional notation in
data text; below it an exponent is written. -/
def leastPoint : Int := -5

/-- The greatest such position. -/
def greatestPoint : Int := 16

/-- A positive decimal in data text: positional with a `.0` for whole numbers when the point falls
near the digits, else one digit, the other digits as places, and an exponent. -/
def Scaled.data (d : Scaled) : List Char :=
  let written := Nat.toDigits 10 d.digits
  let point : Int := written.length + d.exp
  if leastPoint < point ∧ point ≤ greatestPoint then
    if 0 ≤ d.exp then d.positional ++ ['.', '0'] else d.positional
  else
    let exponent := 'e' :: (toString (point - 1)).toList
    match written with
    | [] => exponent
    | [only] => only :: exponent
    | first :: rest => first :: '.' :: rest ++ exponent

/-- The text of a number in a data file; what is no finite number has none. -/
def data? : Binary64 → Option String
  | .finite negative mant exp _ =>
      some (String.ofList ((if negative then ['-'] else []) ++
        (if mant = 0 then ['0', '.', '0'] else (shortestOf mant exp).data)))
  | _ => none

end Montage.Decimal
