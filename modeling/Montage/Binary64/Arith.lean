import Montage.Binary64.Basic

/-!
# Arithmetic and comparison of binary64 numbers

Sums, products and quotients are rounded once. A comparison with a value that is not a number is
false; the two zeros compare equal.
-/

namespace Montage.Binary64

/-- The rounded sum. Opposite infinities have none; an exact zero is negative only when both
terms are. -/
def add : Binary64 → Binary64 → Binary64
  | .undefined .., _ => nan
  | _, .undefined .. => nan
  | .infinite s, .infinite t => if s = t then .infinite s else nan
  | .infinite s, .finite .. => .infinite s
  | .finite .., .infinite t => .infinite t
  | x@(.finite ..), y@(.finite ..) => ofRatSigned (x.signBit && y.signBit) (x.toRat + y.toRat)

/-- The rounded difference. -/
def sub (x y : Binary64) : Binary64 := add x (neg y)

/-- The rounded product. An infinity times a zero has none. -/
def mul (x y : Binary64) : Binary64 :=
  let negative := x.signBit != y.signBit
  if x.isNaN || y.isNaN then nan
  else if x.isInfinite || y.isInfinite then
    if x.isZero || y.isZero then nan else .infinite negative
  else ofRatSigned negative (x.toRat * y.toRat)

/-- The rounded quotient. A number over a zero is an infinity; zero over zero and infinity over
infinity have none. -/
def div (x y : Binary64) : Binary64 :=
  let negative := x.signBit != y.signBit
  if x.isNaN || y.isNaN then nan
  else if x.isInfinite then if y.isInfinite then nan else .infinite negative
  else if y.isInfinite then zero negative
  else if y.isZero then if x.isZero then nan else .infinite negative
  else ofRatSigned negative (x.toRat / y.toRat)

instance : Add Binary64 := ⟨add⟩
instance : Sub Binary64 := ⟨sub⟩
instance : Mul Binary64 := ⟨mul⟩
instance : Div Binary64 := ⟨div⟩

/-- Where a value stands on the line that has the infinities as its ends, with what is not a
number beyond them: first which part, then the value in it. -/
def place : Binary64 → Int × Rat
  | .undefined true payload _ => (-2, -payload)
  | .infinite true => (-1, 0)
  | x@(.finite ..) => (0, x.toRat)
  | .infinite false => (1, 0)
  | .undefined false payload _ => (2, payload)

/-- Strictly below in the order of the extended line. -/
def lt (x y : Binary64) : Bool :=
  !x.isNaN && !y.isNaN &&
    (x.place.1 < y.place.1 || (x.place.1 = y.place.1 && x.place.2 < y.place.2))

/-- At most, in the order of the extended line. -/
def le (x y : Binary64) : Bool :=
  !x.isNaN && !y.isNaN &&
    (x.place.1 < y.place.1 || (x.place.1 = y.place.1 && x.place.2 ≤ y.place.2))

instance : LT Binary64 := ⟨fun x y => lt x y = true⟩
instance : LE Binary64 := ⟨fun x y => le x y = true⟩
instance (x y : Binary64) : Decidable (x < y) := inferInstanceAs (Decidable (lt x y = true))
instance (x y : Binary64) : Decidable (x ≤ y) := inferInstanceAs (Decidable (le x y = true))

/-- The greater of two numbers; the other one when one side is not a number. -/
def maximum (x y : Binary64) : Binary64 :=
  if x.isNaN then y else if y.isNaN then x else if x < y then y else x

/-- The lesser of two numbers; the other one when one side is not a number. -/
def minimum (x y : Binary64) : Binary64 :=
  if x.isNaN then y else if y.isNaN then x else if y < x then y else x

/-- The nearest number of `[low, high]`, and `none` when the bounds are not in order. What is not
a number stays so. -/
def clamp? (x low high : Binary64) : Option Binary64 :=
  if low ≤ high then
    some (if x < low then low else if high < x then high else x)
  else none

/-- The total order: what is not a number and has a sign, negative infinity, the negative numbers,
the negative zero, the positive zero, the positive numbers, infinity, and last what is not a number
and has no sign. -/
def totalLe (x y : Binary64) : Bool :=
  x.place.1 < y.place.1 ||
    (x.place.1 = y.place.1 &&
      (x.place.2 < y.place.2 ||
        (x.place.2 = y.place.2 && (x.signBit || !y.signBit || !x.isZero))))

/-- Strictly before in the total order. -/
def totalLt (x y : Binary64) : Bool := totalLe x y && !totalLe y x

/-!
## Binary64 numbers and integers

Rounding to an integral number, and conversion to a natural number that saturates at both ends.
-/

/-- The nearest integral number, halves away from zero. The sign is kept, also of a zero. -/
def round : Binary64 → Binary64
  | x@(.finite negative ..) => ofRatSigned negative (Rounding.nearestAway x.toRat)
  | x => x

/-- The integral part as a natural number of at most `top`: negative numbers and what is not a
number give zero, too great ones `top`. -/
def toNatUpTo (top : Nat) : Binary64 → Nat
  | x@(.finite ..) => min top x.toRat.floor.toNat
  | .infinite negative => if negative then 0 else top
  | .undefined .. => 0

/-- The greatest 32-bit natural number. -/
def top32 : Nat := 4294967295

/-- The greatest 64-bit natural number. -/
def top64 : Nat := 18446744073709551615

/-- The integral part, saturating at 32 bits. -/
def toNat32 (x : Binary64) : Nat := x.toNatUpTo top32

/-- The integral part, saturating at 64 bits. -/
def toNat64 (x : Binary64) : Nat := x.toNatUpTo top64

end Montage.Binary64
