import Montage.Binary64.Basic
import Montage.Decimal.Reader

/-!
# Fixed-place decimal text

A binary64 number with a given count of places: the exact value rounded once, a half going to the
even last digit. The sign is kept also when all digits are zero.
-/

namespace Montage.Decimal

/-- The text of `x` with `places` digits after the point. -/
def fixedChars (places : Nat) (x : Binary64) : List Char :=
  match x with
  | .undefined .. => ['N', 'a', 'N']
  | .infinite negative => (if negative then ['-'] else []) ++ ['i', 'n', 'f']
  | .finite negative .. =>
      let scaled := Rounding.nearestEven (x.toRat.abs * (10 : Rat) ^ places)
      (if negative then ['-'] else []) ++ pointed scaled.toNat places

/-- The text of `x` with `places` digits after the point. -/
def fixed (places : Nat) (x : Binary64) : String := String.ofList (fixedChars places x)

example : fixed 1 0.05 = "0.1" ∧ fixed 1 0.25 = "0.2" ∧ fixed 3 (-1.5) = "-1.500" := by
  decide +kernel

/-!
## Decimal text with an exponent

A binary64 number with a given count of significant digits: the exact value rounded once, a half
going to the even last digit.
-/

/-- A power of ten. -/
def powerOfTen (e : Int) : Rat :=
  if e < 0 then 1 / (10 : Rat) ^ e.natAbs else (10 : Rat) ^ e.natAbs

/-- The exponent of the first digit of a positive number. -/
def leadingExponent (q : Rat) : Int :=
  let size (n : Nat) : Int := (Nat.toDigits 10 n).length
  let e := size q.num.natAbs - size q.den
  if q < powerOfTen e then e - 1 else e

/-- The first digits of a positive number, `places` of them after the first one, and the exponent of
the first one. -/
def significant (places : Nat) (q : Rat) : Nat × Int :=
  let e := leadingExponent q
  let digits := (Rounding.nearestEven (q * powerOfTen (places - e))).toNat
  if (Nat.toDigits 10 digits).length = places + 1 then (digits, e) else (digits / 10, e + 1)

/-- The digits of the magnitude of a finite number and the exponent of the first one; zero has the
exponent zero. -/
def digitsOf (places : Nat) (x : Binary64) : Nat × Int :=
  if x.toRat = 0 then (0, 0) else significant places x.toRat.abs

/-- Digits, of which `places` follow the point, and an exponent of at least two digits. -/
def withExponent (places : Nat) (digits : Nat) (e : Int) : List Char :=
  pointed digits places ++ 'e' :: (if e < 0 then '-' else '+') :: padded 2 e.natAbs

/-- The text of `x` with `places` digits after the point and an exponent. -/
def scientificChars (places : Nat) (x : Binary64) : List Char :=
  match x with
  | .finite negative .. =>
      let (digits, e) := digitsOf places x
      (if negative then ['-'] else []) ++ withExponent places digits e
  | x => fixedChars 0 x

/-- A text without zeros at the end of its fraction. -/
def withoutZeros (text : List Char) : List Char :=
  if text.contains '.' then
    ((text.reverse.dropWhile (· = '0')).dropWhile (· = '.')).reverse
  else text

/-- The text of `x` with `count` significant digits, but without zeros at the end of its fraction.
There is an exponent if it is less than -4 or not less than the count. -/
def generalChars (count : Nat) (x : Binary64) : List Char :=
  match x with
  | .finite negative .. =>
      let count := max count 1
      let (digits, e) := digitsOf (count - 1) x
      (if negative then ['-'] else []) ++
        if e < -4 ∨ count ≤ e then
          let text := withExponent (count - 1) digits e
          let mantissa := text.takeWhile (· ≠ 'e')
          withoutZeros mantissa ++ text.drop mantissa.length
        else
          let places := (count - 1 - e).toNat
          withoutZeros (pointed digits places)
  | x => fixedChars 0 x

example : scientificChars 2 0.05 = "5.00e-02".toList ∧ scientificChars 1 9.96 = "1.0e+01".toList ∧
    generalChars 6 100000 = "100000".toList ∧ generalChars 6 1e-5 = "1e-05".toList ∧
    generalChars 3 0.0125 = "0.0125".toList := by
  decide +kernel

end Montage.Decimal
