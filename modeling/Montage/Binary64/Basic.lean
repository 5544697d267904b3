/-!
# Binary64 numbers

A number of the binary64 format is an exact rational `± mant · 2 ^ exp`, an infinity, or not a
number. Every operation on finite numbers is the exact rational operation followed by one
rounding to nearest, ties to even (`ofRat`).
-/

/-! ## Rounding of rationals to integers

The two rules for a value halfway between two integers that the program uses: to the even
neighbour, and away from zero. -/

namespace Montage.Rounding

/-- The integer nearest to `q`; of two equally near ones the even one. -/
def nearestEven (q : Rat) : Int :=
  let low := q.floor
  let rest := q - low
  if rest < 1 / 2 then low
  else if 1 / 2 < rest then low + 1
  else if low % 2 = 0 then low
  else low + 1

/-- The integer nearest to `q`; of two equally near ones the one farther from zero. -/
def nearestAway (q : Rat) : Int :=
  if 0 ≤ q then (q + 1 / 2).floor else -(-q + 1 / 2).floor

/-- The greatest `k` with `2 ^ k ≤ q`, for positive `q`. -/
def log2 (q : Rat) : Int :=
  let k : Int := (q.num.toNat.log2 : Int) - (q.den.log2 : Int)
  if (2 : Rat) ^ k ≤ q then k else k - 1

example : nearestEven (5 / 2) = 2 ∧ nearestEven (7 / 2) = 4 ∧ nearestEven (-1 / 2) = 0 := by
  decide +kernel

example : nearestAway (5 / 2) = 3 ∧ nearestAway (-5 / 2) = -3 ∧ nearestAway (9 / 4) = 2 := by
  decide +kernel

end Montage.Rounding

/-! ## Numbers of the format -/

namespace Montage

/-- The least significand of 53 bits, `2 ^ 52`. -/
abbrev Binary64.leastNormal : Nat := 0x10000000000000

/-- The least number of more than 53 bits, `2 ^ 53`. -/
abbrev Binary64.mantBound : Nat := 0x20000000000000

/-- A significand of at most 53 bits and an exponent in range; the significand has all 53 bits
unless the exponent is the least one. So each value and sign has one form. -/
def Binary64.Canonical (mant : Nat) (exp : Int) : Prop :=
  mant < mantBound ∧ -1074 ≤ exp ∧ exp ≤ 971 ∧ (leastNormal ≤ mant ∨ exp = -1074)

instance (mant : Nat) (exp : Int) : Decidable (Binary64.Canonical mant exp) := by
  unfold Binary64.Canonical; infer_instance

/-- The fractions of the values that are not numbers. -/
def Binary64.IsPayload (fraction : Nat) : Prop := 0 < fraction ∧ fraction < leastNormal

instance (fraction : Nat) : Decidable (Binary64.IsPayload fraction) := by
  unfold Binary64.IsPayload; infer_instance

/-- A binary64 number. A value that is not a number has a sign and a payload as well, which only
the total order looks at. -/
inductive Binary64 where
  | finite (negative : Bool) (mant : Nat) (exp : Int)
      (canonical : Binary64.Canonical mant exp)
  | infinite (negative : Bool)
  | undefined (negative : Bool) (payload : Nat) (valid : Binary64.IsPayload payload)
  deriving DecidableEq

namespace Binary64

/-- The zero of the given sign. -/
def zero (negative : Bool) : Binary64 := .finite negative 0 (-1074) (by decide)

instance : Inhabited Binary64 := ⟨zero false⟩

/-- What an operation without a result gives. Which of the values that are not numbers it is, is
nowhere laid down; this is the quiet one without sign. -/
def nan : Binary64 := .undefined false 0x8000000000000 (by decide)

/-- The number with the given parts, or the infinity of that sign when they do not fit. -/
def ofParts (negative : Bool) (mant : Nat) (exp : Int) : Binary64 :=
  if h : Canonical mant exp then .finite negative mant exp h else .infinite negative

/-- The number nearest to `q`, ties to the even significand; a magnitude beyond the largest
number gives an infinity. A `q` of zero takes the sign `zeroSign`. -/
def ofRatSigned (zeroSign : Bool) (q : Rat) : Binary64 :=
  if q = 0 then zero zeroSign
  else
    let exp : Int := max (-1074) (Rounding.log2 q.abs - 52)
    let mant := (Rounding.nearestEven (q.abs / (2 : Rat) ^ exp)).toNat
    if mant = mantBound then ofParts (q < 0) leastNormal (exp + 1)
    else ofParts (q < 0) mant exp

/-- The number nearest to `q`; zero is positive. -/
def ofRat (q : Rat) : Binary64 := ofRatSigned false q

/-- The number nearest to a natural number. -/
def ofNat (n : Nat) : Binary64 := ofRat n

instance (n : Nat) : OfNat Binary64 n := ⟨ofNat n⟩

instance : OfScientific Binary64 := ⟨fun mant sign exp => ofRat (Rat.ofScientific mant sign exp)⟩

/-- The exact value of a finite number; zero for the others. -/
def toRat : Binary64 → Rat
  | .finite negative mant exp _ =>
      let magnitude := (mant : Rat) * (2 : Rat) ^ exp
      if negative then -magnitude else magnitude
  | .infinite _ => 0
  | .undefined .. => 0

/-- Whether the number is neither infinite nor undefined. -/
def isFinite : Binary64 → Bool
  | .finite .. => true
  | _ => false

/-- Whether the number is infinite, of either sign. -/
def isInfinite : Binary64 → Bool
  | .infinite _ => true
  | _ => false

/-- Whether this is a value that is not a number. -/
def isNaN : Binary64 → Bool
  | .undefined .. => true
  | _ => false

/-- The sign bit: set for negative numbers and the negative zero, among others. -/
def signBit : Binary64 → Bool
  | .finite negative .. => negative
  | .infinite negative => negative
  | .undefined negative .. => negative

/-- The number with the other sign. -/
def neg : Binary64 → Binary64
  | .finite negative mant exp h => .finite (!negative) mant exp h
  | .infinite negative => .infinite (!negative)
  | .undefined negative payload h => .undefined (!negative) payload h

instance : Neg Binary64 := ⟨neg⟩

/-- The number without its sign. -/
def abs : Binary64 → Binary64
  | .finite _ mant exp h => .finite false mant exp h
  | .infinite _ => .infinite false
  | .undefined _ payload h => .undefined false payload h

/-- Whether the value is a zero, of either sign. -/
def isZero : Binary64 → Bool
  | .finite _ mant _ _ => mant = 0
  | _ => false

end Binary64

end Montage
