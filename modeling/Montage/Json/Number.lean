import Montage.Binary64.Arith
import Montage.Decimal.Reader
import Montage.Decimal.Shortest
import Montage.Json.Basic

/-!
# Numbers of a data text

A number is a whole part without leading zeros, an optional fraction and an optional exponent. A
number without the latter two that fits 64 bits is an integer; every other one is a binary64
number. That one is found from the first digits that fit 64 bits, scaled by powers of ten in the
format's own arithmetic, so that a long number may miss the nearest value by a unit in the last
place; one beyond the greatest value is refused.
-/

namespace Montage.Json

/-- The parts of a number as written. `fraction` and `exponent` hold at least one digit. -/
structure NumberParts where
  negative : Bool
  whole : List Char
  fraction : Option (List Char)
  exponent : Option (Bool × List Char)

open Decimal (isDigit ofDigits) in
/-- The parts of a well-formed number. -/
def NumberParts.ofText? (text : List Char) : Option NumberParts := do
  let (negative, rest) := match text with
    | '-' :: rest => (true, rest)
    | other => (false, other)
  let whole := rest.takeWhile isDigit
  let rest := rest.dropWhile isDigit
  if whole = [] ∨ (whole.head? = some '0' ∧ whole.length ≠ 1) then none
  else
    let (fraction, rest) ← match rest with
      | '.' :: more =>
          let digits := more.takeWhile isDigit
          if digits = [] then none else some (some digits, more.dropWhile isDigit)
      | other => some (none, other)
    match rest with
    | [] => some ⟨negative, whole, fraction, none⟩
    | c :: more =>
        if c = 'e' ∨ c = 'E' then
          let (down, digits) := match more with
            | '-' :: digits => (true, digits)
            | '+' :: digits => (false, digits)
            | digits => (false, digits)
          if digits ≠ [] ∧ digits.all isDigit then
            some ⟨negative, whole, fraction, some (down, digits)⟩
          else none
        else none

/-- The greatest significand that is accumulated. -/
def topSignificand : Nat := 18446744073709551615

/-- The digits of the whole part: the number of those that fit, and how many were left out. -/
def wholeDigits (digits : List Char) : Nat × Nat :=
  digits.foldl (fun (value, left) c =>
    let more := 10 * value + (c.toNat - '0'.toNat)
    if left = 0 ∧ more ≤ topSignificand then (more, 0) else (value, left + 1)) (0, 0)

/-- The digits of the fraction added to `value` as long as they fit, and how many were added. -/
def fractionDigits (value : Nat) : List Char → Nat × Nat
  | [] => (value, 0)
  | c :: rest =>
      let more := 10 * value + (c.toNat - '0'.toNat)
      if more ≤ topSignificand then
        let (total, count) := fractionDigits more rest
        (total, count + 1)
      else (value, 0)

/-- The greatest power of ten of the format. -/
def topPower : Nat := 308

/-- `x` divided by `10 ^ n` in steps of at most the greatest power. -/
def scaleDown (x : Binary64) (n : Nat) : Binary64 :=
  if n ≤ topPower then x / Binary64.ofRat ((10 : Rat) ^ n)
  else if x.isZero then x
  else scaleDown (x / Binary64.ofRat ((10 : Rat) ^ topPower)) (n - topPower)
termination_by n
decreasing_by simp only [topPower] at *; omega

/-- `x` multiplied by `10 ^ n`; `none` beyond the greatest value. -/
def scaleUp? (x : Binary64) (n : Nat) : Option Binary64 :=
  if n ≤ topPower then
    let y := x * Binary64.ofRat ((10 : Rat) ^ n)
    if y.isInfinite then none else some y
  else if x.isZero then some x
  else none

/-- The greatest exponent digits that are accumulated. -/
def topExponent : Nat := 2147483647

/-- The binary64 number of a decimal; `none` when it is out of range. -/
def NumberParts.toBinary64? (p : NumberParts) : Option Binary64 := do
  let (whole, left) := wholeDigits p.whole
  let (significand, added) := fractionDigits whole (p.fraction.getD [])
  let base : Int := left - added
  let sign (x : Binary64) : Binary64 := if p.negative then -x else x
  let scaled (exp : Int) : Option Binary64 :=
    if 0 ≤ exp then scaleUp? (.ofNat significand) exp.toNat
    else some (scaleDown (.ofNat significand) (-exp).toNat)
  match p.exponent with
  | none => (scaled base).map sign
  | some (down, digits) =>
      let n := Decimal.ofDigits digits
      if topExponent < n then
        if significand = 0 ∨ down then some (.zero p.negative) else none
      else (scaled (if down then base - n else base + n)).map sign

/-- A number as typed data sees it. -/
inductive Quantity where
  | natural (n : Nat)
  | negative (n : Nat)
  | real (x : Binary64)
  deriving DecidableEq

/-- The greatest magnitude of a negative integer. -/
def topNegative : Nat := 9223372036854775808

/-- The quantity that a well-formed number denotes. A negative zero is no integer. -/
def quantity? (text : List Char) : Option Quantity := do
  let p ← NumberParts.ofText? text
  let n := Decimal.ofDigits p.whole
  if p.fraction = none ∧ p.exponent = none ∧ (if p.negative then 0 < n ∧ n ≤ topNegative else
      n ≤ topSignificand) then
    some (if p.negative then .negative n else .natural n)
  else p.toBinary64?.map .real

/-- A natural number value. -/
def ofNat (n : Nat) : Json := .number (Nat.toDigits 10 n)

/-- A binary64 value; what is no finite number becomes null. -/
def ofBinary64 (x : Binary64) : Json :=
  match Decimal.data? x with
  | some text => .number text.toList
  | none => .null

end Montage.Json
