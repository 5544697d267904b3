import Montage.Binary64.Basic

/-!
# Decimal notation

Numbers as texts of decimal digits, and the reading of a decimal as a binary64 number.
-/

namespace Montage.Decimal

/-! ## Digits

The text of `digits / 10 ^ places` with exactly that many places, and the reading of digits. -/

/-- The digits of `n` in base ten, at least `width` of them. -/
def padded (width n : Nat) : List Char := (Nat.toDigits 10 n).leftpad width '0'

/-- `digits / 10 ^ places`, written with exactly `places` digits after the point and at least one
before it; no point when there are no places. -/
def pointed (digits places : Nat) : List Char :=
  let written := padded (places + 1) digits
  let whole := written.take (written.length - places)
  if places = 0 then whole else whole ++ '.' :: written.drop (written.length - places)

/-- The number that a run of decimal digits denotes. -/
def ofDigits (digits : List Char) : Nat :=
  digits.foldl (fun n c => 10 * n + (c.toNat - '0'.toNat)) 0

/-- A decimal digit, of the ten ASCII ones. -/
def isDigit (c : Char) : Bool := '0' ≤ c && c ≤ '9'

/-- The natural number written by a text of one or more digits and nothing else. -/
def natOfText? (text : List Char) : Option Nat :=
  if text ≠ [] ∧ text.all isDigit then some (ofDigits text) else none

/-- The integer written by an optional sign and one or more digits. -/
def intOfText? : List Char → Option Int
  | '-' :: rest => (natOfText? rest).map fun n => -(n : Int)
  | '+' :: rest => (natOfText? rest).map fun n => (n : Int)
  | text => (natOfText? text).map fun n => (n : Int)

example : String.ofList (pointed 1234 3) = "1.234" ∧ String.ofList (pointed 5 2) = "0.05" ∧
    String.ofList (pointed 70 0) = "70" := by decide +kernel

/-! ## Binary64 numbers

The grammar is an optional sign, then a name of infinity or of the undefined value in any case, or
digits with at most one point and at least one digit, and an optional exponent. The number is
rounded once, to nearest. -/

/-- A sign in front, and what follows it. -/
def splitSign : List Char → Bool × List Char
  | '-' :: rest => (true, rest)
  | '+' :: rest => (false, rest)
  | text => (false, text)

/-- The parts of a decimal number, as texts. -/
structure Parts where
  whole : List Char
  fraction : List Char
  exponent : Int

/-- The exponent part: nothing, or `e` with an optionally signed run of digits. -/
def exponentOf? : List Char → Option Int
  | [] => some 0
  | c :: rest => if c = 'e' ∨ c = 'E' then intOfText? rest else none

/-- The parts of an unsigned decimal number. -/
def parts? (text : List Char) : Option Parts := do
  let whole := text.takeWhile isDigit
  let rest := text.dropWhile isDigit
  let (fraction, tail) := match rest with
    | '.' :: more => (more.takeWhile isDigit, more.dropWhile isDigit)
    | other => ([], other)
  if whole = [] ∧ fraction = [] then none
  else return { whole, fraction, exponent := ← exponentOf? tail }

/-- `digits · 10 ^ exp`, rounded to nearest. A decimal whose order of magnitude is outside what the
format can hold is decided without computing the power. -/
def nearest (negative : Bool) (digits : Nat) (exp : Int) : Binary64 :=
  let order : Int := (Nat.toDigits 10 digits).length + exp
  if digits = 0 ∨ order < -400 then .zero negative
  else if 400 < order then .infinite negative
  else
    let magnitude := Binary64.ofRat (digits * (10 : Rat) ^ exp)
    if negative then -magnitude else magnitude

/-- Equality of a text with a lower-case name, ASCII case aside. -/
def named (name : String) (text : List Char) : Bool := text.map Char.toLower == name.toList

/-- The number that a decimal text denotes. -/
def numberOfText? (text : List Char) : Option Binary64 :=
  let (negative, rest) := splitSign text
  if named "inf" rest || named "infinity" rest then some (.infinite negative)
  else if named "nan" rest then some (if negative then -.nan else .nan)
  else do
    let parts ← parts? rest
    let digits := ofDigits (parts.whole ++ parts.fraction)
    return nearest negative digits (parts.exponent - parts.fraction.length)

end Montage.Decimal
