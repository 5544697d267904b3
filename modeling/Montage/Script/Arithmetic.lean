import Montage.Decimal.Reader
import Montage.Script.Lexer
import Montage.Text.Utf8

/-!
# Arithmetic

The whole-number expressions of scripts, with the usual ranks of their operators. Numbers have 64
bits and wrap around; truth is one, and zero is not.
-/

namespace Montage.Script.Arithmetic

/-- A unit of an expression. -/
inductive Token where
  | number (n : Nat)
  | name (s : String)
  | operator (s : String)
  deriving DecidableEq, Repr

/-- The operators, longer ones first. -/
def operators : List String :=
  ["<<=", ">>=", "||", "&&", "==", "!=", "<=", ">=", "<<", ">>", "+=", "-=", "*=", "/=", "%=", "&=",
   "|=", "^=", "<", ">", "+", "-", "*", "/", "%", "(", ")", "!", "~", "&", "|", "^", "?", ":", "="]

/-- The greatest number. -/
def greatest : Nat := 9223372036854775807

/-- The value of a digit in bases up to sixteen. -/
def digitValue? (c : Char) : Option Nat :=
  if c.isDigit then some (c.toNat - '0'.toNat)
  else if 'a' ≤ c ∧ c ≤ 'f' then some (c.toNat - 'a'.toNat + 10)
  else if 'A' ≤ c ∧ c ≤ 'F' then some (c.toNat - 'A'.toNat + 10)
  else none

/-- The digits of a base at the beginning of a text. -/
def digitsOf (base : Nat) (text : List Char) : List Nat :=
  (text.map fun c => (digitValue? c).filter (· < base)).takeWhile Option.isSome |>.filterMap id

/-- The number that some digits of a base make. -/
def ofDigits (base : Nat) (digits : List Nat) : Nat :=
  min greatest (digits.foldl (fun n d => base * n + d) 0)

/-- The number at the beginning of a text, and what follows it. A zero in front makes it octal, with
an x after it hexadecimal. -/
def readNumber (text : List Char) : Nat × List Char :=
  let plain (base : Nat) (rest : List Char) : Nat × List Char :=
    let digits := digitsOf base rest
    (ofDigits base digits, rest.drop digits.length)
  match text with
  | '0' :: x :: rest =>
      if (x = 'x' ∨ x = 'X') ∧ digitsOf 16 rest ≠ [] then plain 16 rest else plain 8 text
  | text => plain 10 text

/-- The units of an expression; a character that is none of them counts as an operator. -/
def tokens : Nat → List Char → List Token
  | 0, _ => []
  | _, [] => []
  | fuel + 1, c :: rest =>
      let source := c :: rest
      if c = ' ' ∨ c = '\t' ∨ c = '\n' then tokens fuel rest
      else if c.isDigit then
        let (n, rest) := readNumber source
        .number n :: tokens fuel rest
      else if isNameChar c then
        let name := source.takeWhile isNameChar
        .name (String.ofList name) :: tokens fuel (source.drop name.length)
      else
        match operator? operators source with
        | some (op, rest) => .operator op :: tokens fuel rest
        | none => .operator c.toString :: tokens fuel rest

/-- An expression. -/
inductive Expr where
  | number (n : Int)
  | name (s : String)
  | unary (op : String) (e : Expr)
  | binary (op : String) (a b : Expr)
  | choice (condition a b : Expr)
  /-- Assigns a value, perhaps after an operation with the old one. -/
  | assign (name : String) (op : Option String) (e : Expr)
  deriving DecidableEq, Repr

/-- Why an expression has no value. -/
inductive Trouble where
  /-- The expression is not well formed, or divides by zero. -/
  | flaw (message : String)
  /-- The value of a variable is no number. -/
  | notNumber (text : String)
  deriving DecidableEq, Repr

/-- The binary operators of each rank, the weakest first. -/
def ranks : List (List String) :=
  [["||"], ["&&"], ["|"], ["^"], ["&"], ["==", "!="], ["<", ">", "<=", ">="], ["<<", ">>"],
   ["+", "-"], ["*", "/", "%"]]

/-- The operation of an assignment operator; none if the value is just replaced. -/
def assignment? (op : String) : Option (Option String) :=
  if op = "=" then some none
  else if ["==", "!=", "<=", ">="].contains op then none
  else
    match op.toList.reverse with
    | '=' :: start => some (some (String.ofList start.reverse))
    | _ => none

/-- What was read, and the units that follow it. -/
abbrev Reading := Except Trouble (Expr × List Token)

mutual

/-- An assignment or a choice. -/
def whole : Nat → List Token → Reading
  | 0, _ => .error (.flaw "expecting primary")
  | fuel + 1, ts => do
      match ts with
      | .name s :: .operator op :: rest =>
          match assignment? op with
          | some operation =>
              let (e, rest) ← whole fuel rest
              return (.assign s operation e, rest)
          | none => choice fuel ts
      | ts => choice fuel ts

/-- A choice between two values, or an operation. -/
def choice : Nat → List Token → Reading
  | 0, _ => .error (.flaw "expecting primary")
  | fuel + 1, ts => do
      let (c, rest) ← operation fuel ranks ts
      match rest with
      | .operator "?" :: rest =>
          let (a, rest) ← whole fuel rest
          match rest with
          | .operator ":" :: rest =>
              let (b, rest) ← choice fuel rest
              return (.choice c a b, rest)
          | _ => throw (.flaw "expecting ':'")
      | rest => return (c, rest)

/-- An operation whose operators have one of the given ranks. -/
def operation : Nat → List (List String) → List Token → Reading
  | 0, _, _ => .error (.flaw "expecting primary")
  | fuel + 1, [], ts => operand fuel ts
  | fuel + 1, rank :: higher, ts => do
      let (first, rest) ← operation fuel higher ts
      operationRest fuel rank higher first rest

/-- More operations of a rank. -/
def operationRest : Nat → List String → List (List String) → Expr → List Token → Reading
  | 0, _, _, _, _ => .error (.flaw "expecting primary")
  | fuel + 1, rank, higher, first, ts => do
      match ts with
      | .operator op :: rest =>
          if rank.contains op then
            let (second, rest) ← operation fuel higher rest
            operationRest fuel rank higher (.binary op first second) rest
          else return (first, ts)
      | ts => return (first, ts)

/-- An operand. -/
def operand : Nat → List Token → Reading
  | 0, _ => .error (.flaw "expecting primary")
  | fuel + 1, ts => do
      match ts with
      | .number n :: rest => return (.number n, rest)
      | .name s :: rest => return (.name s, rest)
      | .operator "(" :: rest =>
          let (e, rest) ← whole fuel rest
          match rest with
          | .operator ")" :: rest => return (e, rest)
          | _ => throw (.flaw "expecting ')'")
      | .operator op :: rest =>
          if ["-", "+", "!", "~"].contains op then
            let (e, rest) ← operand fuel rest
            return (.unary op e, rest)
          else throw (.flaw "expecting primary")
      | [] => throw (.flaw "expecting primary")

end

/-- The expression that a text spells. -/
def read (source : List Char) : Except Trouble Expr := do
  let ts := tokens (source.length + 1) source
  match ← whole (14 * ts.length + 14) ts with
  | (e, []) => return e
  | _ => throw (.flaw "expecting EOF")

/-- A number in 64 bits. -/
def wrap (n : Int) : Int := n.bmod 18446744073709551616

/-- The bits of a number. -/
def bits (n : Int) : Nat := (n % 18446744073709551616).toNat

/-- A truth as a number. -/
def ofBool (b : Bool) : Int := if b then 1 else 0

/-- The value of an operation. -/
def combine (op : String) (a b : Int) : Except Trouble Int :=
  match op with
  | "==" => .ok (ofBool (a == b))
  | "!=" => .ok (ofBool (a != b))
  | "<" => .ok (ofBool (a < b))
  | ">" => .ok (ofBool (b < a))
  | "<=" => .ok (ofBool (a ≤ b))
  | ">=" => .ok (ofBool (b ≤ a))
  | "+" => .ok (wrap (a + b))
  | "-" => .ok (wrap (a - b))
  | "*" => .ok (wrap (a * b))
  | "/" => if b = 0 then .error (.flaw "division by zero") else .ok (wrap (a.tdiv b))
  | "%" => if b = 0 then .error (.flaw "division by zero") else .ok (wrap (a.tmod b))
  | "&" => .ok (wrap (bits a &&& bits b))
  | "|" => .ok (wrap (bits a ||| bits b))
  | "^" => .ok (wrap (bits a ^^^ bits b))
  | "<<" => .ok (wrap (bits a <<< (bits b % 64)))
  | ">>" => .ok (a >>> (bits b % 64))
  | _ => .error (.flaw "expecting primary")

/-- The values that variables got. -/
abbrev Assigned := List (String × Int)

/-- The number that the text of a variable spells; no text is zero. -/
def numberOf (text : String) : Except Trouble Int :=
  match Text.trimBytes text.toList with
  | [] => .ok 0
  | '-' :: digits => (positive digits).map fun n => -n
  | '+' :: digits | digits => positive digits
where
  /-- The number without a sign. -/
  positive (digits : List Char) : Except Trouble Int :=
    match tokens (digits.length + 1) digits with
    | [.number n] => .ok n
    | _ => .error (.notNumber text)

/-- The value of an expression, with the values that it assigns. What decides nothing any more is
not evaluated. -/
def value (lookup : String → String) : Expr → Assigned → Except Trouble (Int × Assigned)
  | .number n, vars => .ok (n, vars)
  | .name s, vars => do
      match vars.lookup s with
      | some n => return (n, vars)
      | none => return (← numberOf (lookup s), vars)
  | .unary op e, vars => do
      let (n, vars) ← value lookup e vars
      match op with
      | "-" => return (wrap (-n), vars)
      | "!" => return (ofBool (n == 0), vars)
      | "~" => return (-n - 1, vars)
      | _ => return (n, vars)
  | .binary op a b, vars => do
      let (m, vars) ← value lookup a vars
      if op = "&&" ∧ m = 0 then return (0, vars)
      if op = "||" ∧ m ≠ 0 then return (1, vars)
      let (n, vars) ← value lookup b vars
      if op = "&&" ∨ op = "||" then return (ofBool (n != 0), vars)
      return (← combine op m n, vars)
  | .choice c a b, vars => do
      let (n, vars) ← value lookup c vars
      if n ≠ 0 then value lookup a vars else value lookup b vars
  | .assign s op e, vars => do
      let (n, vars) ← value lookup e vars
      let n ←
        match op with
        | none => pure n
        | some op =>
            match vars.lookup s with
            | some old => combine op old n
            | none => combine op (← numberOf (lookup s)) n
      return (n, (s, n) :: vars)

/-- The value of what a text spells, with the values that it assigns. -/
def eval (lookup : String → String) (source : List Char) : Except Trouble (Int × Assigned) := do
  value lookup (← read source) []

example : (eval (fun _ => "5") "(i + 1) * 2 - 7 / 2".toList).toOption.map Prod.fst = some 9 := by
  decide +kernel

end Montage.Script.Arithmetic
