import Montage.Script.Effect
import Montage.Script.Expression

/-!
# The calculator

The tool that works out an expression whose operators and operands are its arguments.
-/

namespace Montage.Script.Calculator

/-- The number that a text spells. -/
def number? (text : String) : Option Int := Decimal.intOfText? text.toList

/-- Whether a value counts as nothing. -/
def isNull (value : String) : Bool := value = "" || number? value = some 0

/-- The operators by their ranks, the weakest ones first. -/
def operators : List (List String) :=
  [["|"], ["&"], ["<", "<=", "=", "==", "!=", ">=", ">"], ["+", "-"], ["*", "/", "%"], [":"]]

/-- The order of two values, as numbers if both are. -/
def order (a b : String) : Ordering :=
  match number? a, number? b with
  | some m, some n => compare m n
  | _, _ => compare a b

/-- What an expression matches at the beginning of a text: its first group, or else the number of
characters. -/
def found (value pattern : String) : String :=
  let e := Expression.ofText false pattern.toList
  match e.matchAt? false value.toList value.toList with
  | some (rest, groups) =>
      if e.hasGroups then String.ofList ((groups.lookup 1).getD [])
      else toString (value.length - rest.length)
  | none => if e.hasGroups then "" else "0"

/-- The value of an operator. -/
def operate (operator a b : String) : Except String String := do
  let truth (holds : Bool) : String := if holds then "1" else "0"
  let whole (text : String) : Except String Int :=
    match number? text with
    | some n => .ok n
    | none => .error "non-integer argument"
  match operator with
  | "|" => return if !isNull a then a else if isNull b then "0" else b
  | "&" => return if isNull a || isNull b then "0" else a
  | "<" => return truth (order a b == .lt)
  | "<=" => return truth (order a b != .gt)
  | "=" | "==" => return truth (order a b == .eq)
  | "!=" => return truth (order a b != .eq)
  | ">=" => return truth (order a b != .lt)
  | ">" => return truth (order a b == .gt)
  | ":" => return found a b
  | operator =>
      let m ← whole a
      let n ← whole b
      match operator with
      | "+" => return toString (m + n)
      | "-" => return toString (m - n)
      | "*" => return toString (m * n)
      | operator =>
          if n = 0 then throw "division by zero"
          return toString (if operator = "/" then m.tdiv n else m.tmod n)

/-- A value and the arguments after it, or a complaint. -/
abbrev Reading := Except String (String × List String)

mutual

/-- An expression of operators from some rank on; `last` is the last of all arguments. -/
def ranked (last : String) : Nat → List (List String) → List String → Reading
  | 0, _, _ => .error "syntax error"
  | fuel + 1, [], args => operand last fuel args
  | fuel + 1, rank :: ranks, args => do
      let (value, args) ← ranked last fuel ranks args
      chain last fuel rank ranks value args

/-- The operators of a rank that follow a value. -/
def chain (last : String) :
    Nat → List String → List (List String) → String → List String → Reading
  | 0, _, _, _, _ => .error "syntax error"
  | fuel + 1, rank, ranks, value, operator :: rest =>
      if rank.contains operator then do
        let (other, args) ← ranked last fuel ranks rest
        chain last fuel rank ranks (← operate operator value other) args
      else .ok (value, operator :: rest)
  | _, _, _, value, [] => .ok (value, [])

/-- An operand, or an expression in parentheses. -/
def operand (last : String) : Nat → List String → Reading
  | 0, _ => .error "syntax error"
  | fuel + 1, args => do
      match args with
      | [] => throw s!"syntax error: missing argument after '{last}'"
      | "length" :: arg :: rest => return (toString arg.length, rest)
      | "(" :: rest =>
          let (value, rest) ← ranked last fuel operators rest
          match rest with
          | ")" :: rest => return (value, rest)
          | [] => throw s!"syntax error: expecting ')' after '{last}'"
          | arg :: _ => throw s!"syntax error: expecting ')' instead of '{arg}'"
      | ")" :: _ => throw "syntax error: unexpected ')'"
      | arg :: rest => return (arg, rest)

end

/-- The value of an expression. -/
def evaluate (args : List String) : Except String String := do
  let fuel := 9 * (args.length + 2)
  match ← ranked (args.getLast?.getD "") fuel operators args with
  | (value, []) => return value
  | (_, arg :: _) => throw s!"syntax error: unexpected argument '{arg}'"

example : (evaluate ["2", "+", "3", "*", "4"]).toOption = some "14" ∧
    (evaluate ["1", "+"]).toOption = none := by decide +kernel

end Montage.Script.Calculator

namespace Montage.Script

/-- Works out an expression. The status tells whether it is worth nothing. -/
def Tool.expr : Tool := fun c =>
  if c.arguments = [] then misusing c 2 "missing operand"
  else
    match Calculator.evaluate c.arguments with
    | .error complaint => failing c 2 complaint
    | .ok value =>
        { saying c s!"{value}\n" with status := if Calculator.isNull value then 1 else 0 }

end Montage.Script
