import Montage.Script.Effect
import Montage.Text.Utf8

/-!
# Conditions

The tool that tests files, texts and numbers. A condition is read from left to right, with the usual
ranks of its operators.
-/

namespace Montage.Script.Condition

/-- What an argument means. -/
inductive Kind where
  | operand
  | unary
  | binary
  | negation
  | opening
  | closing
  | both
  | either
  deriving DecidableEq, Repr

/-- The conditions with one operand. -/
def unaryNames : List String :=
  ["-r", "-w", "-x", "-e", "-f", "-d", "-c", "-b", "-p", "-u", "-g", "-k", "-s", "-t", "-z", "-n",
   "-h", "-O", "-G", "-L", "-S"]

/-- The conditions with two operands. -/
def binaryNames : List String :=
  ["=", "!=", "<", ">", "-eq", "-ne", "-ge", "-gt", "-le", "-lt", "-nt", "-ot", "-ef"]

/-- What an argument means by itself. -/
def kindOf (arg : String) : Kind :=
  if unaryNames.contains arg then .unary
  else if binaryNames.contains arg then .binary
  else
    match arg with
    | "!" => .negation
    | "(" => .opening
    | ")" => .closing
    | "-a" => .both
    | "-o" => .either
    | _ => .operand

/-- What the first of some arguments means; none at the end. An operator without operands is
one. -/
def kind? : List String → Option Kind
  | [] => none
  | arg :: rest =>
      match kindOf arg, rest with
      | .unary, [] | .opening, [] => some .operand
      | .unary, next :: _ :: _ => some (if kindOf next = .binary then .operand else .unary)
      | kind, _ => some kind

/-- A truth and the arguments from the last one that was used on, or a complaint. -/
abbrev Finding := Except String (Bool × List String)

/-- The number that an operand spells. -/
def number (text : String) : Except String Int :=
  let chars := Text.trimBytes text.toList
  match Decimal.intOfText? (if chars.head? = some '+' then chars.tail else chars) with
  | some n =>
      if n.natAbs < 9223372036854775808 then .ok n else .error s!"Illegal number: {text}"
  | none => .error s!"Illegal number: {text}"

/-- Whether a condition with one operand holds. -/
def holds (t : FileTree) (operator operand : String) : Bool :=
  let isDevice := Tool.devices.contains operand
  match operator with
  | "-n" => operand ≠ ""
  | "-z" => operand = ""
  | "-d" => t.hasDirectory operand
  | "-f" => (t.read operand).isOk && !isDevice
  | "-s" =>
      match t.find operand with
      | .ok (.file bytes _) => bytes ≠ []
      | found => found.isOk
  | "-x" =>
      match t.find operand with
      | .ok (.file _ executable) => executable
      | found => found.isOk
  | "-e" | "-r" | "-w" | "-O" | "-G" => t.has operand || isDevice
  | "-h" | "-L" =>
      match t.findEntry operand with
      | .ok (.link _) => true
      | _ => false
  | "-c" => isDevice
  | _ => false

/-- Whether a condition with two operands holds. -/
def compares (t : FileTree) (operator left right : String) : Except String Bool := do
  match operator with
  | "=" => return left = right
  | "!=" => return left ≠ right
  | "<" => return left < right
  | ">" => return right < left
  | "-eq" => return (← number left) = (← number right)
  | "-ne" => return (← number left) ≠ (← number right)
  | "-lt" => return (← number left) < (← number right)
  | "-le" => return (← number left) ≤ (← number right)
  | "-gt" => return (← number right) < (← number left)
  | "-ge" => return (← number right) ≤ (← number left)
  | "-ef" =>
      match t.locate left, t.locate right with
      | .ok a, .ok b => return a = b && t.has left
      | _, _ => return false
  | _ => return false

mutual

/-- Conditions of which one has to hold. -/
def either (t : FileTree) : Nat → Option Kind → List String → Finding
  | 0, _, args => .ok (false, args)
  | fuel + 1, kind, args => do
      let (first, args) ← both t fuel kind args
      match args with
      | _ :: rest =>
          if kind? rest = some .either then
            let (second, args) ← either t fuel (kind? rest.tail) rest.tail
            return (first || second, args)
          else return (first, args)
      | [] => return (first, args)

/-- Conditions that all have to hold. -/
def both (t : FileTree) : Nat → Option Kind → List String → Finding
  | 0, _, args => .ok (false, args)
  | fuel + 1, kind, args => do
      let (first, args) ← negated t fuel kind args
      match args with
      | _ :: rest =>
          if kind? rest = some .both then
            let (second, args) ← both t fuel (kind? rest.tail) rest.tail
            return (first && second, args)
          else return (first, args)
      | [] => return (first, args)

/-- A condition, or one that must not hold. -/
def negated (t : FileTree) : Nat → Option Kind → List String → Finding
  | 0, _, args => .ok (false, args)
  | fuel + 1, kind, args => do
      if kind = some .negation then
        match args.tail with
        | [] => return (true, args)
        | rest =>
            let (truth, args) ← negated t fuel (kind? rest) rest
            return (!truth, args)
      else primary t fuel kind args

/-- A condition without operators between conditions. -/
def primary (t : FileTree) : Nat → Option Kind → List String → Finding
  | 0, _, args => .ok (false, args)
  | fuel + 1, kind, args => do
      match kind, args with
      | none, args => return (false, args)
      | some .opening, _ :: rest =>
          if kind? rest = some .closing then return (false, rest)
          let (truth, args) ← either t fuel (kind? rest) rest
          match args.tail with
          | ")" :: _ => return (truth, args.tail)
          | _ => throw "closing paren expected"
      | some .unary, [operator] => throw s!"{operator}: argument expected"
      | some .unary, operator :: operand :: rest =>
          return (holds t operator operand, operand :: rest)
      | _, left :: operator :: rest =>
          if kind? (operator :: rest) = some .binary then
            match rest with
            | right :: _ => return (← compares t operator left right, rest)
            | [] => throw s!"{operator}: argument expected"
          else return (left ≠ "", args)
      | _, left :: _ => return (left ≠ "", args)
      | _, [] => return (false, [])

end

/-- Whether a condition holds that is read from left to right, the first argument as some kind. -/
def conclude (t : FileTree) (kind : Option Kind) (args : List String) : Except String Bool := do
  let (truth, rest) ← either t (5 * args.length + 5) kind args
  match rest with
  | last :: _ :: _ =>
      throw (if last = "" then "unexpected operator" else s!"{last}: unexpected operator")
  | _ => return truth

/-- Whether a condition holds. Three or four arguments are read by their number: a comparison comes
first, then brackets around all the others, and a negation is one of all that follows it. -/
def check (t : FileTree) : List String → Except String Bool
  | [] => .ok false
  | first :: rest => do
      let args := first :: rest
      let isComparison := rest.length = 2 && rest.head?.any fun o => kindOf o = .binary
      let isShort := (rest.length = 2 || rest.length = 3) && !isComparison
      let bare := rest.dropLast
      if isShort ∧ first = "(" ∧ args.getLast? = some ")" then conclude t (kind? bare) bare
      else if isShort ∧ first = "!" then return !(← check t rest)
      else conclude t (if isComparison then some .operand else kind? args) args

/-- The tool; its name tells whether a bracket has to close the condition. -/
def tool (isBracketed : Bool) : Tool := fun c =>
  let given : Except String (List String) :=
    if !isBracketed then .ok c.arguments
    else if c.arguments.getLast? = some "]" then .ok c.arguments.dropLast
    else .error "missing ]"
  match given.bind (check c.files) with
  | .ok truth => Tool.ending c (if truth then 0 else 1)
  | .error complaint => Tool.failing c 2 complaint

end Montage.Script.Condition
