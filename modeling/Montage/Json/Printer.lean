import Montage.Json.Number

/-!
# Writing a data text

The layout puts each item and member on a line of its own, indented by two spaces per level; empty
arrays and objects stay on one line.
-/

namespace Montage.Json

/-- A hexadecimal digit, in lower case. -/
def hexDigit (n : Nat) : Char :=
  if n < 10 then Char.ofNat ('0'.toNat + n) else Char.ofNat ('a'.toNat + (n - 10))

/-- A character inside quotes: the quote, the backslash and control characters are escaped. -/
def escape (c : Char) : List Char :=
  match c with
  | '"' => ['\\', '"']
  | '\\' => ['\\', '\\']
  | '\x08' => ['\\', 'b']
  | '\x0c' => ['\\', 'f']
  | '\n' => ['\\', 'n']
  | '\r' => ['\\', 'r']
  | '\t' => ['\\', 't']
  | c =>
      if c.toNat < 0x20 then
        ['\\', 'u', '0', '0', hexDigit (c.toNat / 16), hexDigit (c.toNat % 16)]
      else [c]

/-- A string with its quotes. -/
def quoted (s : String) : List Char := '"' :: s.toList.flatMap escape ++ ['"']

/-- A line end and the indentation of a level. -/
def newline (level : Nat) : List Char := '\n' :: List.replicate (2 * level) ' '

mutual

/-- The text of a value whose first line stands at the given level. -/
def prettyAt (level : Nat) : Json → List Char
  | .null => "null".toList
  | .bool b => (if b then "true" else "false").toList
  | .number text => text
  | .string s => quoted (s.getD "")
  | .array [] => ['[', ']']
  | .array (j :: rest) =>
      '[' :: newline (level + 1) ++ prettyAt (level + 1) j ++ prettyItems (level + 1) rest ++
        newline level ++ [']']
  | .object [] => ['\x7b', '\x7d']
  | .object ((key, j) :: rest) =>
      '\x7b' :: newline (level + 1) ++ quoted (key.getD "") ++ [':', ' '] ++
        prettyAt (level + 1) j ++ prettyMembers (level + 1) rest ++ newline level ++ ['\x7d']

/-- The items after the first one. -/
def prettyItems (level : Nat) : List Json → List Char
  | [] => []
  | j :: rest => ',' :: newline level ++ prettyAt level j ++ prettyItems level rest

/-- The members after the first one. -/
def prettyMembers (level : Nat) : List (Option String × Json) → List Char
  | [] => []
  | (key, j) :: rest =>
      ',' :: newline level ++ quoted (key.getD "") ++ [':', ' '] ++ prettyAt level j ++
        prettyMembers level rest

end

/-- The text of a value. -/
def pretty (j : Json) : String := String.ofList (prettyAt 0 j)

/-- An object with the given members. -/
def record (members : List (String × Json)) : Json :=
  .object (members.map fun (key, j) => (some key, j))

/-- A value that may be absent; null when it is. -/
def optional {α : Type} (write : α → Json) : Option α → Json
  | some a => write a
  | none => .null

end Montage.Json
