/-!
# Data texts

The value that a data text denotes. Members keep their order and may repeat; a number keeps the
text it was written with; a string whose escapes do not form characters is kept as `none`.
-/

namespace Montage

/-- A value of a data text. -/
inductive Json where
  | null
  | bool (value : Bool)
  | number (text : List Char)
  | string (text : Option String)
  | array (items : List Json)
  | object (members : List (Option String × Json))
  deriving Inhabited, Repr

namespace Json

/-- A string value. -/
def text (s : String) : Json := .string (some s)

mutual

/-- How many arrays and objects enclose the innermost value, the outermost one counted. -/
def depth : Json → Nat
  | .array items => listDepth items + 1
  | .object members => memberDepth members + 1
  | _ => 0

/-- The greatest depth in a list of values. -/
def listDepth : List Json → Nat
  | [] => 0
  | j :: rest => max j.depth (listDepth rest)

/-- The greatest depth in a list of members. -/
def memberDepth : List (Option String × Json) → Nat
  | [] => 0
  | (_, j) :: rest => max j.depth (memberDepth rest)

end

end Json

end Montage
