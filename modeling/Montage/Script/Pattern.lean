/-!
# Patterns

The patterns of shell words, in which only characters that are not quoted are special.
-/

namespace Montage.Script

/-- A character of an expanded word, and whether it was quoted. -/
abbrev Marked := Char × Bool

/-- Some characters, marked alike. -/
def marked (quoted : Bool) (chars : List Char) : List Marked := chars.map fun c => (c, quoted)

/-- What a character of a text is compared with. A set lists ranges of characters. -/
inductive Shape where
  | char (c : Char)
  | any
  | set (negated : Bool) (ranges : List (Char × Char))
  deriving DecidableEq, Repr

/-- Whether a character fits. -/
def Shape.accepts : Shape → Char → Bool
  | char d, c => c == d
  | any, _ => true
  | set negated ranges, c => (ranges.any fun (a, b) => a ≤ c && c ≤ b) != negated

/-- The ranges of the classes of characters that have names. -/
def classRanges : List (String × List (Char × Char)) :=
  [("alpha", [('a', 'z'), ('A', 'Z')]), ("digit", [('0', '9')]),
   ("alnum", [('a', 'z'), ('A', 'Z'), ('0', '9')]), ("upper", [('A', 'Z')]),
   ("lower", [('a', 'z')]), ("space", [('\t', '\r'), (' ', ' ')]),
   ("blank", [(' ', ' '), ('\t', '\t')]),
   ("punct", [('!', '/'), (':', '@'), ('[', Char.ofNat 96), ('\x7b', '~')]),
   ("xdigit", [('0', '9'), ('a', 'f'), ('A', 'F')]), ("graph", [('!', '~')]),
   ("print", [(' ', '~')]), ("cntrl", [('\x00', '\x1f'), ('\x7f', '\x7f')])]

/-- The ranges of a class at the beginning of a text, after its opening, and what follows it. -/
def readClass? (text : List Marked) : Option (List (Char × Char) × List Marked) :=
  classRanges.findSome? fun (name, ranges) =>
    let shown := name.toList ++ [':', ']']
    if shown.isPrefixOf (text.map Prod.fst) then some (ranges, text.drop shown.length) else none

/-- The ranges of a set up to its closing bracket, and what follows it. A bracket that comes first
does not close the set. -/
def rangesOf? : Nat → Bool → List Marked → Option (List (Char × Char) × List Marked)
  | 0, _, _ => none
  | _, _, [] => none
  | fuel + 1, first, (a, quoted) :: rest =>
      let add (range : List (Char × Char)) (rest : List Marked) :
          Option (List (Char × Char) × List Marked) :=
        (rangesOf? fuel false rest).map fun (ranges, rest) => (range ++ ranges, rest)
      if a = ']' ∧ !quoted ∧ !first then some ([], rest)
      else
        match a, rest with
        | '[', (':', false) :: inner =>
            match readClass? inner with
            | some (ranges, rest) => add ranges rest
            | none => add [('[', '[')] rest
        | a, ('-', false) :: (b, other) :: after =>
            if b = ']' ∧ !other then add [(a, a)] rest else add [(a, b)] after
        | a, rest => add [(a, a)] rest

/-- The set after an opening bracket, and what follows it; a mark in front negates it. -/
def readSet? (mark : Char) (text : List Marked) : Option (Shape × List Marked) :=
  let (negated, inner) :=
    match text with
    | (c, false) :: rest => if c = mark then (true, rest) else (false, text)
    | rest => (false, rest)
  (rangesOf? (inner.length + 1) true inner).map fun (ranges, rest) => (.set negated ranges, rest)

/-- A part of a pattern that stands for one character or, if it is repeated, for any number. -/
structure Item where
  shape : Shape
  repeated : Bool := false
  deriving DecidableEq, Repr

/-- The items of a shell pattern. -/
def wordItems : Nat → List Marked → List Item
  | 0, _ => []
  | _, [] => []
  | fuel + 1, (c, quoted) :: rest =>
      match quoted, c, rest with
      | false, '*', rest => { shape := .any, repeated := true } :: wordItems fuel rest
      | false, '?', rest => { shape := .any } :: wordItems fuel rest
      | false, '\\', (d, _) :: rest => { shape := .char d } :: wordItems fuel rest
      | false, '[', rest =>
          match readSet? '!' rest with
          | some (shape, rest) => { shape } :: wordItems fuel rest
          | none => { shape := .char '[' } :: wordItems fuel rest
      | _, c, rest => { shape := .char c } :: wordItems fuel rest

/-- Whether the items match a whole text. -/
def matchItems : Nat → List Item → List Char → Bool
  | 0, _, _ => false
  | _, [], text => text.isEmpty
  | fuel + 1, item :: items, text =>
      (item.repeated && matchItems fuel items text) ||
        match text with
        | [] => false
        | c :: rest =>
            item.shape.accepts c &&
              matchItems fuel (if item.repeated then item :: items else items) rest

/-- Whether a shell pattern matches a whole text. -/
def matchesWord (pattern : List Marked) (text : List Char) : Bool :=
  matchItems (pattern.length + text.length + 1) (wordItems (pattern.length + 1) pattern) text

example : matchesWord (marked false "*b?".toList) "aabc".toList = true := by decide

example : matchesWord (marked true "*b?".toList) "aabc".toList = false := by decide

/-- Whether a word has a character that is special in patterns. -/
def isPattern (pattern : List Marked) : Bool :=
  pattern.any fun (c, quoted) => !quoted && (c = '*' || c = '?' || c = '[')

/-- The text without a beginning that a pattern matches, the longest or the shortest one. -/
def withoutStart (pattern : List Marked) (longest : Bool) (text : List Char) : List Char :=
  let sizes := List.range (text.length + 1)
  let found := (if longest then sizes.reverse else sizes).find? fun n =>
    matchesWord pattern (text.take n)
  text.drop (found.getD 0)

/-- The text without an ending that a pattern matches, the longest or the shortest one. -/
def withoutEnd (pattern : List Marked) (longest : Bool) (text : List Char) : List Char :=
  let starts := List.range (text.length + 1)
  let found := (if longest then starts else starts.reverse).find? fun n =>
    matchesWord pattern (text.drop n)
  text.take (found.getD text.length)

end Montage.Script
