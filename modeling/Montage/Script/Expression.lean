import Montage.Decimal.Reader
import Montage.Script.Pattern

/-!
# Regular expressions

The basic and the extended expressions of text tools. An expression is matched by trying its ways in
order, the greedy ones first.
-/

namespace Montage.Script

/-- A regular expression. -/
inductive Expression where
  | empty
  | one (shape : Shape)
  | atStart
  | atEnd
  /-- A part whose match can be referred to by its number. -/
  | group (number : Nat) (inner : Expression)
  /-- The text that a group has matched. -/
  | again (number : Nat)
  | both (first second : Expression)
  | either (first second : Expression)
  /-- At least some times, and not more than some times. -/
  | repeated (low : Nat) (high : Option Nat) (inner : Expression)
  deriving DecidableEq, Repr

namespace Expression

/-- A unit of an expression as it is written. -/
inductive Token where
  | shape (s : Shape)
  | opening
  | closing
  | bar
  | times (low : Nat) (high : Option Nat)
  | atStart
  | atEnd
  | again (number : Nat)
  deriving DecidableEq, Repr

/-- The bounds of a repetition up to a closing brace, with a backslash in front of it in basic
expressions. -/
def readBounds (extended : Bool) (text : List Char) : Token × List Char :=
  let low := text.takeWhile Char.isDigit
  let rest := text.drop low.length
  let high := (rest.drop 1).takeWhile Char.isDigit
  let mark := if extended then 1 else 2
  if rest.head? = some ',' then
    (.times (Decimal.ofDigits low) (if high = [] then none else some (Decimal.ofDigits high)),
      rest.drop (1 + high.length + mark))
  else (.times (Decimal.ofDigits low) (some (Decimal.ofDigits low)), rest.drop mark)

/-- What a character stands for that is an operator in extended expressions as it is, and in basic
ones after a backslash. -/
def operator? (extended : Bool) (c : Char) (rest : List Char) : Option (Token × List Char) :=
  match c with
  | '(' => some (.opening, rest)
  | ')' => some (.closing, rest)
  | '|' => some (.bar, rest)
  | '+' => some (.times 1 none, rest)
  | '?' => some (.times 0 (some 1), rest)
  | '\x7b' => some (readBounds extended rest)
  | _ => none

/-- What an escaped character stands for that is no operator. -/
def escaped (c : Char) : Token :=
  if c.isDigit && c ≠ '0' then .again (c.toNat - '0'.toNat)
  else if c = 'n' then .shape (.char '\n')
  else .shape (.char c)

/-- The units of an expression; `begins` tells whether a way begins here. -/
def tokens (extended : Bool) : Nat → Bool → List Char → List Token
  | 0, _, _ | _, _, [] => []
  | fuel + 1, begins, c :: rest =>
      let plain (t : Token) (rest : List Char) : List Token :=
        t :: tokens extended fuel (t = .opening || t = .bar || t = .atStart) rest
      match c, rest with
      | '\\', d :: rest =>
          match if extended then none else operator? false d rest with
          | some (t, rest) => plain t rest
          | none => plain (escaped d) rest
      | '.', rest => plain (.shape .any) rest
      | '[', rest =>
          match readSet? '^' (marked false rest) with
          | some (set, after) => plain (.shape set) (rest.drop (rest.length - after.length))
          | none => plain (.shape (.char '[')) rest
      | '^', rest => plain (if extended || begins then .atStart else .shape (.char '^')) rest
      | '$', rest =>
          let closes := rest = [] || ['\\', ')'].isPrefixOf rest || ['\\', '|'].isPrefixOf rest
          plain (if extended || closes then .atEnd else .shape (.char '$')) rest
      | '*', rest =>
          plain (if extended || !begins then .times 0 none else .shape (.char '*')) rest
      | c, rest =>
          match if extended then operator? true c rest else none with
          | some (t, rest) => plain t rest
          | none => plain (.shape (.char c)) rest

/-- The repetitions that follow a part. -/
def repetitions (e : Expression) : List Token → Expression × List Token
  | .times low high :: rest => repetitions (.repeated low high e) rest
  | rest => (e, rest)

mutual

/-- The ways up to a closing bracket; the number of the next group comes along. -/
def ways : Nat → Nat → List Token → Expression × Nat × List Token
  | 0, number, ts => (.empty, number, ts)
  | fuel + 1, number, ts =>
      let (first, number, rest) := run fuel number .empty ts
      match rest with
      | .bar :: rest =>
          let (second, number, rest) := ways fuel number rest
          (.either first second, number, rest)
      | rest => (first, number, rest)

/-- A run of parts after what was read already. -/
def run : Nat → Nat → Expression → List Token → Expression × Nat × List Token
  | 0, number, done, ts => (done, number, ts)
  | fuel + 1, number, done, ts =>
      let add (e : Expression) (number : Nat) (rest : List Token) :
          Expression × Nat × List Token :=
        let (e, rest) := repetitions e rest
        run fuel number (.both done e) rest
      match ts with
      | .opening :: rest =>
          let (inner, after, rest) := ways fuel (number + 1) rest
          add (.group number inner) after (rest.drop 1)
      | .shape s :: rest => add (.one s) number rest
      | .atStart :: rest => add .atStart number rest
      | .atEnd :: rest => add .atEnd number rest
      | .again n :: rest => add (.again n) number rest
      | .times .. :: rest => run fuel number done rest
      | ts => (done, number, ts)

end

/-- The expression that a text spells. -/
def ofText (extended : Bool) (text : List Char) : Expression :=
  let ts := tokens extended (text.length + 1) true text
  (ways (2 * ts.length + 2) 1 ts).1

/-- The expression that matches a plain text. -/
def ofPlain (text : List Char) : Expression :=
  text.foldr (fun c e => .both (.one (.char c)) e) .empty

/-- The number of parts of an expression. -/
def size : Expression → Nat
  | .group _ inner | .repeated _ _ inner => inner.size + 1
  | .both a b | .either a b => a.size + b.size + 1
  | _ => 1

/-- Whether an expression has groups. -/
def hasGroups : Expression → Bool
  | .group .. => true
  | .repeated _ _ inner => inner.hasGroups
  | .both a b | .either a b => a.hasGroups || b.hasGroups
  | _ => false

/-- What is still to be matched. -/
inductive Goal where
  | expression (e : Expression)
  /-- A group ends here that began with the given text. -/
  | close (number : Nat) (start : List Char)
  /-- Something has to have been matched since the given number of characters was left. -/
  | progress (left : Nat)

/-- The texts that groups have matched, by their numbers. -/
abbrev Groups := List (Nat × List Char)

/-- A way to match some goals one after the other in a line: what is left of the text, and the
groups. Upper and lower case are alike if `folded`. -/
def solve? (folded : Bool) (line : List Char) :
    Nat → List Goal → List Char → Groups → Option (List Char × Groups)
  | 0, _, _, _ => none
  | _, [], text, groups => some (text, groups)
  | fuel + 1, goal :: goals, text, groups =>
      match goal with
      | .close number start =>
          let found := start.take (start.length - text.length)
          solve? folded line fuel goals text ((number, found) :: groups)
      | .progress left =>
          if text.length < left then solve? folded line fuel goals text groups else none
      | .expression e =>
          let next (more : List Goal) : Option (List Char × Groups) :=
            solve? folded line fuel (more ++ goals) text groups
          match e with
          | .empty => next []
          | .one shape =>
              match text with
              | [] => none
              | c :: rest =>
                  let fits := shape.accepts c ||
                    (folded && (shape.accepts c.toLower || shape.accepts c.toUpper))
                  if fits then solve? folded line fuel goals rest groups else none
          | .atStart => if text.length = line.length then next [] else none
          | .atEnd => if text = [] then next [] else none
          | .group number inner => next [.expression inner, .close number text]
          | .again number =>
              let found := (groups.lookup number).getD []
              if found.isPrefixOf text then
                solve? folded line fuel goals (text.drop found.length) groups
              else none
          | .both a b => next [.expression a, .expression b]
          | .either a b => (next [.expression a]).or (next [.expression b])
          | .repeated low high inner =>
              let more :=
                if high = some 0 then none
                else
                  next ([.expression inner] ++ (if low = 0 then [.progress text.length] else []) ++
                    [.expression (.repeated (low - 1) (high.map (· - 1)) inner)])
              more.or (if low = 0 then next [] else none)

/-- The match at the beginning of what is left of a line: what is left after it, and its groups. -/
def matchAt? (e : Expression) (folded : Bool) (line text : List Char) :
    Option (List Char × Groups) :=
  solve? folded line (4 * (text.length + 2) * (e.size + 2)) [.expression e] text []

/-- The first match in a text of which the first characters are skipped: where it begins, what is
left after it, and its groups, of which number zero is the whole match. -/
def find? (e : Expression) (folded : Bool) (text : List Char) (skipped : Nat) :
    Option (List Char × List Char × Groups) :=
  (List.range (text.length + 1 - skipped)).findSome? fun i =>
    let start := text.drop (skipped + i)
    (e.matchAt? folded text start).map fun (rest, groups) =>
      (start, rest, (0, start.take (start.length - rest.length)) :: groups)

example : ((ofText false "b*\\(c\\)$".toList).find? false "abbc".toList 0).map Prod.fst =
    some "bbc".toList := by decide +kernel

end Expression

end Montage.Script
