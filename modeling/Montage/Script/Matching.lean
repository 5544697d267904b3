import Montage.Script.Effect
import Montage.Script.Expression
import Montage.Text.Split

/-!
# Matching lines

The tools that show the lines of files that an expression matches, and that edit them. Lines are
taken byte by byte.
-/

namespace Montage.Script

/-! ## Showing lines -/

namespace Tool

/-- The lines that match an expression, or how many there are. The status tells whether there are
any. -/
def grep : Tool :=
  withOptions 2 "EFGinqvcx" "e" fun c g =>
    let (pattern, paths) := match g.value? 'e', g.operands with
      | some pattern, paths => (pattern, paths)
      | none, pattern :: paths => (pattern, paths)
      | none, [] => ("", [])
    let e :=
      if g.has 'F' then Expression.ofPlain pattern.toList
      else Expression.ofText (g.has 'E') pattern.toList
    let e := if g.has 'x' then .both .atStart (.both e .atEnd) else e
    let isWanted (line : List Char) : Bool := (e.find? (g.has 'i') line 0).isSome != g.has 'v'
    let (found, done) := eachSource c paths about false fun found s bytes e =>
      let front := if paths.length ≤ 1 then "" else s!"{s.path}:"
      let rows := (rowsOf bytes).zipIdx.filter fun row => isWanted row.1
      let shown (row : List Char × Nat) : List UInt8 :=
        Text.toBytes (front ++ if g.has 'n' then s!"{row.2 + 1}:" else "") ++ lineOf row.1
      (found || rows ≠ [],
        if g.has 'q' then e
        else if g.has 'c' then e.sayText s!"{front}{rows.length}\n"
        else e.say (rows.flatMap shown))
    { done with status := if done.status ≠ 0 then 2 else if found then 0 else 1 }

end Tool

/-! ## Editing lines -/

namespace StreamEdit

/-- A line that a command is for. -/
inductive Address where
  | line (number : Nat)
  | last
  /-- A line that an expression matches. -/
  | containing (e : Expression)
  deriving DecidableEq, Repr

/-- What a command does. -/
inductive Action where
  | delete
  | print
  | quit
  /-- Replaces a match, from the one with a number on, or that one only, and shows the line on
  demand. An ampersand and numbers after backslashes in the new text stand for what was matched. -/
  | substitute (e : Expression) (folded : Bool) (text : List Char) (number : Nat)
      (everywhere shows : Bool)
  /-- Replaces characters. -/
  | exchange (old new : List Char)
  deriving DecidableEq, Repr

/-- A command for all lines, one line, or those from one on to another, or for all others. -/
structure Command where
  first : Option Address
  last : Option Address
  negated : Bool
  action : Action
  deriving DecidableEq, Repr

/-- The text up to a separator that has no backslash in front of it, and what follows. -/
def field? (separator : Char) : List Char → Option (List Char × List Char)
  | [] => none
  | '\\' :: c :: rest => do
      let (text, after) ← field? separator rest
      return (if c = separator then c :: text else '\\' :: c :: text, after)
  | c :: rest =>
      if c = separator then some ([], rest)
      else (field? separator rest).map fun (text, after) => (c :: text, after)

/-- The address at the beginning of a text, and what follows it; none for a broken one. -/
def address? (extended : Bool) (text : List Char) : Option (Option Address × List Char) :=
  match text with
  | '$' :: rest => some (some .last, rest)
  | '/' :: rest =>
      (field? '/' rest).map fun (e, rest) => (some (.containing (.ofText extended e)), rest)
  | text =>
      let digits := text.takeWhile Char.isDigit
      if digits = [] then some (none, text)
      else some (some (.line (Decimal.ofDigits digits)), text.drop digits.length)

/-- Without blanks at the beginning. -/
def withoutBlanks (text : List Char) : List Char := text.dropWhile fun c => c = ' ' || c = '\t'

/-- What a command does by its letter, and what follows it. -/
def action? (extended : Bool) (text : List Char) : Option (Action × List Char) :=
  match text with
  | 'd' :: rest => some (.delete, rest)
  | 'p' :: rest => some (.print, rest)
  | 'q' :: rest => some (.quit, rest)
  | 's' :: separator :: rest => do
      let (e, rest) ← field? separator rest
      let (new, rest) ← field? separator rest
      let flags := rest.takeWhile fun c => c.isDigit || ['g', 'p', 'i', 'I'].contains c
      let digits := flags.filter Char.isDigit
      return (.substitute (.ofText extended e) (flags.any fun c => c = 'i' || c = 'I') new
        (if digits = [] then 1 else Decimal.ofDigits digits) (flags.contains 'g')
        (flags.contains 'p'), rest.drop flags.length)
  | 'y' :: separator :: rest => do
      let (old, rest) ← field? separator rest
      let (new, rest) ← field? separator rest
      guard (old.length = new.length)
      return (.exchange old new, rest)
  | _ => none

/-- The commands of a script, with semicolons or line ends between them. -/
def commands? (extended : Bool) : Nat → List Char → Option (List Command)
  | 0, _ => none
  | fuel + 1, text => do
      match withoutBlanks text with
      | [] => return []
      | ';' :: rest | '\n' :: rest => commands? extended fuel rest
      | text =>
          let (first, rest) ← address? extended text
          let (last, rest) ← match rest with
            | ',' :: rest => address? extended rest
            | rest => pure (none, rest)
          let rest := withoutBlanks rest
          let negated := rest.head? = some '!'
          let rest := withoutBlanks (if negated then rest.tail else rest)
          let (action, rest) ← action? extended rest
          let rest := withoutBlanks rest
          guard (rest.head?.all fun c => c = ';' || c = '\n')
          return ⟨first, last, negated, action⟩ :: (← commands? extended fuel rest)

/-- Whether an address is for a line with a number. -/
def Address.holds (isLast : Bool) (number : Nat) (line : List Char) : Address → Bool
  | .line n => n = number
  | .last => isLast
  | .containing e => (e.find? false line 0).isSome

/-- Whether a command is for a line, and whether its range goes on after that. -/
def Command.isFor (c : Command) (isOpen isLast : Bool) (number : Nat) (line : List Char) :
    Bool × Bool :=
  let holds (a : Address) : Bool := a.holds isLast number line
  let (here, goesOn) : Bool × Bool :=
    match c.first, c.last with
    | none, _ => (true, false)
    | some a, none => (holds a, false)
    | some a, some b =>
        let isPast : Bool := match b with
          | .line n => n ≤ number
          | _ => false
        if isOpen then (true, !(holds b || isPast)) else (holds a, holds a && !isPast)
  (here != c.negated, goesOn)

/-- A new text with what groups have matched. -/
def filled (groups : Expression.Groups) : List Char → List Char
  | '\\' :: 'n' :: rest => '\n' :: filled groups rest
  | '\\' :: c :: rest =>
      (if c.isDigit then (groups.lookup (c.toNat - '0'.toNat)).getD [] else [c]) ++
        filled groups rest
  | '&' :: rest => (groups.lookup 0).getD [] ++ filled groups rest
  | c :: rest => c :: filled groups rest
  | [] => []

/-- What is left of a line from a place on, with the matches of an expression replaced, and whether
there was one; `count` matches are passed over first. A match of nothing does not count right after
another match, which `follows` tells. -/
def replaced (e : Expression) (folded everywhere : Bool) (text line : List Char) :
    Nat → Nat → Bool → Nat → List Char × Bool
  | 0, _, _, place => (line.drop place, false)
  | fuel + 1, count, follows, place =>
      match e.find? folded line place with
      | none => (line.drop place, false)
      | some (start, rest, groups) =>
          let before := (line.drop place).take (line.length - place - start.length)
          let found := start.take (start.length - rest.length)
          let kept := if found = [] then rest.take 1 else []
          let next := line.length - rest.length + kept.length
          let counts := found ≠ [] || before ≠ [] || !follows
          let isNew := counts && count = 0
          let new := if isNew then filled groups text else found
          if isNew ∧ !everywhere then (before ++ new ++ rest, true)
          else if found = [] ∧ rest = [] then (before ++ new, isNew)
          else
            let left := if counts then count - 1 else count
            let (shown, done) := replaced e folded everywhere text line fuel left (found ≠ []) next
            (before ++ new ++ kept ++ shown, isNew || done)

/-- What has become of a line: its text, what was shown so far, whether it is still to be shown, and
whether the script goes on. -/
structure Edited where
  text : List Char
  shown : List (List Char) := []
  isKept : Bool := true
  goesOn : Bool := true

/-- A line after a command. -/
def Edited.after (l : Edited) : Action → Edited
  | .delete => { l with isKept := false }
  | .print => { l with shown := l.shown ++ [l.text] }
  | .quit => { l with goesOn := false }
  | .substitute e folded new number everywhere shows =>
      let fuel := l.text.length + 2
      let (text, done) := replaced e folded everywhere new l.text fuel (number - 1) false 0
      { l with text, shown := if done && shows then l.shown ++ [text] else l.shown }
  | .exchange old new => { l with text := l.text.map fun c => (new[old.idxOf c]?).getD c }

/-- The lines that a script makes of some lines. The ranges that are open come along. -/
def edited (quiet : Bool) (commands : List Command) :
    List Bool → List (List Char × Nat) → List (List Char)
  | _, [] => []
  | ranges, (line, place) :: rest =>
      let (l, opened) := (commands.zip ranges).foldl (fun ((l : Edited), opened) (c, isOpen) =>
        let (here, goesOn) := c.isFor isOpen (rest = []) (place + 1) l.text
        (if here && l.isKept && l.goesOn then l.after c.action else l, opened ++ [goesOn]))
        ({ text := line }, [])
      l.shown ++ (if quiet || !l.isKept then [] else [l.text]) ++
        if l.goesOn then edited quiet commands opened rest else []

end StreamEdit

/-- Files edited by a script. -/
def Tool.sed : Tool :=
  withOptions 1 "nErs" "e" fun c g =>
    let (scripts, paths) := match g.values 'e', g.operands with
      | [], script :: paths => ([script], paths)
      | scripts, paths => (scripts, paths)
    let script := ("\n".intercalate scripts).toList
    match StreamEdit.commands? (g.has 'E' || g.has 'r') (script.length + 1) script with
    | none => failing c 1 "-e expression #1, char 0: unknown command"
    | some commands =>
        let complaint (path : String) (e : OsError) : String := s!"can't read {path}: {reason e}"
        let (bytes, e) := eachSource c paths complaint [] fun bytes _ more e => (bytes ++ more, e)
        let lines := (rowsOf bytes).zipIdx
        let shown := StreamEdit.edited (g.has 'n') commands (commands.map fun _ => false) lines
        let text := shown.flatMap lineOf
        -- A last line without an end stays so.
        let isOpen := bytes.getLast?.any (· ≠ 10)
        { e.say (if isOpen then text.dropLast else text) with
          status := if e.status = 0 then 0 else 2 }

end Montage.Script
