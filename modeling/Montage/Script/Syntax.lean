/-!
# Scripts

The commands of a shell script, with their words still to be expanded.
-/

namespace Montage.Script

/-- How the value of a parameter is changed. Texts and patterns are kept as they are written. With
`orEmpty` an empty value counts as none. -/
inductive Change where
  | unchanged
  /-- A text stands in for a missing value. -/
  | orElse (orEmpty : Bool) (text : List Char)
  /-- A text becomes the value where there is none. -/
  | orAssign (orEmpty : Bool) (text : List Char)
  /-- The script ends with a complaint if there is no value. -/
  | orFail (orEmpty : Bool) (complaint : List Char)
  /-- A text stands in for a value, if there is one. -/
  | inPlace (orEmpty : Bool) (text : List Char)
  /-- Without a beginning that matches a pattern, the longest or the shortest one. -/
  | withoutStart (pattern : List Char) (longest : Bool)
  /-- Without an ending that matches a pattern, the longest or the shortest one. -/
  | withoutEnd (pattern : List Char) (longest : Bool)
  /-- The number of characters instead of the value. -/
  | size
  /-- No change that there is. -/
  | unknown
  deriving DecidableEq, Repr

/-- A piece of a word. What is quoted is neither split nor read as a pattern. Commands and
arithmetic inside a word are kept as they are written. -/
inductive Part where
  | text (chars : List Char) (quoted : Bool)
  /-- The value of a parameter, changed in some way. -/
  | parameter (name : String) (change : Change) (quoted : Bool)
  /-- The output of some commands. -/
  | output (source : List Char) (quoted : Bool)
  /-- The value of an arithmetic expression. -/
  | number (source : List Char) (quoted : Bool)
  deriving DecidableEq, Repr

/-- A word is a run of pieces. -/
abbrev Word := List Part

/-- The text of a word that is plain and not quoted. -/
def plain? : Word → Option String
  | [.text chars false] => some (String.ofList chars)
  | _ => none

/-- What a stream is connected to. -/
inductive Target where
  | readFrom (path : Word)
  | writeTo (path : Word)
  | appendTo (path : Word)
  /-- Where another stream goes, or nowhere. -/
  | sameAs (stream : Word)
  /-- A text in the script itself. -/
  | here (body : Word)
  deriving DecidableEq, Repr

/-- A redirection of a numbered stream. -/
structure Redirection where
  stream : Nat
  target : Target
  deriving DecidableEq, Repr

/-- A command. -/
inductive Command where
  /-- Assignments and a name with arguments, on a line of the script. -/
  | simple (line : Nat) (assignments : List (String × Word)) (words : List Word)
  /-- A command with redirections, on a line of the script. -/
  | redirected (line : Nat) (command : Command) (redirections : List Redirection)
  | sequence (commands : List Command)
  | pipeline (stages : List Command)
  | negated (command : Command)
  /-- The second one runs if the first one succeeds. -/
  | both (first second : Command)
  /-- The second one runs if the first one fails. -/
  | either (first second : Command)
  | subshell (body : Command)
  /-- A command that nobody waits for. -/
  | background (body : Command)
  | conditional (condition thenBody elseBody : Command)
  /-- Repeats the body as long as the condition succeeds, or, if `awaited`, until it does. -/
  | loop (awaited : Bool) (condition body : Command)
  /-- Runs the body for each word, or for each argument of the script. -/
  | each (name : String) (words : Option (List Word)) (body : Command)
  /-- Gives a name to a command. -/
  | define (name : String) (body : Command)
  /-- Runs the first branch with a pattern that matches. -/
  | choice (subject : Word) (branches : List (List Word × Command))

/-- The command that does nothing. -/
def Command.nothing : Command := .sequence []

/-- What is wrong with a script, and the line up to which it was read. -/
structure Flaw where
  line : Nat
  message : String
  deriving DecidableEq, Repr

end Montage.Script
