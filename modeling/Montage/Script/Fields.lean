import Montage.Script.FileTools
import Montage.Script.Pattern

/-!
# Fields

An expanded word becomes fields: what is not quoted is split at certain characters, and a field with
a pattern stands for the files whose paths it matches.
-/

namespace Montage.Script

/-- An expanded word: its characters with their marks. -/
abbrev Field := List Marked

/-- The text of an expanded word. -/
def Field.text (f : Field) : String := String.ofList (f.map Prod.fst)

/-- Fields in the making: those that are finished, last one first, and the one that is open, with
its last character first. -/
structure Splitting where
  finished : List Field := []
  current : Option Field := none
  /-- Whether a blank has closed the last field, so that a separator may still belong to it. -/
  afterBlank : Bool := false

namespace Splitting

/-- Adds characters to the open field. -/
def add (s : Splitting) (f : Field) : Splitting :=
  { s with current := some (f.reverseAux (s.current.getD [])), afterBlank := false }

/-- Closes the open field. -/
def close (s : Splitting) : Splitting :=
  match s.current with
  | some f => { s with finished := f.reverse :: s.finished, current := none }
  | none => s

/-- Adds a character that splits. A run of blanks splits once; any other separator splits each
time. -/
def separate (s : Splitting) (c : Char) : Splitting :=
  let isBlank := c = ' ' || c = '\t' || c = '\n'
  match s.current with
  | some _ => { s.close with afterBlank := isBlank }
  | none =>
      if isBlank then s
      else if s.afterBlank then { s with afterBlank := false }
      else { s with finished := [] :: s.finished }

/-- Adds a value that is split at separators. -/
def addSplit (s : Splitting) (separators value : List Char) : Splitting :=
  value.foldl (fun s c => if separators.contains c then s.separate c else s.add [(c, false)]) s

/-- Adds some values as fields of their own, split at separators unless they are quoted. -/
def addEach (s : Splitting) (separators : List Char) (quoted : Bool) : List String → Splitting
  | [] => s
  | [v] => addOne s v
  | v :: rest => addEach (addOne s v).close separators quoted rest
where
  /-- Adds one value. -/
  addOne (s : Splitting) (v : String) : Splitting :=
    if quoted then s.add (marked true v.toList) else s.addSplit separators v.toList

/-- The fields. -/
def fields (s : Splitting) : List Field := s.close.finished.reverse

end Splitting

/-- The parts of a field between slashes. -/
def partsOf (f : Field) : List Field :=
  f.foldr (fun m parts =>
    match m.1, parts with
    | '/', parts => [] :: parts
    | _, part :: rest => (m :: part) :: rest
    | _, [] => [[m]]) [[]]

/-- Whether a pattern stands for a name; a dot in front has to be spelled out. -/
def standsFor (pattern : Field) (name : String) : Bool :=
  (name.toList.head? ≠ some '.' || (pattern.head?.map Prod.fst) = some '.') &&
    matchesWord pattern name.toList

/-- The paths that the parts of a pattern stand for, after what is known already. -/
def pathsAfter (t : FileTree) : String → List Field → List String
  | path, [] => if (t.findEntry path).isOk then [path] else []
  | path, part :: rest =>
      let ending := if rest = [] then "" else "/"
      if isPattern part then
        match t.locate (if path = "" then "." else path) with
        | .ok place =>
            ((Tool.namesIn t place).filter (standsFor part)).flatMap fun name =>
              pathsAfter t (path ++ name ++ ending) rest
        | .error _ => []
      else pathsAfter t (path ++ part.text ++ ending) rest

/-- The texts that a field stands for: the paths that it matches, or itself if there are none. -/
def textsOf (t : FileTree) (f : Field) : List String :=
  if isPattern f then
    match pathsAfter t "" (partsOf f) with
    | [] => [f.text]
    | paths => paths.mergeSort fun a b => a ≤ b
  else [f.text]

end Montage.Script
