import Montage.Text.Split

/-!
# Paths

Paths are texts. A path is cut at slashes; empty parts and single dots, except a dot at the
beginning, do not count.
-/

namespace Montage.Path

/-- Whether a path starts at the root. -/
def isAbsolute (path : String) : Bool := path.toList.head? = some '/'

/-- The parts between slashes. -/
def parts (path : String) : List String :=
  (Text.splitOnChar '/' path.toList).map String.ofList

/-- Whether a path ends in a slash. -/
def endsInSlash (path : String) : Bool := path.toList.getLast? = some '/'

/-- The parts up to the last one that is not empty. -/
def partsToName (path : String) : List String :=
  ((parts path).reverse.dropWhile (· = "")).reverse

/-- Whether a part counts; `first` tells whether it is the beginning of a relative path. -/
def counts (first : Bool) (part : String) : Bool := part ≠ "" ∧ (part ≠ "." ∨ first)

/-- The parts that count. -/
def countedParts (path : String) : List String :=
  ((parts path).zipIdx.filter fun (part, i) => counts (i == 0) part).map Prod.fst

/-- Whether two paths are written with the same parts. -/
def same (a b : String) : Bool :=
  isAbsolute a == isAbsolute b && countedParts a == countedParts b

/-- The parts up to the last one that counts. -/
def trimmed (path : String) : List String :=
  ((parts path).zipIdx.reverse.dropWhile fun (part, i) => !counts (i == 0) part).reverse.map
    Prod.fst

/-- The path of some parts; an absolute path without names is the root. -/
def ofParts (absolute : Bool) (ps : List String) : String :=
  match ps with
  | [] | [""] => if absolute then "/" else ""
  | ps => "/".intercalate ps

/-- The path without what follows the last part that counts. -/
def normalEnd (path : String) : String := ofParts (isAbsolute path) (trimmed path)

/-- The path without its last part; there is none for the root and the empty path. -/
def parent? (path : String) : Option String :=
  match trimmed path with
  | [] => none
  | ps => some (normalEnd (ofParts (isAbsolute path) ps.dropLast))

/-- The last part, if it names a file or directory. -/
def fileName? (path : String) : Option String :=
  match (trimmed path).getLast? with
  | some name => if name = "." ∨ name = ".." then none else some name
  | none => none

/-- A name up to its last dot; a dot at the beginning does not end it. -/
def stemOf (name : String) : String :=
  match Text.splitAt? ['.'] name.toList.reverse with
  | some (_, before) => if before = [] then name else String.ofList before.reverse
  | none => name

/-- The name of the file without its extension. -/
def fileStem? (path : String) : Option String := (fileName? path).map stemOf

/-- The path of `name` seen from `base`; an absolute name stands for itself. -/
def join (base name : String) : String :=
  if isAbsolute name ∨ base = "" then name
  else if base.toList.getLast? = some '/' then base ++ name
  else base ++ "/" ++ name

example : parent? "/media/./x.mp4" = some "/media" ∧ parent? "//x" = some "/" ∧
    parent? "/x" = some "/" ∧ parent? "x" = some "" ∧ parent? "/" = none := by decide +kernel

example : same "/media//in.mp4" "/media/in.mp4" ∧ same "a/./b/." "a/b" ∧ !same "./a" "a" ∧
    !same "" "." ∧ !same "/" "/.." ∧ !same "/a" "a" := by decide +kernel

example : fileStem? "archive.tar.gz" = some "archive.tar" ∧ fileStem? ".rc" = some ".rc" ∧
    fileStem? ".." = none ∧ fileStem? "..." = some ".." := by decide +kernel

end Montage.Path
