import Montage.Path
import Montage.Text.Utf8

/-!
# File trees

Directories, files and links below a root. Paths are followed one part at a time: each part but the
last has to name a directory, or a link to one. An operation that fails changes nothing, except for
the creation of several directories, which keeps those it has made.
-/

namespace Montage

/-- The reasons for which a file or program is refused. -/
inductive OsError where
  | notFound
  | notExecutable
  | noPermission
  | alreadyExists
  | notADirectory
  | isADirectory
  | argumentsTooLong
  | tooManyLinks
  | nameTooLong
  | notEmpty
  | notText
  | nulInPath
  | nulInArgument
  | noWholeTree
  deriving DecidableEq, Repr

/-- The text of a refusal. -/
def OsError.message : OsError → String
  | notFound => "No such file or directory (os error 2)"
  | argumentsTooLong => "Argument list too long (os error 7)"
  | notExecutable => "Exec format error (os error 8)"
  | noPermission => "Permission denied (os error 13)"
  | alreadyExists => "File exists (os error 17)"
  | notADirectory => "Not a directory (os error 20)"
  | isADirectory => "Is a directory (os error 21)"
  | nameTooLong => "File name too long (os error 36)"
  | notEmpty => "Directory not empty (os error 39)"
  | tooManyLinks => "Too many levels of symbolic links (os error 40)"
  | notText => "stream did not contain valid UTF-8"
  | nulInPath => "file name contained an unexpected NUL byte"
  | nulInArgument => "nul byte found in provided data"
  | noWholeTree => "failed to create whole tree"

/-- What a location holds. -/
inductive Entry where
  | directory
  | file (bytes : List UInt8) (executable : Bool)
  /-- Another name for what a path leads to, seen from the directory of the link. -/
  | link (target : String)
  deriving DecidableEq

/-- A place in the tree: the names from the root down, none of them empty or made of dots only. -/
abbrev Location := List String

/-- A location with its depth in front, which tells most locations apart at once. -/
def Location.key (place : Location) : Nat × Location := (place.length, place)

/-- What the locations other than the root hold, and the location that relative paths start
from. -/
structure FileTree where
  entries : List ((Nat × Location) × Entry) := []
  current : Location := []
  /-- Whether names are byte texts. -/
  bytewise : Bool := false
  deriving DecidableEq

namespace FileTree

/-- What a location holds; the root is always a directory. -/
def entry? (t : FileTree) (place : Location) : Option Entry :=
  if place = [] then some .directory else t.entries.lookup (Location.key place)

/-- The locations other than the root with what they hold. -/
def contents (t : FileTree) : List (Location × Entry) := t.entries.map fun e => (e.1.2, e.2)

/-- The tree with something else at a location. -/
def put (t : FileTree) (place : Location) (entry : Entry) : FileTree :=
  let key := Location.key place
  { t with entries := (key, entry) :: t.entries.filter fun e => e.1 ≠ key }

/-- The tree with nothing at a location. -/
def drop (t : FileTree) (place : Location) : FileTree :=
  let key := Location.key place
  { t with entries := t.entries.filter fun e => e.1 ≠ key }

/-- The tree with nothing at a location and below it. -/
def dropAll (t : FileTree) (place : Location) : FileTree :=
  { t with entries := t.entries.filter fun e => !place.isPrefixOf e.1.2 }

/-- One step along a path. -/
def step (here : Location) (part : String) : Location :=
  if part = "" ∨ part = "." then here
  else if part = ".." then here.dropLast
  else here ++ [part]

/-- The number of bytes of a name or path. -/
def sizeOf (t : FileTree) (name : String) : Nat :=
  if t.bytewise then name.length else name.utf8ByteSize

/-- The same tree with its names written otherwise. -/
def respelled (t : FileTree) (bytewise : Bool) (spelling : String → String) : FileTree :=
  { entries := t.entries.map fun ((depth, place), entry) =>
      ((depth, place.map spelling),
        match entry with
        | .link target => .link (spelling target)
        | entry => entry)
    current := t.current.map spelling
    bytewise }

/-- The greatest length of a name, in bytes. -/
def longestName : Nat := 255

/-- Where the following of a path starts, seen from a directory. -/
def start (path : String) (here : Location) : Location := if Path.isAbsolute path then [] else here

/-- Follows the parts of a path; what the last one leads to need not exist. What links lead to is
followed by `beyond`; a link in the last place is followed only if `final` says so. -/
def walkWith (t : FileTree) (final : Bool)
    (beyond : Location → List String → Except OsError Location) :
    Location → List String → Except OsError Location
  | here, [] =>
      match t.entry? here with
      | some (.link target) =>
          if final then beyond (start target here.dropLast) (Path.parts target) else .ok here
      | _ => .ok here
  | here, part :: rest =>
      match t.entry? here with
      | none => .error .notFound
      | some (.file ..) => .error .notADirectory
      | some (.link target) =>
          beyond (start target here.dropLast) (Path.parts target ++ part :: rest)
      | some .directory =>
          if longestName < t.sizeOf part then .error .nameTooLong
          else t.walkWith final beyond (step here part) rest

/-- Follows the parts of a path and up to so many links. -/
def walk (t : FileTree) (final : Bool) : Nat → Location → List String → Except OsError Location
  | 0 => t.walkWith final fun _ _ => .error .tooManyLinks
  | links + 1 => t.walkWith final (t.walk final links)

/-- The number of links that one path may lead through. -/
def linkLimit : Nat := 40

/-- The length in bytes from which on a path is refused. -/
def longestPath : Nat := 4096

/-- Refuses texts that are no paths. -/
def checkPath (t : FileTree) (path : String) : Except OsError Unit :=
  if path = "" then .error .notFound
  else if path.toList.contains '\x00' then .error .nulInPath
  else if longestPath ≤ t.sizeOf path then .error .nameTooLong
  else .ok ()

/-- Follows some parts from where a path starts. A link in the last place is followed only if
`final` says so. -/
def follow (t : FileTree) (final : Bool) (path : String) (parts : List String) :
    Except OsError Location := do
  t.checkPath path
  t.walk final linkLimit (start path t.current) parts

/-- The location that a path leads to. -/
def locate (t : FileTree) (path : String) : Except OsError Location :=
  t.follow true path (Path.parts path)

/-- The location that a path names, which may be that of a link. Slashes at its end do not count. -/
def locateEntry (t : FileTree) (path : String) : Except OsError Location :=
  t.follow false path (Path.partsToName path)

/-- The location of a file that may have to be created. A path that ends in a slash stands for a
directory, whether it is there or not. -/
def locateFile (t : FileTree) (path : String) : Except OsError Location := do
  if Path.endsInSlash path then
    let _ ← t.follow true path ((Path.partsToName path).dropLast ++ [""])
    throw .isADirectory
  else t.locate path

/-- What a path leads to. -/
def find (t : FileTree) (path : String) : Except OsError Entry := do
  match t.entry? (← t.locate path) with
  | some entry => return entry
  | none => throw .notFound

/-- What a path names, which may be a link. -/
def findEntry (t : FileTree) (path : String) : Except OsError Entry := do
  if Path.endsInSlash path then t.find path
  else
    match t.entry? (← t.locateEntry path) with
    | some entry => return entry
    | none => throw .notFound

/-- Whether a path leads to something. -/
def has (t : FileTree) (path : String) : Bool := (t.find path).isOk

/-- Whether a path leads to a directory. -/
def hasDirectory (t : FileTree) (path : String) : Bool :=
  match t.find path with
  | .ok .directory => true
  | _ => false

/-- The bytes of a file. -/
def read (t : FileTree) (path : String) : Except OsError (List UInt8) := do
  match ← t.find path with
  | .file bytes _ => return bytes
  | .directory => throw .isADirectory
  | .link _ => throw .tooManyLinks

/-- The text of a file. -/
def readText (t : FileTree) (path : String) : Except OsError String := do
  match Text.decodeUtf8? (← t.read path) with
  | some text => return text
  | none => throw .notText

/-- The tree after a file was created or its contents were replaced. -/
def write (t : FileTree) (path : String) (bytes : List UInt8) : Except OsError FileTree := do
  let place ← t.locateFile path
  match t.entry? place with
  | some .directory => throw .isADirectory
  | some (.file _ executable) => return t.put place (.file bytes executable)
  | some (.link _) => throw .tooManyLinks
  | none => return t.put place (.file bytes false)

/-- The tree after a file was created, unless it was there. -/
def touch (t : FileTree) (path : String) : Except OsError FileTree := do
  let place ← t.locateFile path
  match t.entry? place with
  | some .directory => throw .isADirectory
  | some (.file ..) => return t
  | some (.link _) => throw .tooManyLinks
  | none => return t.put place (.file [] false)

/-- The tree with something at a path that names nothing yet; its parent has to exist. Only the path
of a directory may end in slashes. -/
def create (t : FileTree) (path : String) (entry : Entry) : Except OsError FileTree := do
  let place ← t.locateEntry path
  match t.entry? place with
  | some _ => throw .alreadyExists
  | none =>
      if Path.endsInSlash path ∧ entry ≠ .directory then throw .notFound
      else return t.put place entry

/-- The tree after a directory was created. -/
def createDirectory (t : FileTree) (path : String) : Except OsError FileTree :=
  t.create path .directory

/-- The tree after a link was created; what it leads to need not exist. -/
def createLink (t : FileTree) (path target : String) : Except OsError FileTree := do
  t.checkPath target
  t.create path (.link target)

/-- Creates a directory, and first its parents where they are missing; `depth` bounds their
number. -/
def createFrom (t : FileTree) : Nat → String → FileTree × Except OsError Unit
  | 0, _ => (t, .error .noWholeTree)
  | depth + 1, path =>
      if path = "" then (t, .ok ())
      else
        match t.createDirectory path with
        | .ok t => (t, .ok ())
        | .error .notFound =>
            match Path.parent? path with
            | none => (t, .error .noWholeTree)
            | some parent =>
                match t.createFrom depth parent with
                | (t, .error e) => (t, .error e)
                | (t, .ok _) =>
                    match t.createDirectory path with
                    | .ok t => (t, .ok ())
                    | .error e => if t.hasDirectory path then (t, .ok ()) else (t, .error e)
        | .error e => if t.hasDirectory path then (t, .ok ()) else (t, .error e)

/-- Creates a directory and its missing parents. Nothing is wrong when it is there already. -/
def createDirectories (t : FileTree) (path : String) : FileTree × Except OsError Unit :=
  t.createFrom (path.length + 1) path

/-- The tree after a file or link was removed. -/
def removeFile (t : FileTree) (path : String) : Except OsError FileTree := do
  let place ← t.locateEntry path
  match t.entry? place with
  | none => throw .notFound
  | some .directory => throw .isADirectory
  | some _ => if Path.endsInSlash path then throw .notADirectory else return t.drop place

/-- The tree after a file was removed, or as it was when that failed. -/
def withoutFile (t : FileTree) (path : String) : FileTree := (t.removeFile path).toOption.getD t

/-- The tree after a directory was removed with all it held, or as it was when that failed. Of a
link to a directory, only the link is removed. -/
def withoutDirectory (t : FileTree) (path : String) : FileTree :=
  match t.locateEntry path with
  | .error _ => t
  | .ok place =>
      match t.entry? place with
      | some .directory => t.dropAll place
      | some (.link _) => t.drop place
      | _ => t

/-- What a location is called from one above it. -/
def nameBelow? (above place : Location) : Option String :=
  if above.isPrefixOf place ∧ above ≠ place then
    some ("/".intercalate (place.drop above.length))
  else none

/-- The names of all that is below a location; a directory ends in a slash. What a link is listed as
is given by its name and location. -/
def namesWith (t : FileTree) (ofLink : String → Location → List String) (above : Location) :
    List String :=
  t.contents.flatMap fun (place, entry) =>
    match nameBelow? above place, entry with
    | none, _ => []
    | some name, .file .. => [name]
    | some name, .directory => [name ++ "/"]
    | some name, .link _ => ofLink name place

/-- The names of all that is below a location. Links to directories are listed like these, up to so
many inside each other. -/
def namesBelow (t : FileTree) : Nat → Location → List String
  | 0 => t.namesWith fun name _ => [name]
  | links + 1 =>
      t.namesWith fun name place =>
        match t.walk true linkLimit place [] with
        | .error _ => [name]
        | .ok goal =>
            if t.entry? goal = some .directory then
              (name ++ "/") :: (t.namesBelow links goal).map (name ++ "/" ++ ·)
            else [name]

/-- The names of all that is below a location, sorted. -/
def listing (t : FileTree) (place : Location) : List String :=
  (t.namesBelow linkLimit place).mergeSort fun a b => a ≤ b

end FileTree

end Montage
