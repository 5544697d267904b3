import Montage.Decimal.Reader
import Montage.Fault
import Montage.Host.FileTree
import Montage.Text.Visible

/-!
# Scratch directories

A render keeps its intermediate files in a directory of its own. Every path that it hands out is
registered, and the cleanup removes the registered files and then the directory.
-/

namespace Montage

/-- A directory for intermediate files, and the paths that were handed out. -/
structure Scratch where
  root : String
  registered : List String := []
  nextId : Nat := 0
  isOpen : Bool := true
  deriving DecidableEq, Repr

namespace Scratch

/-- The beginning of the names of scratch directories. -/
def nameStart : String := "reelcut-render-"

/-- Where a scratch directory with the given suffix stands in a directory. -/
def rootIn (t : FileTree) (parent suffix : String) : String :=
  let whole :=
    if Path.isAbsolute parent then parent
    else Path.join ("/" ++ "/".intercalate t.current) parent
  Path.join whole (nameStart ++ suffix)

/-- Makes a scratch directory in a directory that exists. -/
def new (t : FileTree) (parent suffix : String) : Except Fault (FileTree × Scratch) :=
  let root := rootIn t parent suffix
  match t.createDirectory root with
  | .ok t => .ok (t, { root })
  | .error e => .error (.io s!"{e.message} at path {Text.quoted root}")

/-- The name of the file with a number. -/
def fileName (stem extension : String) (id : Nat) : String :=
  s!"{stem}-{String.ofList (Decimal.padded 3 id)}.{extension}"

/-- Hands out a path, which is registered. No file is made. -/
def allocate (s : Scratch) (stem extension : String) : Scratch × String :=
  let path := Path.join s.root (fileName stem extension s.nextId)
  ({ s with registered := s.registered ++ [path], nextId := s.nextId + 1 }, path)

/-- Hands out a path and writes a file there. The path stays registered when the file cannot be
written. -/
def write (s : Scratch) (t : FileTree) (stem extension : String) (bytes : List UInt8) :
    Scratch × Except Fault (FileTree × String) :=
  let (s, path) := s.allocate stem extension
  match t.write path bytes with
  | .ok t => (s, .ok (t, path))
  | .error e => (s, .error (.io e.message))

/-- Removes the registered files and the directory. What cannot be removed stays. -/
def cleanup (s : Scratch) (t : FileTree) : Scratch × FileTree :=
  let t := s.registered.foldl FileTree.withoutFile t
  let t := if s.isOpen then t.withoutDirectory s.root else t
  ({ s with registered := [], isOpen := false }, t)

end Scratch

end Montage
