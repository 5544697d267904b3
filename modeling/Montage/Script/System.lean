import Montage.Script.Calculator
import Montage.Script.Condition
import Montage.Script.FileTools
import Montage.Script.Filters
import Montage.Script.Formatting
import Montage.Script.Matching
import Montage.Script.State

/-!
# The system

The system has a shell and some tools. A program is found by its path, or by its name in some
directories. A file that begins with the name of an interpreter is run by that, which may have to be
looked for in turn; other files cannot be run.
-/

/-! ## The tools of scripts

The tools by their names: those that the shell has itself, and the programs of the system. -/

namespace Montage.Script.Tool

/-- The tools of the shell itself. -/
def builtIns : List (String × Tool) := [
  ("echo", echo), ("printf", printf), ("pwd", pwd), ("test", Condition.tool false),
  ("[", Condition.tool true), ("true", idle 0), (":", idle 0), ("false", idle 1)]

/-- A tool of the shell itself. -/
def builtIn? (name : String) : Option Tool := builtIns.lookup name

/-- The tools among the programs of the system. -/
def programs : List (String × Tool) := [
  ("true", idle 0), ("false", idle 1), ("sleep", idle 0), ("cat", cat), ("tee", tee), ("yes", yes),
  ("seq", seq), ("head", head), ("tail", tail), ("wc", wc), ("tr", tr), ("cut", cut),
  ("sort", sort), ("uniq", uniq), ("expr", expr), ("grep", grep), ("sed", sed), ("mkdir", mkdir),
  ("rmdir", rmdir), ("rm", rm), ("touch", touch), ("chmod", chmod), ("ln", ln), ("cp", cp),
  ("mv", mv), ("ls", ls), ("basename", basename), ("dirname", dirname)]

/-- A program of the system. -/
def program? (name : String) : Option Tool := programs.lookup name

end Montage.Script.Tool

/-! ## Finding programs -/

namespace Montage.Script

/-- A program of the system. -/
inductive Program where
  | tool (run : Tool)
  | shell
  /-- Runs the program that its arguments name. -/
  | runner

/-- A program of the system by its name. -/
def Program.named? (name : String) : Option Program :=
  match name with
  | "sh" | "dash" | "bash" => some .shell
  | "env" => some .runner
  | name => (Tool.program? name).map .tool

/-- The names of the programs of the system. -/
def Program.names : List String := ["dash", "bash", "env"] ++ Tool.programs.map Prod.fst

/-- A program with all its arguments, of which the first one is how it was called. -/
abbrev Invocation := Program × List String

/-- The bytes with which the file of a program of the system begins. -/
def programMark : List UInt8 := [0x7F, 0x45, 0x4C, 0x46]

/-- The file of a program of the system. -/
def Program.file (name : String) : Entry := .file (programMark ++ Text.encodeUtf8 name) true

/-- The program of the system whose file holds some bytes. -/
def Program.ofBytes? (bytes : List UInt8) : Option Program :=
  if programMark.isPrefixOf bytes then
    (Text.decodeUtf8? (bytes.drop programMark.length)).bind Program.named?
  else none

/-- The number of bytes at the beginning of a file that may name an interpreter. -/
def headSize : Nat := 256

/-- Whether a byte is a blank. -/
def isBlankByte (b : UInt8) : Bool := b = 32 || b = 9

/-- The interpreter that a file names in its first line, and one argument for it. A line that is cut
off has to show where the name ends. -/
def interpreter? (bytes : List UInt8) : Option (String × Option String) :=
  match bytes.take headSize with
  | 35 :: 33 :: start =>
      let whole := start.takeWhile (· ≠ 0)
      let line := whole.takeWhile (· ≠ 10)
      let ends := line.length < whole.length
      let isCut := !ends && whole.length + 2 = headSize
      let text := line.dropWhile isBlankByte
      let text := if ends then (text.reverse.dropWhile isBlankByte).reverse else text
      let name := text.takeWhile fun b => !isBlankByte b
      let argument := (text.drop name.length).dropWhile isBlankByte
      if name = [] && (ends || isCut) then none
      else if isCut && name.length = text.length then none
      else
        some (Text.ofBytes name,
          if argument = [] then none else some (Text.ofBytes argument))
  | _ => none

example : interpreter? (Text.toBytes "#! /bin/sh -e \nx") = some ("/bin/sh", some "-e") ∧
    interpreter? (Text.toBytes "#!/bin/sh\r\n") = some ("/bin/sh\r", none) ∧
    interpreter? (Text.toBytes "#! \n") = none ∧
    interpreter? (Text.toBytes "echo") = none := by decide +kernel

/-- The size in bytes from which on an argument is refused. -/
def argumentLimit : Nat := 131072

/-- The number of programs that one program may lead to. -/
def chainLimit : Nat := 6

/-- What is run when a path is run with some arguments, the first of which is how it is called. -/
def resolve (t : FileTree) : Nat → String → List String → Except OsError Invocation
  | 0, _, _ => .error .tooManyLinks
  | depth + 1, path, args => do
      let tooLong := args.any fun a => argumentLimit ≤ a.length
      match t.find path with
      | .ok .directory | .ok (.link _) | .ok (.file _ false) => throw .noPermission
      | .ok (.file bytes true) =>
          if tooLong then throw .argumentsTooLong
          match interpreter? bytes with
          | some (name, argument) =>
              if name = "" then throw .noPermission
              resolve t depth name (name :: (argument.toList ++ path :: args.drop 1))
          | none =>
              match Program.ofBytes? bytes with
              | some program => return (program, args)
              | none => throw .notExecutable
      | .error e => throw e

/-- The directories that programs are looked for in, when the environment does not say. -/
def usualPath : String := "/bin:/usr/bin"

/-- The paths that a name may stand for; in an empty directory name, it stands for itself. -/
def candidates (path : Option String) (name : String) : List String :=
  (Text.splitOnChar ':' (path.getD usualPath).toList).map fun dir =>
    if dir = [] then name else String.ofList dir ++ "/" ++ name

/-- The first of some paths that can be run. One that may not be run is only reported when there is
no other one. -/
def firstOf (t : FileTree) (args : List String) (refusal : OsError) :
    List String → Except OsError (String × Invocation)
  | [] => .error refusal
  | path :: rest =>
      match resolve t chainLimit path args with
      | .ok found => .ok (path, found)
      | .error .noPermission => firstOf t args .noPermission rest
      | .error .notFound | .error .notADirectory => firstOf t args refusal rest
      | .error e => .error e

/-- What is run when a program is called by its name or path. -/
def findProgram (path : Option String) (name : String) (args : List String) (t : FileTree) :
    Except OsError (String × Invocation) :=
  if name.toList.contains '/' then (resolve t chainLimit name args).map fun found => (name, found)
  else if name = "" then .error .notFound
  else if FileTree.longestName < name.length then .error .nameTooLong
  else firstOf t args .notFound (candidates path name)

/-! ## What a machine holds -/

/-- A tree with the programs of the system. -/
def programTree : FileTree :=
  let directories := [["usr"], ["usr", "bin"], ["usr", "sbin"], ["usr", "lib"]].map fun place =>
    (place, Entry.directory)
  let links := ["bin", "sbin", "lib"].map fun name => ([name], Entry.link ("usr/" ++ name))
  let shell := [(["usr", "bin", "sh"], Entry.link "dash")]
  let files := Program.names.map fun name => (["usr", "bin", name], Program.file name)
  { entries := (directories ++ links ++ shell ++ files).map fun (place, entry) =>
      (Location.key place, entry) }

/-- The directories of a machine. -/
def systemDirectories : List String :=
  ["boot", "dev", "etc", "home", "mnt", "opt", "proc", "root", "run", "srv", "sys", "tmp",
   "usr/local", "usr/local/bin", "usr/local/sbin", "usr/share", "var", "var/tmp"]

/-- The devices and settings of a machine. -/
def systemFiles : List (String × String) :=
  [("dev/null", ""), ("dev/zero", ""), ("dev/full", ""), ("dev/random", ""), ("dev/urandom", ""),
   ("etc/passwd", "root:x:0:0:root:/root:/bin/sh\n"), ("etc/group", "root:x:0:\n"),
   ("etc/hosts", "127.0.0.1 localhost\n"), ("etc/hostname", "host\n")]

/-- A tree with all that a machine holds. -/
def systemTree : FileTree :=
  let directories := systemDirectories.map fun path => (Path.parts path, Entry.directory)
  let files := systemFiles.map fun (path, text) =>
    (Path.parts path, Entry.file (Text.encodeUtf8 text) false)
  { entries := programTree.entries ++
      (directories ++ files).map fun (place, entry) => (Location.key place, entry) }

end Montage.Script
