import Montage.Host.FileTree
import Montage.Script.Syntax

/-!
# The state of a running script

Files, variables and streams. Output goes into numbered buffers; each piece keeps the files of its
moment, so that the files at any point of the output are known.
-/

namespace Montage.Script

/-- Where the bytes written to a stream go. -/
inductive Sink where
  | buffer (index : Nat)
  | file (place : Location)
  | nowhere
  /-- A stream that was closed; writing to it fails. -/
  | closed
  deriving DecidableEq, Repr

/-- The buffer of the standard output. -/
def outputBuffer : Nat := 1

/-- The buffer of the standard error. -/
def errorBuffer : Nat := 2

/-- Why commands stop before their end. -/
inductive Stop where
  | exit (status : Nat)
  | leave (loops : Nat)
  | again (loops : Nat)
  | back (status : Nat)
  | killed (signal : Nat)
  deriving DecidableEq, Repr

/-- The values of environment variables. -/
abbrev Environment := String → Option String

/-- What all the processes of a script share. -/
structure World where
  files : FileTree
  /-- What was written to the buffers, last pieces first. -/
  written : List (Nat × List UInt8 × FileTree) := []
  nextBuffer : Nat := 3
  nextProcess : Nat := 4243

/-- The switches that a script can set. -/
structure Switches where
  /-- Whether a command that fails ends the script. -/
  strict : Bool := false
  /-- Whether parameters without a value are refused. -/
  complete : Bool := false

/-- The state of a running script. -/
structure State extends World where
  /-- How the script was called. -/
  name : String
  arguments : List String := []
  environment : Environment := fun _ => none
  /-- The values of variables; none for those that were unset. -/
  bindings : List (String × Option String) := []
  /-- The variables that other programs get. -/
  exported : List String := []
  /-- The old values of the variables that are local to a command with a name. -/
  hidden : List (String × Option String) := []
  commands : List (String × Command) := []
  /-- What is run when the script ends or gets a signal. -/
  traps : List (Nat × String) := []
  switches : Switches := {}
  status : Nat := 0
  /-- The status of the last commands whose output was inserted into a command. -/
  inserted : Option Nat := none
  /-- Whether the status of the present command is only a condition. -/
  guarded : Bool := false
  /-- The number of loops around the present command. -/
  loops : Nat := 0
  /-- The line of the last simple command. -/
  line : Nat := 1
  /-- The command that runs the present commands and in whose name they complain. -/
  speaker : Option String := none
  process : Nat := 4242
  /-- The last process in the background. -/
  lastJob : Option Nat := none
  input : List UInt8 := []
  /-- Whether the input is a file. -/
  steady : Bool := false
  /-- Where the output streams go. -/
  sinks : List (Nat × Sink) := [(1, .buffer outputBuffer), (2, .buffer errorBuffer)]

/-- A computation of a script. -/
abbrev Exec (α : Type) := ExceptT Stop (StateM State) α

namespace State

/-- The current directory. -/
def directory (s : State) : String := "/" ++ "/".intercalate s.files.current

/-- The values of the variables that every shell has. -/
def usual? (s : State) (name : String) : Option String :=
  match name with
  | "PWD" => some s.directory
  | "IFS" => some " \t\n"
  | "PPID" => some "4241"
  | "PATH" =>
      some ((s.environment name).getD
        "/usr/local/sbin:/usr/local/bin:/usr/sbin:/usr/bin:/sbin:/bin")
  | name => s.environment name

/-- The value of a variable; the environment gives those that were not assigned. -/
def value? (s : State) (name : String) : Option String :=
  (s.bindings.lookup name).getD (s.usual? name)

/-- The state with another value of a variable, or with none. -/
def bind (s : State) (name : String) (value : Option String) : State :=
  { s with bindings := (name, value) :: s.bindings.filter fun v => v.1 ≠ name }

/-- The environment of the programs that the script starts. -/
def childEnvironment (s : State) : Environment := fun name =>
  match s.bindings.lookup name with
  | some value =>
      if s.exported.contains name || (s.environment name).isSome then value else none
  | none => s.environment name

/-- The bytes in a buffer. -/
def bufferText (s : State) (index : Nat) : List UInt8 :=
  ((s.written.filter fun w => w.1 = index).reverse.map fun w => w.2.1).flatten

/-- Adds bytes to a file. -/
def addToFile (t : FileTree) (place : Location) (bytes : List UInt8) : FileTree :=
  match t.entry? place with
  | some (.file old executable) => t.put place (.file (old ++ bytes) executable)
  | some _ => t
  | none => t.put place (.file bytes false)

/-- The state after bytes were written to a sink. -/
def writeTo (s : State) (sink : Sink) (bytes : List UInt8) : State :=
  if bytes = [] then s
  else
    match sink with
    | .buffer index => { s with written := (index, bytes, s.files) :: s.written }
    | .file place => { s with files := addToFile s.files place bytes }
    | .nowhere | .closed => s

/-- Where a stream goes. -/
def sink (s : State) (stream : Nat) : Sink := (s.sinks.lookup stream).getD .closed

/-- The state after bytes were written to a stream. -/
def write (s : State) (stream : Nat) (bytes : List UInt8) : State := s.writeTo (s.sink stream) bytes

/-- The state with a stream that goes somewhere else. -/
def redirect (s : State) (stream : Nat) (sink : Sink) : State :=
  { s with sinks := (stream, sink) :: s.sinks.filter fun p => p.1 ≠ stream }

/-- The first character between fields, which also joins arguments. -/
def joint (s : State) : String :=
  match s.value? "IFS" with
  | none => " "
  | some text => String.ofList (text.toList.take 1)

/-- The value of a parameter, if it has one; the arguments count as one text. -/
def parameter? (s : State) (name : String) : Option String :=
  match name with
  | "#" => some (toString s.arguments.length)
  | "?" => some (toString s.status)
  | "$" => some (toString s.process)
  | "!" => s.lastJob.map toString
  | "@" | "*" => some (s.joint.intercalate s.arguments)
  | "0" => some s.name
  | name =>
      match name.toNat? with
      | some n => s.arguments[n - 1]?
      | none => s.value? name

/-- The value of a parameter; no value is an empty text. -/
def parameter (s : State) (name : String) : String := (s.parameter? name).getD ""

end State

end Montage.Script
