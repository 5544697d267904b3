import Montage.Script.Fields
import Montage.Script.Parser
import Montage.Script.System

/-!
# The commands of the shell itself

The commands that change the state of the script and run no other commands.
-/

namespace Montage.Script

/-- Complains about a line of the script. -/
def complainAt (line : Nat) (message : String) : Exec Unit :=
  modify fun s => s.write 2 (Text.toBytes s!"{s.name}: {line}: {message}\n")

/-- Complains about the present line of the script. -/
def complain (message : String) : Exec Unit := do complainAt (← get).line message

/-- A complaint in the name of the command that runs the present ones. -/
def State.spoken (s : State) (message : String) : String :=
  match s.speaker with
  | some name => s!"{name}: {message}"
  | none => message

/-- Complains in the name of the command that runs the present ones. -/
def report (message : String) : Exec Unit := do complain ((← get).spoken message)

/-- Complains in the name of the command that runs the present ones, and ends the script. -/
def fail {α : Type} (message : String) : Exec α := do
  report message
  throw (.exit 2)

/-- Complains and ends the script. -/
def abort {α : Type} (message : String) : Exec α := do
  complain message
  throw (.exit 2)

/-- Sets the status. -/
def setStatus (status : Nat) : Exec Unit := modify fun s => { s with status }

/-- Complains and sets the status. -/
def refuse (status : Nat) (message : String) : Exec Unit := do
  complain message
  setStatus status

/-- Assigns a value to a variable. -/
def assign (name value : String) : Exec Unit := modify fun s => s.bind name (some value)

/-- The refusal to write a file, as the shell puts it. -/
def creationReason (e : OsError) : String :=
  match e with
  | .notFound => "Directory nonexistent"
  | e => Tool.reason e

/-- The refusal to read a file, as the shell puts it. -/
def openingReason (e : OsError) : String :=
  match e with
  | .notFound => "No such file"
  | e => Tool.reason e

/-- Opens a file for writing. -/
def openOutput (appending : Bool) (path : String) : Exec Sink := do
  let s ← get
  match path with
  | "/dev/stdout" => return s.sink 1
  | "/dev/stderr" => return s.sink 2
  | path =>
      let place := s.files.locate path
      if place.toOption.any fun place => Tool.devices.contains ("/" ++ "/".intercalate place) then
        return .nowhere
      let written := if appending then s.files.touch path else s.files.write path []
      match written, place with
      | .ok files, .ok place =>
          set { s with files }
          return .file place
      | .error e, _ | _, .error e => fail s!"cannot create {path}: {creationReason e}"

/-- The input from a file, and whether it stays what it is. -/
def openInput (path : String) : Exec (List UInt8 × Bool) := do
  let s ← get
  match Tool.device? path s.input with
  | some input => return (input, path = "/dev/stdin" && s.steady)
  | none =>
      match s.files.read path with
      | .ok input => return (input, true)
      | .error .isADirectory => return ([], false)
      | .error e => fail s!"cannot open {path}: {openingReason e}"

/-- The number that an argument of a command gives. -/
def numberArgument (command : String) (args : List String) (usual : Nat) : Exec Nat := do
  match args with
  | [] => return usual
  | arg :: _ =>
      match Decimal.natOfText? arg.toList with
      | some n => if n < 2147483648 then return n else abort s!"{command}: Illegal number: {arg}"
      | none => abort s!"{command}: Illegal number: {arg}"

/-- Leaves some loops, or goes on with one of them. -/
def leaveLoops (command : String) (args : List String) (stop : Nat → Stop) : Exec Unit := do
  let n ← numberArgument command args 1
  let shown := args.headD ""
  if n = 0 then abort s!"{command}: Illegal number: {shown}"
  let loops := (← get).loops
  if loops = 0 then setStatus 0 else throw (stop (min n loops))

/-- Drops some arguments of the script. -/
def shift (args : List String) : Exec Unit := do
  let n ← numberArgument "shift" args 1
  let s ← get
  if s.arguments.length < n then abort "shift: can't shift that many"
  set { s with arguments := s.arguments.drop n, status := 0 }

/-- Removes variables, or commands with names. -/
def unset (args : List String) : Exec Unit := do
  let ofCommands := args.head? = some "-f"
  let names := if ofCommands || args.head? = some "-v" then args.tail else args
  for name in names do
    if name.startsWith "-" then abort s!"unset: Illegal option {name}"
    if ofCommands then
      modify fun s => { s with commands := s.commands.filter fun c => c.1 ≠ name }
    else
      modify fun s => { s.bind name none with exported := s.exported.filter fun e => e ≠ name }
  setStatus 0

/-- Marks variables, which may get values first. -/
def declare (command : String) (args : List String) (mark : String → Exec Unit) : Exec Unit := do
  for arg in args do
    let (name, value) :=
      match Text.splitAt? ['='] arg.toList with
      | some (name, value) => (name, some (String.ofList value))
      | none => (arg.toList, none)
    if !isName name then abort s!"{command}: {String.ofList name}: bad variable name"
    if command = "local" then mark (String.ofList name)
    match value with
    | some value => assign (String.ofList name) value
    | none => pure ()
    if command ≠ "local" then mark (String.ofList name)
  setStatus 0

/-- Marks a variable for other programs. -/
def publish (name : String) : Exec Unit := modify fun s => { s with exported := name :: s.exported }

/-- Marks a variable that is local to the present command. -/
def hide (name : String) : Exec Unit :=
  modify fun s => { s with hidden := (name, s.value? name) :: s.hidden }

/-- Changes the current directory. -/
def changeDirectory (args : List String) : Exec Unit := do
  let s ← get
  let target := args.headD ((s.value? "HOME").getD "")
  let path := if target = "-" then (s.value? "OLDPWD").getD "" else target
  let named := (Path.parts path).foldl FileTree.step (FileTree.start path s.files.current)
  let whole := "/" ++ "/".intercalate named
  match s.files.hasDirectory whole, s.files.locate whole with
  | true, .ok place =>
      set { s.bind "OLDPWD" (some s.directory) with
        files := { s.files with current := place }, status := 0 }
      if target = "-" then modify fun s => s.write 1 (Text.toBytes s!"{s.directory}\n")
  | _, _ => refuse 2 s!"cd: can't cd to {target}"

/-- A line of the input with its marks, and what follows it; none for the second if the input ends
in it. A backslash hides the next character, unless it counts as any other. -/
def readMarked (raw : Bool) : List Char → Field × Option (List Char)
  | [] => ([], none)
  | '\n' :: rest => ([], some rest)
  | '\\' :: c :: rest =>
      if raw then
        let (line, rest) := readMarked raw (c :: rest)
        (('\\', false) :: line, rest)
      else
        let (line, rest) := readMarked raw rest
        (if c = '\n' then line else (c, true) :: line, rest)
  | c :: rest =>
      let (line, rest) := readMarked raw rest
      ((c, false) :: line, rest)

/-- The values of variables that share a line; the last one gets what is left. -/
def shares (separators : List Char) : Nat → Field → List String
  | count, line =>
      let isSeparator (m : Marked) : Bool := !m.2 && separators.contains m.1
      let isBlank (m : Marked) : Bool := isSeparator m && (m.1 = ' ' || m.1 = '\t' || m.1 = '\n')
      let line := line.dropWhile isBlank
      match count with
      | 0 => []
      | 1 =>
          let text := (line.reverse.dropWhile isBlank).reverse
          let rest := text.dropWhile fun m => !isSeparator m
          -- One separator at the end of a single value does not count.
          [Field.text (if rest.length = 1 then text.dropLast else text)]
      | count + 1 =>
          let word := line.takeWhile fun m => !isSeparator m
          let rest := (line.drop word.length).dropWhile isBlank
          let rest :=
            match rest with
            | m :: more => if isSeparator m then more else m :: more
            | [] => []
          Field.text word :: shares separators count rest

/-- Reads a line of the input into variables. -/
def readLine (args : List String) : Exec Unit := do
  let raw := args.head? = some "-r"
  match if raw then args.tail else args with
  | [] => refuse 2 "read: arg count"
  | names =>
      match names.find? fun name => !isName name.toList with
      | some name => refuse 2 s!"read: {name}: bad variable name"
      | none =>
          let s ← get
          let (line, rest) := readMarked raw (Text.charsOf s.input)
          let separators := ((s.value? "IFS").getD " \t\n").toList
          for (name, value) in names.zip (shares separators names.length line) do
            assign name value
          modify fun s =>
            { s with
              input := Text.bytesOf (rest.getD [])
              status := if rest.isNone then 1 else 0 }

/-- The switches after a letter that sets or clears one; none if there is no such letter. -/
def Switches.change? (w : Switches) (on : Bool) (letter : Char) : Option Switches :=
  match letter with
  | 'e' => some { w with strict := on }
  | 'u' => some { w with complete := on }
  | _ => none

/-- The switches after some options, and the arguments that follow them, if there are any. An option
that is no switch is the error. -/
def readSwitches (w : Switches) : List String → Except String (Switches × Option (List String))
  | [] => .ok (w, none)
  | arg :: rest =>
      match arg.toList with
      | ['-', '-'] => .ok (w, some rest)
      | sign :: letters =>
          if (sign = '-' ∨ sign = '+') ∧ letters ≠ [] then do
            let w ← letters.foldlM (fun (w : Switches) letter =>
              match w.change? (sign = '-') letter with
              | some w => .ok w
              | none => .error s!"-{letter}") w
            readSwitches w rest
          else .ok (w, some (arg :: rest))
      | [] => .ok (w, some (arg :: rest))

/-- Sets switches and the arguments of the script. -/
def setOptions (args : List String) : Exec Unit := do
  let s ← get
  match readSwitches s.switches args with
  | .error option => abort s!"set: Illegal option {option}"
  | .ok (switches, arguments) =>
      set { s with switches, status := 0, arguments := arguments.getD s.arguments }

/-- The commands that the shell has besides its tools. -/
def commandNames : List String :=
  specialNames ++ ["cd", "command", "kill", "local", "read", "wait"]

/-- Tells how a command is called, if there is one with a name. -/
def explain (name : String) : Exec Unit := do
  let s ← get
  let isOwn := (s.commands.lookup name).isSome || commandNames.contains name ||
    (Tool.builtIn? name).isSome
  let found := if isOwn then .ok name
    else (findProgram (some (s.parameter "PATH")) name [] s.files).map Prod.fst
  match found with
  | .ok path =>
      modify fun s => s.write 1 (Text.toBytes s!"{path}\n")
      setStatus 0
  | .error _ => setStatus 127

/-- Does what a tool does. The complaints of the shell's own tools tell the line; what a tool cannot
write is a failure. -/
def perform (own : Bool) (name : String) (e : Effect) : Exec Unit := do
  let s ← get
  set { s with files := e.files, status := e.status, input := e.left.getD s.input }
  for w in e.writings do
    match w with
    | .shown bytes => modify fun s => s.write 1 bytes
    | .complaint line =>
        if own then complain line else modify fun s => s.write 2 (Text.toBytes s!"{line}\n")
  let isShown := e.writings.any fun w => (w matches .shown _) && w ≠ .shown []
  if s.sink 1 = .closed ∧ isShown then
    if own then refuse 1 s!"{name}: {name}: I/O error"
    else
      let line := s!"{name}: write error: Bad file descriptor\n"
      modify fun s => { s.write 2 (Text.toBytes line) with status := 1 }

/-- The way in which a program is called. -/
def callOf (s : State) (name : String) (arguments : List String) : Call :=
  { name, arguments, input := s.input, steady := s.steady, files := s.files }

/-- Runs a tool of the shell itself. -/
def runBuiltIn (name : String) (tool : Tool) (args : List String) : Exec Unit := do
  perform true name (tool (callOf (← get) name args))

end Montage.Script
