import Montage.Script.Arithmetic
import Montage.Script.Signals

/-!
# Running a script

Commands are run one after the other, also those of a pipeline, whose stages get the whole output
of the stage before. A script that goes on for too long is killed.
-/

namespace Montage.Script

/-- A value after a change of its text. -/
def Change.cut (value : List Char) (pattern : Field) : Change → List Char
  | .withoutStart _ longest => Script.withoutStart pattern longest value
  | .withoutEnd _ longest => Script.withoutEnd pattern longest value
  | _ => value

/-- Without the line ends at the end. -/
def withoutLineEnds (chars : List Char) : List Char :=
  (chars.reverse.dropWhile (· = '\n')).reverse

/-- Runs something and puts right afterwards what it has changed, however it ends. -/
def restoring {α : Type} (restore : State → State) (body : Exec α) : Exec α := do
  try
    let a ← body
    modify restore
    return a
  catch stop =>
    modify restore
    throw stop

/-- Runs something whose redirections do not outlast it. -/
def keepingStreams {α : Type} (ownInput : Bool) (body : Exec α) : Exec α := do
  let before ← get
  restoring (fun s =>
    { s with
      sinks := before.sinks
      input := if ownInput then before.input else s.input
      steady := before.steady }) body

/-- Runs something of which only the files, the output and the input that it has used up outlast
it; its exit is its status. -/
def inSubshell (body : Exec Unit) : Exec Unit := do
  let before ← get
  let restore (s : State) : State :=
    { before with
      toWorld := { s.toWorld with files := { s.files with current := before.files.current } }
      status := s.status, input := s.input }
  modify fun s => { s with traps := s.traps.filter fun t => t.2 = "" }
  try body
  catch
    | .exit status | .back status => setStatus status
    | .killed signal =>
        modify restore
        throw (.killed signal)
    | _ => pure ()
  modify restore

/-- Runs something as a process of its own. A signal that ends it is only reported. -/
def inProcess (body : Exec Unit) : Exec Unit := do
  let before ← get
  set { before with
    process := before.nextProcess, nextProcess := before.nextProcess + 1 }
  let killed : Option Nat ←
    try
      inSubshell body
      pure none
    catch
      | .killed signal => pure (some signal)
      | _ => pure none
  modify fun s =>
    { before with
      toWorld := { s.toWorld with files := { s.files with current := before.files.current } }
      status := s.status, input := s.input }
  match killed with
  | some signal =>
      match signalReport? signal with
      | some report => modify fun s => s.write 2 (Text.toBytes s!"{report}\n")
      | none => pure ()
      setStatus (128 + signal)
  | none => pure ()

/-- Runs something and gives what it writes to the standard output. -/
def capture (body : Exec Unit) : Exec (List UInt8) := do
  let s ← get
  let index := s.nextBuffer
  set { s with nextBuffer := index + 1 }
  keepingStreams false do
    modify fun s => s.redirect 1 (.buffer index)
    body
  let s ← get
  set { s with written := s.written.filter fun w => w.1 ≠ index }
  return s.bufferText index

/-- Runs something in the name of a command. -/
def speaking (name : String) (body : Exec Unit) : Exec Unit := do
  let before := (← get).speaker
  modify fun s => { s with speaker := some name }
  restoring (fun s => { s with speaker := before }) body

/-- Runs something whose status is only a condition. -/
def guarding (body : Exec Unit) : Exec Unit := do
  let before := (← get).guarded
  modify fun s => { s with guarded := true }
  restoring (fun s => { s with guarded := before }) body

/-- Ends a strict script whose last command has failed. -/
def checkStatus : Exec Unit := do
  let s ← get
  if s.switches.strict && !s.guarded && s.status ≠ 0 then throw (.exit s.status)

/-- The state in which another program starts. -/
def childState (s : State) : State :=
  { toWorld := s.toWorld, name := s.name, environment := s.childEnvironment, exported := s.exported,
    process := s.process, traps := s.traps.filter fun t => t.2 = ""
    input := s.input, steady := s.steady, sinks := s.sinks }

/-- What is wrong with a program, as the shell puts it, and the status for it. -/
def startFailure (e : OsError) : String × Nat :=
  match e with
  | .notFound | .notADirectory => ("not found", 127)
  | .nameTooLong | .tooManyLinks => (Tool.reason e, 127)
  | e => (Tool.reason e, 126)

/-- The name of the command with which some words begin, if it is plain. -/
def commandName? : Command → Option String
  | .simple _ _ (w :: _) => plain? w
  | _ => none

/-- Whether redirections of a command stay. -/
def staysRedirected : Command → Bool
  | .simple _ _ [w] => plain? w = some "exec"
  | _ => false

/-- The old values of some variables put back. -/
def putBack (before : State) (names : List String) (s : State) : State :=
  let bindings := names.foldl (fun bindings name =>
    let others := bindings.filter fun (b : String × Option String) => b.1 ≠ name
    match before.bindings.lookup name with
    | some value => (name, value) :: others
    | none => others) s.bindings
  { s with bindings, exported := before.exported }

/-- The directory that a name after a tilde stands for. -/
def State.home? (s : State) (name : List Char) : Option String :=
  if name = [] then s.value? "HOME" else if String.ofList name = "root" then some "/root" else none

/-- A text that may begin with a tilde, which stands for a directory; `ends` tells whether nothing
follows the text. -/
def homedText (home? : List Char → Option String) (ends : Bool) (chars : List Char) : Word :=
  match chars with
  | '~' :: rest =>
      let name := rest.takeWhile (· ≠ '/')
      let after := rest.drop name.length
      match if after = [] ∧ !ends then none else home? name with
      | some dir => [.text dir.toList (dir ≠ ""), .text after false]
      | none => [.text chars false]
  | chars => [.text chars false]

/-- A word of which a tilde at the beginning stands for a directory, or, in the value of a variable,
after a colon, too; `starts` tells whether the word begins here. -/
def homedWord (home? : List Char → Option String) (inValue : Bool) : Bool → Word → Word
  | _, [] => []
  | starts, .text chars false :: rest =>
      let segments := if inValue then Text.splitOnChar ':' chars else [chars]
      let texts := segments.zipIdx.map fun (text, place) =>
        if place = 0 ∧ !starts then [.text text false]
        else homedText home? (place + 1 < segments.length ∨ rest = []) text
      ([.text [':'] false].intercalate texts).filter (· ≠ .text [] false) ++
        homedWord home? inValue false rest
  | _, part :: rest => part :: homedWord home? inValue false rest

/-- A word of which tildes stand for directories. -/
def homed (inValue : Bool) (w : Word) : Exec Word := do
  let s ← get
  return homedWord s.home? inValue true w

/-- Whether the first texts of a command say that it declares variables. -/
def declares (texts : List String) : Bool :=
  (texts.find? fun t => t ≠ "command" && t ≠ "-p").any
    ["export", "local"].contains

mutual

/-- The texts that a word stands for. -/
def expand : Nat → Word → Exec (List String)
  | 0, _ => throw (.killed 9)
  | fuel + 1, w => do
      let w ← homed false w
      let separators := ((← get).value? "IFS").getD " \t\n"
      let fields := (← expandParts fuel (some separators.toList) false {} w).fields
      let s ← get
      return fields.flatMap (textsOf s.files)

/-- Adds the fields of some pieces. Values are split at the separators, if there are any; with
`splitsText` also what is written in the word. -/
def expandParts : Nat → Option (List Char) → Bool → Splitting → Word → Exec Splitting
  | 0, _, _, _, _ => throw (.killed 9)
  | _, _, _, done, [] => return done
  | fuel + 1, separators, splitsText, done, part :: rest => do
      let s ← get
      let put (quoted : Bool) (value : List Char) : Splitting :=
        if quoted then done.add (marked true value)
        else done.addSplit (separators.getD []) value
      let done ←
        match part with
        | .text chars quoted =>
            if quoted || !splitsText then pure (done.add (marked quoted chars))
            else pure (put false chars)
        | .parameter name change quoted =>
            match name, change, separators with
            | "@", .unchanged, some separators =>
                pure (done.addEach separators quoted s.arguments)
            | "*", .unchanged, some separators =>
                if quoted then pure (put true (s.parameter name).toList)
                else pure (done.addEach separators false s.arguments)
            | name, change, separators =>
                expandParameter fuel separators done name change quoted
        | .number source quoted => pure (put quoted (← expandNumber fuel source))
        | .output source quoted =>
            let bytes ← capture (inSubshell (evalSource fuel s.line source))
            modify fun t => { t with inserted := some t.status, status := s.status, line := s.line }
            pure (put quoted (withoutLineEnds (Text.charsOf bytes)))
      expandParts fuel separators splitsText done rest

/-- Adds the value of a parameter after a change. -/
def expandParameter :
    Nat → Option (List Char) → Splitting → String → Change → Bool → Exec Splitting
  | 0, _, _, _, _, _ => throw (.killed 9)
  | fuel + 1, separators, done, name, change, quoted => do
      let s ← get
      let value := s.parameter? name
      let put (text : List Char) : Splitting :=
        if quoted then done.add (marked true text)
        else done.addSplit (separators.getD []) text
      let putValue : Splitting :=
        match name, separators with
        | "@", some separators => done.addEach separators quoted s.arguments
        | "*", some separators =>
            if quoted then put (value.getD "").toList
            else done.addEach separators false s.arguments
        | _, _ => put (value.getD "").toList
      let hasValue (orEmpty : Bool) : Bool := value.any fun v => !orEmpty || v ≠ ""
      let shown := (value.getD "").toList
      let written (text : List Char) : Exec Splitting :=
        if quoted then expandParts fuel separators false done (bracedText text)
        else do expandParts fuel separators true done (← homed false (wordOf text))
      let spelled (text : List Char) : Exec Word :=
        if quoted then pure (bracedText text) else homed false (wordOf text)
      let demand : Exec Unit :=
        if s.switches.complete && value.isNone && name ≠ "@" && name ≠ "*" then
          fail s!"{name}: parameter not set"
        else pure ()
      match change with
      | .unchanged =>
          demand
          return put shown
      | .orElse orEmpty text => if hasValue orEmpty then return putValue else written text
      | .inPlace orEmpty text => if hasValue orEmpty then written text else return put []
      | .orAssign orEmpty text =>
          if hasValue orEmpty then return putValue
          let text := (← expandText fuel (← spelled text)).text
          assign name text
          return put text.toList
      | .orFail orEmpty complaint =>
          if hasValue orEmpty then return putValue
          let complaint := (← expandText fuel (← spelled complaint)).text
          let usual := if orEmpty then "parameter not set or null" else "parameter not set"
          let shown := if complaint = "" then usual else complaint
          fail s!"{name}: {shown}"
      | .withoutStart pattern _ | .withoutEnd pattern _ =>
          demand
          let pattern ← expandText fuel (← homed false (wordOf pattern))
          return put (change.cut shown pattern)
      | .size =>
          demand
          return put (toString (value.getD "").length).toList
      | .unknown => fail "Bad substitution"

/-- The text of the value of an arithmetic expression. -/
def expandNumber : Nat → List Char → Exec (List Char)
  | 0, _ => throw (.killed 9)
  | fuel + 1, source => do
      let text := (← expandText fuel (quotedText source)).text
      let s ← get
      match Arithmetic.eval s.parameter text.toList with
      | .ok (n, assigned) =>
          for (name, value) in assigned.reverse do
            assign name (toString value)
          return (toString n).toList
      | .error (.flaw message) => fail s!"arithmetic expression: {message}: \"{text}\""
      | .error (.notNumber text) => fail s!"Illegal number: {text}"

/-- The one text of a word that is not split. -/
def expandText : Nat → Word → Exec Field
  | 0, _ => throw (.killed 9)
  | fuel + 1, w => return ((← expandParts fuel none false {} w).fields).flatten

/-- Connects streams as some redirections say. -/
def connect : Nat → List Redirection → Exec Unit
  | 0, _ => throw (.killed 9)
  | _, [] => return ()
  | fuel + 1, r :: rest => do
      match r.target with
      | .readFrom path =>
          let (input, steady) ← openInput (← expandText fuel (← homed false path)).text
          if r.stream = 0 then modify fun s => { s with input, steady }
      | .here body =>
          let text := (← expandText fuel body).text
          if r.stream = 0 then
            modify fun s => { s with input := Text.toBytes text, steady := false }
      | .writeTo path =>
          let path := (← expandText fuel (← homed false path)).text
          let sink ← openOutput false path
          modify fun s => s.redirect r.stream sink
      | .appendTo path =>
          let sink ← openOutput true (← expandText fuel (← homed false path)).text
          modify fun s => s.redirect r.stream sink
      | .sameAs other =>
          let other := (← expandText fuel other).text
          let s ← get
          if other = "-" then
            set (if r.stream = 0 then { s with input := [], steady := false }
              else s.redirect r.stream .closed)
          else if r.stream ≠ 0 then
            let sink := s.sink (Tool.numberOf other)
            if sink = .closed then fail s!"{other}: Bad file descriptor"
            set (s.redirect r.stream sink)
      connect fuel rest

/-- Runs a command. -/
def eval : Nat → Command → Exec Unit
  | 0, _ => throw (.killed 9)
  | fuel + 1, c => do
      match c with
      | .simple line assignments words =>
          modify fun s => { s with line, inserted := none }
          let texts ← expandCommand fuel [] words
          let before ← get
          let assignAll : Exec Unit := do
            for (name, value) in assignments do
              assign name (← expandText fuel (← homed true value)).text
          match texts with
          | [] =>
              assignAll
              modify fun s => { s with status := s.inserted.getD 0 }
          | name :: args =>
              if assignments = [] || specialNames.contains name then
                assignAll
                call fuel name args
              else
                let names := assignments.map Prod.fst
                restoring (putBack before names) do
                  assignAll
                  modify fun s => { s with exported := names ++ s.exported }
                  call fuel name args
          checkStatus
      | .redirected line body redirections =>
          modify fun s => { s with line }
          let before ← get
          let connected : Bool ←
            try
              connect fuel redirections
              pure true
            catch
              | .exit 2 =>
                  -- A failed redirection ends the script only at a special command.
                  if (commandName? body).any specialNames.contains then throw (.exit 2)
                  pure false
              | stop => throw stop
          let ownInput := redirections.any fun r => r.stream = 0
          let restore (s : State) : State :=
            { s with
              sinks := before.sinks
              input := if ownInput then before.input else s.input
              steady := before.steady }
          if !connected then
            modify restore
            setStatus 2
            checkStatus
          else if staysRedirected body then eval fuel body
          else restoring restore (eval fuel body)
      | .sequence commands => evalAll fuel commands
      | .pipeline stages =>
          evalStages fuel stages
          checkStatus
      | .negated body =>
          guarding (eval fuel body)
          modify fun s => { s with status := if s.status = 0 then 1 else 0 }
      | .both first second =>
          guarding (eval fuel first)
          if (← get).status = 0 then eval fuel second
      | .either first second =>
          guarding (eval fuel first)
          if (← get).status ≠ 0 then eval fuel second
      | .subshell body =>
          inSubshell (eval fuel body)
          checkStatus
      | .background body =>
          let before ← get
          let job := before.nextProcess
          set { before with input := [], steady := false, nextProcess := job + 1 }
          inSubshell (eval fuel body)
          modify fun s =>
            { s with
              input := before.input, steady := before.steady, status := 0, lastJob := some job }
      | .define name body =>
          modify fun s => { s with commands := (name, body) :: s.commands, status := 0 }
      | .conditional condition thenBody elseBody =>
          guarding (eval fuel condition)
          if (← get).status = 0 then eval fuel thenBody
          else
            match elseBody with
            | .sequence [] => setStatus 0
            | body => eval fuel body
      | .loop awaited condition body =>
          let loops := (← get).loops
          modify fun s => { s with loops := loops + 1 }
          restoring (fun s => { s with loops }) (repeatBody fuel awaited condition body 0)
      | .each name words body =>
          let values ←
            match words with
            | some ws => expandAll fuel ws
            | none => pure (← get).arguments
          if values = [] then setStatus 0
          let loops := (← get).loops
          modify fun s => { s with loops := loops + 1 }
          restoring (fun s => { s with loops }) (eachBody fuel name values body)
      | .choice subject branches =>
          let text := (← expandText fuel (← homed false subject)).text
          choose fuel text.toList branches

/-- The texts that some words stand for. -/
def expandAll : Nat → List Word → Exec (List String)
  | 0, _ => throw (.killed 9)
  | _, [] => return []
  | fuel + 1, w :: rest => do
      let texts ← expand fuel w
      return texts ++ (← expandAll fuel rest)

/-- The texts of a command. An assignment that a declaration has as an argument is one text. -/
def expandCommand : Nat → List String → List Word → Exec (List String)
  | 0, _, _ => throw (.killed 9)
  | _, done, [] => return done
  | fuel + 1, done, w :: rest => do
      let texts ←
        match if declares done then assignment? w else none with
        | some (name, value) => do
            let text := (← expandText fuel (← homed true value)).text
            pure [s!"{name}={text}"]
        | none => expand fuel w
      expandCommand fuel (done ++ texts) rest

/-- Runs commands in order. -/
def evalAll : Nat → List Command → Exec Unit
  | 0, _ => throw (.killed 9)
  | _, [] => return ()
  | fuel + 1, c :: rest => do
      eval fuel c
      evalAll fuel rest

/-- Runs the stages of a pipeline. -/
def evalStages : Nat → List Command → Exec Unit
  | 0, _ => throw (.killed 9)
  | _, [] => return ()
  | fuel + 1, [c] => inSubshell (eval fuel c)
  | fuel + 1, c :: rest => do
      let bytes ← capture (inSubshell (eval fuel c))
      let before ← get
      modify fun s => { s with input := bytes, steady := false }
      restoring (fun s => { s with input := before.input, steady := before.steady })
        (evalStages fuel rest)

/-- Runs a loop; the status is the one of the last pass. -/
def repeatBody : Nat → Bool → Command → Command → Nat → Exec Unit
  | 0, _, _, _, _ => throw (.killed 9)
  | fuel + 1, awaited, condition, body, status => do
      let goesOn ← onePass fuel (.sequence []) (some condition)
      if !goesOn then setStatus 0
      else if ((← get).status = 0) = awaited then setStatus status
      else if ← onePass fuel body none then
        repeatBody fuel awaited condition body (← get).status
      else setStatus 0

/-- Runs the condition or the body of a loop; whether the loop goes on. -/
def onePass : Nat → Command → Option Command → Exec Bool
  | 0, _, _ => throw (.killed 9)
  | fuel + 1, body, condition => do
      try
        match condition with
        | some c => guarding (eval fuel c)
        | none => eval fuel body
        return true
      catch
        | .leave n => if 1 < n then throw (.leave (n - 1)) else return false
        | .again n => if 1 < n then throw (.again (n - 1)) else return true
        | stop => throw stop

/-- Runs the body of a loop for each value. -/
def eachBody : Nat → String → List String → Command → Exec Unit
  | 0, _, _, _ => throw (.killed 9)
  | _, _, [], _ => return ()
  | fuel + 1, name, value :: rest, body => do
      assign name value
      if ← onePass fuel body none then eachBody fuel name rest body else setStatus 0

/-- Runs the first branch with a pattern that matches. -/
def choose : Nat → List Char → List (List Word × Command) → Exec Unit
  | 0, _, _ => throw (.killed 9)
  | _, _, [] => setStatus 0
  | fuel + 1, text, (patterns, body) :: rest => do
      if ← anyMatches fuel text patterns then
        match body with
        | .sequence [] => setStatus 0
        | body => eval fuel body
      else choose fuel text rest

/-- Whether one of some patterns matches. -/
def anyMatches : Nat → List Char → List Word → Exec Bool
  | 0, _, _ => throw (.killed 9)
  | _, _, [] => return false
  | fuel + 1, text, w :: rest => do
      if matchesWord (← expandText fuel (← homed false w)) text then return true
      else anyMatches fuel text rest

/-- Calls a command by its name. -/
def call : Nat → String → List String → Exec Unit
  | 0, _, _ => throw (.killed 9)
  | fuel + 1, name, args => do
      let s ← get
      match (if specialNames.contains name then none else s.commands.lookup name) with
      | some body => runNamed fuel body args
      | none =>
          match name with
          | "exit" => throw (.exit ((← numberArgument name args s.status) % 256))
          | "return" => throw (.back ((← numberArgument name args s.status) % 256))
          | "break" => leaveLoops name args .leave
          | "continue" => leaveLoops name args .again
          | "shift" => shift args
          | "set" => setOptions args
          | "unset" => unset args
          | "export" => speaking name (declare name args publish)
          | "local" => speaking name (declare name args hide)
          | "cd" => changeDirectory args
          | "read" => speaking name (readLine args)
          | "trap" => setTraps args
          | "kill" =>
              match ← kill args with
              | some action =>
                  evalSource fuel 1 action.toList
                  setStatus 0
              | none => pure ()
          | "command" =>
              match args with
              | [] => setStatus 0
              | "-v" :: name :: _ => explain name
              | name :: rest =>
                  let commands := s.commands
                  modify fun s => { s with commands := [] }
                  call fuel name rest
                  modify fun s => { s with commands }
          | "wait" => setStatus 0
          | "eval" =>
              speaking name (evalSource fuel 1 (" ".intercalate args).toList)
          | "." => runFile fuel args
          | "exec" =>
              match args with
              | [] => setStatus 0
              | program :: _ =>
                  match findProgram (some (s.parameter "PATH")) program args s.files with
                  | .error .notExecutable => runProgram fuel program args.tail
                  | .error e =>
                      let (reason, status) := startFailure e
                      complain s!"exec: {program}: {reason}"
                      throw (.exit status)
                  | .ok (_, invocation) =>
                      modify childState
                      runHere fuel invocation
                  throw (.exit (← get).status)
          | name =>
              match Tool.builtIn? name with
              | some tool => runBuiltIn name tool args
              | none => runProgram fuel name args

/-- Runs a command that was given a name. -/
def runNamed : Nat → Command → List String → Exec Unit
  | 0, _, _ => throw (.killed 9)
  | fuel + 1, body, args => do
      let before ← get
      modify fun s => { s with arguments := args, hidden := [], loops := 0 }
      restoring (fun s =>
        let bindings := s.hidden.foldl (fun bindings (name, value) =>
          (name, value) :: bindings.filter fun b => b.1 ≠ name) s.bindings
        { s with
          arguments := before.arguments, hidden := before.hidden, loops := before.loops
          bindings })
        do
          try eval fuel body
          catch
            | .back status => setStatus status
            | stop => throw stop

/-- Runs the commands of a file in the present state. -/
def runFile : Nat → List String → Exec Unit
  | 0, _ => throw (.killed 9)
  | fuel + 1, args => do
      match args with
      | [] => setStatus 0
      | name :: _ =>
          let s ← get
          let paths :=
            if name.toList.contains '/' then [name] else candidates (some (s.parameter "PATH")) name
          let textAt (path : String) : Option (String × List UInt8) :=
            ((Tool.device? path s.input).or (s.files.read path).toOption).map fun text =>
              (path, text)
          match paths.findSome? textAt with
          | some (path, bytes) =>
              try speaking path (evalSource fuel 1 (Text.charsOf bytes))
              catch
                | .back status => setStatus status
                | stop => throw stop
          | none =>
              if name.toList.contains '/' then abort s!".: cannot open {name}: No such file"
              else abort s!".: {name}: not found"

/-- Runs a program by its name or path. A file that names no interpreter is a script, too. -/
def runProgram : Nat → String → List String → Exec Unit
  | 0, _, _ => throw (.killed 9)
  | fuel + 1, name, args => do
      let s ← get
      let path := some (s.parameter "PATH")
      match findProgram path name (name :: args) s.files with
      | .ok (_, invocation) =>
          inProcess do
            modify childState
            runHere fuel invocation
      | .error .notExecutable =>
          let paths := if name.toList.contains '/' then [name] else candidates path name
          let found := (paths.find? s.files.has).getD name
          inProcess do
            modify childState
            runHere fuel (.shell, "sh" :: found :: args)
      | .error e =>
          let (reason, status) := startFailure e
          report s!"{name}: {reason}"
          setStatus status

/-- Runs a program in the present state. -/
def runHere : Nat → Invocation → Exec Unit
  | 0, _ => throw (.killed 9)
  | fuel + 1, (program, arguments) => do
      let args := arguments.drop 1
      let name := arguments.headD ""
      match program with
      | .tool run => perform false name (run (callOf (← get) name args))
      | .runner =>
          match args with
          | [] => setStatus 0
          | program :: _ =>
              match findProgram ((← get).environment "PATH") program args (← get).files with
              | .ok (_, invocation) => runHere fuel invocation
              | .error e =>
                  let line := s!"{name}: {Tool.quoted program}: {Tool.reason e}\n"
                  modify fun s => { s.write 2 (Text.toBytes line) with status := 127 }
      | .shell =>
          let fail (message : String) : Exec Unit := do
            modify fun s => s.write 2 (Text.toBytes s!"{name}: 0: {message}\n")
            throw (.exit 2)
          match args with
          | "-c" :: source :: rest =>
              modify fun s => { s with name := rest.headD name, arguments := rest.drop 1 }
              runWhole fuel source.toList
          | args =>
              match readSwitches {} args with
              | .error option => fail s!"Illegal option {option}"
              | .ok (switches, rest) =>
                  modify fun s => { s with switches, name }
                  match rest.getD [] with
                  | [] =>
                      let source := (← get).input
                      modify fun s => { s with input := [] }
                      runWhole fuel (Text.charsOf source)
                  | path :: rest =>
                      match (← get).files.read path with
                      | .error e => fail s!"cannot open {path}: {openingReason e}"
                      | .ok source =>
                          modify fun s => { s with name := path, arguments := rest }
                          runWhole fuel (Text.charsOf source)

/-- Runs a whole script, and then what it has set for its end. -/
def runWhole : Nat → List Char → Exec Unit
  | 0, _ => throw (.killed 9)
  | fuel + 1, source => do
      let ended (body : Exec Unit) : Exec Unit := do
        try body
        catch
          | .exit status | .back status => setStatus status
          | .killed signal => throw (.killed signal)
          | _ => pure ()
      ended (evalSource fuel 1 source)
      let s ← get
      match s.traps.lookup 0 with
      | some action =>
          set { s with traps := s.traps.filter fun t => t.1 ≠ 0 }
          let exits : Bool ←
            try
              evalSource fuel 1 action.toList
              pure false
            catch
              | .exit status =>
                  setStatus status
                  pure true
              | stop => throw stop
          if !exits then setStatus s.status
      | none => pure ()

/-- Runs the commands that a text spells, counting its lines from a first one. A text without
commands succeeds. -/
def evalSource : Nat → Nat → List Char → Exec Unit
  | 0, _, _ => throw (.killed 9)
  | fuel + 1, line, source => do
      let (tokens, texts) := tokensOf line source
      if isFinish (skipLines tokens) then setStatus 0
      evalLines fuel texts tokens

/-- Runs the commands of a script line by line. -/
def evalLines : Nat → List Word → Tokens → Exec Unit
  | 0, _, _ => throw (.killed 9)
  | fuel + 1, texts, tokens => do
      match lineOfCommands texts (readingFuel tokens) tokens with
      | .error flaw =>
          complainAt flaw.line ((← get).spoken s!"Syntax error: {flaw.message}")
          throw (.exit 2)
      | .ok (cs, rest) =>
          evalAll fuel cs
          if !isFinish rest then evalLines fuel texts rest

end

/-- The depth to which the commands of a script may call each other. -/
def fuel : Nat := 200000

end Montage.Script
