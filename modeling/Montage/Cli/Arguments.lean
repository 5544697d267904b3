import Montage.Binary64.Arith
import Montage.Decimal.Reader
import Montage.Text.Split

/-!
# The arguments of the command line

General options may stand before or after the name of the task. An option is given at most once on
each side; a value may follow its option or be attached to it. The first mistake ends the reading,
and so does a request for help or for the version.
-/

namespace Montage.Cli

/-- The general options. -/
structure Options where
  verbose : Bool := false
  jsonLogs : Bool := false
  configPath : Option String := none
  deriving DecidableEq, Repr

/-- What the program is asked to do. -/
inductive Task where
  | render (spec : String) (output : Option String)
  | compile (spec : String) (asData : Bool)
  | validate (spec : String)
  | locate (video : String) (atMs count : Nat)
  | probe (video : String)
  | check
  deriving DecidableEq, Repr

/-- Why the reading of the arguments ends early. -/
inductive Early where
  | usage
  /-- A request for help about one task, or about all of them. -/
  | help (task : Option String)
  | version
  deriving DecidableEq, Repr

/-- What the value of an option has to be. -/
inductive ValueKind where
  | path
  | count
  deriving DecidableEq, Repr

/-- An option: its long name, its letter, its value if it takes one, and what it is for. -/
structure OptionForm where
  name : String
  letter : Option Char := none
  value : Option ValueKind := none
  /-- The value when the option is not given, if help tells it. -/
  usual : Option String := none
  about : String
  deriving DecidableEq, Repr

/-- The request for help. -/
def helpForm : OptionForm := { name := "help", letter := some 'h', about := "Print help" }

/-- The options of every task. -/
def generalForms : List OptionForm :=
  [{ name := "verbose", letter := some 'v', about := "Enable verbose logging" },
   { name := "json-logs", about := "Emit logs as JSON" },
   { name := "config", value := some .path,
     about := "Config file (defaults to the standard location)" }]

/-- The options in front of the task. -/
def frontForms : List OptionForm :=
  generalForms ++
    [helpForm, { name := "version", letter := some 'V', about := "Print version" }]

/-- A task: its name, what it does, its further options, and the path that it takes, if any. -/
structure TaskForm where
  name : String
  about : String
  options : List OptionForm := []
  path : Option (String × String) := none
  deriving DecidableEq, Repr

/-- The path of a task that works on an edit. -/
def editPath : String × String := ("SPEC", "Path to the edit spec (JSON)")

/-- The path of a task that works on a video. -/
def videoPath : String × String := ("VIDEO", "Source video")

/-- The tasks. -/
def taskForms : List TaskForm :=
  [{ name := "render", about := "Render an edit spec to video"
     options := [{ name := "output", letter := some 'o', value := some .path,
                   about := "Output file path (overrides the spec)" }]
     path := some editPath },
   { name := "compile", about := "Compile an edit spec and print the encoder program"
     options := [{ name := "json", about := "Print the full plan as JSON" }]
     path := some editPath },
   { name := "validate", about := "Validate an edit spec", path := some editPath },
   { name := "locate", about := "Locate subjects in a single frame"
     options := [{ name := "at-ms", value := some .count, usual := some "0",
                   about := "Frame time in milliseconds" },
                 { name := "count", value := some .count, usual := some "1",
                   about := "Number of subjects (1-3)" }]
     path := some videoPath },
   { name := "probe", about := "Show source geometry and audio presence", path := some videoPath },
   { name := "check", about := "Check encoder availability and configuration" }]

/-- The number of a text: digits, perhaps after a plus sign, of at most 64 bits. -/
def count? (text : String) : Option Nat := do
  let n ← Decimal.natOfText? (match text.toList with
    | '+' :: rest => rest
    | chars => chars)
  if n ≤ Binary64.top64 then some n else none

/-- Whether a text is a value of a kind. -/
def ValueKind.accepts : ValueKind → String → Bool
  | path, text => text ≠ ""
  | count, text => (count? text).isSome

/-- The options that were given, with their values, and the other arguments. -/
structure Given where
  options : List (String × String) := []
  others : List String := []
  deriving DecidableEq, Repr

namespace Given

/-- The value of an option. -/
def value? (g : Given) (name : String) : Option String := g.options.lookup name

/-- Whether an option was given. -/
def has (g : Given) (name : String) : Bool := (g.value? name).isSome

/-- Adds an option. -/
def add (g : Given) (form : OptionForm) (value : String) : Except Early Given :=
  if form.name = "help" then .error (.help none)
  else if form.name = "version" then .error .version
  else if g.has form.name then .error .usage
  else if form.value.any fun kind => !kind.accepts value then .error .usage
  else .ok { g with options := g.options ++ [(form.name, value)] }

end Given

/-- What an argument begins with, and whether it is a mere value. -/
def isValue (arg : String) : Bool := !(arg.startsWith "-" && arg ≠ "-")

/-- An argument `--name` or `--name=value`, and the one after it. -/
def longOption (forms : List OptionForm) (g : Given) (text : List Char) (rest : List String) :
    Except Early (Given × List String) := do
  let (name, attached) :=
    match Text.splitAt? ['='] text with
    | some (name, value) => (String.ofList name, some (String.ofList value))
    | none => (String.ofList text, none)
  match forms.find? fun f => f.name = name with
  | none => throw .usage
  | some form =>
      match form.value, attached, rest with
      | none, none, rest => return (← g.add form "", rest)
      | none, some _, _ => throw .usage
      | some _, some value, rest => return (← g.add form value, rest)
      | some _, none, value :: rest =>
          if isValue value then return (← g.add form value, rest) else throw .usage
      | some _, none, [] => throw .usage

/-- The letters of an argument such as `-v`, and the argument after it. -/
def letterOptions (forms : List OptionForm) (rest : List String) :
    Given → List Char → Except Early (Given × List String)
  | g, [] => .ok (g, rest)
  | g, c :: more =>
      match forms.find? fun f => f.letter = some c with
      | none => .error .usage
      | some form =>
          match form.value with
          | none => do letterOptions forms rest (← g.add form "") more
          | some _ =>
              match more, rest with
              | '=' :: value, rest => (g.add form (String.ofList value)).map fun g => (g, rest)
              | [], value :: rest =>
                  if isValue value then (g.add form value).map fun g => (g, rest)
                  else .error .usage
              | [], [] => .error .usage
              | value, rest => (g.add form (String.ofList value)).map fun g => (g, rest)

/-- Reads arguments. In front of the task the first other argument ends the reading; `limit` is how
many others there may be after it. -/
def readArgs (forms : List OptionForm) (front : Bool) (limit : Nat) :
    Nat → Given → List String → Except Early (Given × List String)
  | 0, _, _ => .error .usage
  | _, g, [] => .ok (g, [])
  | fuel + 1, g, arg :: rest =>
      if arg = "--" then
        if front ∨ limit < (g.others ++ rest).length ∨ rest.contains "" then .error .usage
        else .ok ({ g with others := g.others ++ rest }, [])
      else
        match Text.after? ['-', '-'] arg.toList with
        | some text => do
            let (g, rest) ← longOption forms g text rest
            readArgs forms front limit fuel g rest
        | none =>
            if isValue arg then
              if front then .ok (g, arg :: rest)
              else if limit ≤ g.others.length ∨ arg = "" then .error .usage
              else readArgs forms front limit fuel { g with others := g.others ++ [arg] } rest
            else do
              let (g, rest) ← letterOptions forms rest g (arg.toList.drop 1)
              readArgs forms front limit fuel g rest

/-- The general options of both sides; a value after the task wins. -/
def optionsOf (front after : Given) : Options :=
  { verbose := front.has "verbose" || after.has "verbose"
    jsonLogs := front.has "json-logs" || after.has "json-logs"
    configPath := (after.value? "config").or (front.value? "config") }

/-- The number that an option gives. -/
def countOf (g : Given) (name : String) (usual : Nat) : Nat :=
  ((g.value? name).bind count?).getD usual

/-- The task of a name with what was given for it. -/
def taskOf? (name : String) (g : Given) : Option Task :=
  match name, g.others with
  | "render", [spec] => some (.render spec (g.value? "output"))
  | "compile", [spec] => some (.compile spec (g.has "json"))
  | "validate", [spec] => some (.validate spec)
  | "locate", [video] => some (.locate video (countOf g "at-ms" 0) (countOf g "count" 1))
  | "probe", [video] => some (.probe video)
  | "check", [] => some .check
  | _, _ => none

/-- What `help` asks for: all tasks or one of them. -/
def helpOf (rest : List String) : Early :=
  match rest with
  | [] => .help none
  | [name] =>
      if name = "help" ∨ taskForms.any (fun f => f.name = name) then .help (some name) else .usage
  | _ => .usage

/-- The same end after the name of a task. -/
def Early.after (name : String) : Early → Early
  | .help none => .help (some name)
  | early => early

/-- The general options and the task of some arguments. -/
def parse (args : List String) : Except Early (Options × Task) := do
  let (front, rest) ← readArgs frontForms true 0 (args.length + 1) {} args
  match rest with
  | [] => throw .usage
  | "help" :: rest => throw (helpOf rest)
  | name :: rest =>
      match taskForms.find? fun f => f.name = name with
      | none => throw .usage
      | some form =>
          let limit := if form.path.isSome then 1 else 0
          let (after, _) ← (readArgs (generalForms ++ helpForm :: form.options) false limit
            (rest.length + 1) {} rest).mapError (Early.after name)
          match taskOf? name after with
          | some task => return (optionsOf front after, task)
          | none => throw .usage

example : (parse ["-v", "compile", "e.json", "--json"]).toOption =
    some ({ verbose := true }, .compile "e.json" true) := by decide +kernel

end Montage.Cli
