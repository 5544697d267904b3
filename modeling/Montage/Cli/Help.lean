import Montage.Cli.Arguments

/-!
# Help

The texts that explain the command line: what a call looks like, then tables of tasks, arguments
and options. The second column of a table begins two blanks after the widest entry of the first.
-/

namespace Montage.Cli

/-- The name of the program. -/
def programName : String := "reelcut"

/-- What the program is for. -/
def purpose : String := "Compile structured edits into a single encoder run"

/-- What `help` is for. -/
def helpTask : TaskForm :=
  { name := "help", about := "Print this message or the help of the given subcommand(s)" }

/-- A table of two columns under a heading. -/
def table (heading : String) (rows : List (String × String)) : String :=
  let width := (rows.map fun row => row.1.length).foldl max 2
  let line (row : String × String) : String :=
    "  " ++ String.ofList (row.1.toList.rightpad (width + 2) ' ') ++ row.2
  "\n".intercalate (heading :: rows.map line) ++ "\n"

/-- The name of an option's value. -/
def OptionForm.valueName (f : OptionForm) : String :=
  String.ofList (f.name.toList.map fun c => if c = '-' then '_' else c.toUpper)

/-- How an option is written. -/
def OptionForm.written (f : OptionForm) : String :=
  let lead :=
    match f.letter with
    | some c => String.ofList ['-', c, ',', ' ']
    | none => "    "
  let value := if f.value.isSome then " <" ++ f.valueName ++ ">" else ""
  lead ++ "--" ++ f.name ++ value

/-- What is said about an option. -/
def OptionForm.explained (f : OptionForm) : String :=
  match f.usual with
  | some value => f.about ++ " [default: " ++ value ++ "]"
  | none => f.about

/-- What options at the same place are ordered by: the letter, or else the name. -/
def OptionForm.rank (f : OptionForm) : String :=
  match f.letter with
  | some c => String.ofList [c.toLower, if c.isLower then '0' else '1']
  | none => f.name

/-- The options of a task among the general ones: those at the first place of both come first. -/
def arranged (further : List OptionForm) : List OptionForm :=
  let placed := further.zipIdx ++ generalForms.zipIdx
  (placed.mergeSort fun (f, i) (g, j) => i < j || (i == j && f.rank ≤ g.rank)).map Prod.fst

/-- The table of some options. -/
def optionTable (forms : List OptionForm) : String :=
  table "Options:" (forms.map fun f => (f.written, f.explained))

/-- The first lines of a help text. -/
def opening (about usage : String) : String :=
  s!"{about}\n\nUsage: {programName} {usage}\n"

/-- The help about the whole program. -/
def generalHelp : String :=
  "\n".intercalate
    [opening purpose "[OPTIONS] <COMMAND>",
     table "Commands:" ((taskForms ++ [helpTask]).map fun f => (f.name, f.about)),
     optionTable frontForms]

/-- The help about a task. -/
def TaskForm.help (f : TaskForm) : String :=
  let options := optionTable (arranged f.options ++ [helpForm])
  match f.path with
  | some (name, about) =>
      "\n".intercalate
        [opening f.about (f.name ++ " [OPTIONS] <" ++ name ++ ">"),
         table "Arguments:" [("<" ++ name ++ ">", about)], options]
  | none => "\n".intercalate [opening f.about (f.name ++ " [OPTIONS]"), options]

/-- The help about the help. -/
def helpOnHelp : String :=
  "\n".intercalate
    [opening helpTask.about "help [COMMAND]...",
     table "Arguments:" [("[COMMAND]...", "Print help for the subcommand(s)")]]

/-- The help that is asked for. -/
def helpText (task : Option String) : String :=
  match task with
  | none => generalHelp
  | some name =>
      match taskForms.find? fun f => f.name = name with
      | some f => f.help
      | none => helpOnHelp

end Montage.Cli
