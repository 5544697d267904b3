import Montage.Cli.Help
import Montage.Config.Location
import Montage.Edit.Decode
import Montage.Render.Basic
import Montage.Render.Session

/-!
# Tasks

What each task of the command line does and prints.
-/

/-!
## The console

A task prints lines and may fail with a message. What was printed before the failure stays.
-/

namespace Montage.Cli

/-- The files, and what was printed. -/
structure Console where
  files : FileTree
  output : String := ""
  errors : String := ""

/-- A computation that prints and may fail with a message. -/
abbrev Console.M (α : Type) := ExceptT String (StateM Console) α

namespace Console

/-- Prints a text. -/
def print (text : String) : M Unit := modify fun c => { c with output := c.output ++ text }

/-- Prints a line. -/
def line (text : String) : M Unit := print (text ++ "\n")

/-- Prints a line to the error stream. -/
def errorLine (text : String) : M Unit :=
  modify fun c => { c with errors := c.errors ++ text ++ "\n" }

/-- The files as they are now. -/
def tree : M FileTree := return (← get).files

/-- The value, or a failure that a label introduces. -/
def orFail {α : Type} (label : String) : Outcome α → M α
  | .ok a => pure a
  | .error (.fault f) => throw s!"{label}: {f.message}"
  | .error .broken => throw s!"{label}: a precondition is broken"

/-- Runs a computation on a session in a scratch directory, which is removed afterwards. -/
def inScratch {α : Type} (scratch : Scratch) (w : Work α) : M (Outcome α) := do
  let c ← get
  let (result, s) := w.perform { files := c.files, scratch }
  let (_, files) := s.scratch.cleanup s.files
  set { c with files }
  return result

/-- Runs a computation that needs no scratch directory. -/
def withoutScratch {α : Type} (w : Work α) : M (Outcome α) :=
  inScratch { root := "", isOpen := false } w

/-- Makes a scratch directory in the usual place. -/
def openScratch (host : Host) : M Scratch := do
  let c ← get
  match Scratch.new c.files host.temporaryDirectory host.suffix with
  | .ok (files, scratch) =>
      set { c with files }
      return scratch
  | .error f => throw f.message

end Console

end Montage.Cli

/-! ## What each task does -/

namespace Montage.Cli

open Console

/-- The edit in a file. -/
def loadEdit (path : String) : M Edit := do
  let refused (f : Fault) : M Edit := throw s!"Failed to load edit spec: {f.message}"
  match (← tree).readText path with
  | .error e => refused (.io e.message)
  | .ok text =>
      match Edit.ofText? text with
      | some edit => return edit
      | none => refused .malformed

/-- The configuration in a file, or in the usual place if none is named. -/
def loadConfig (host : Host) (path : Option String) : M Config := do
  match path with
  | none => return Config.load (← tree) (Config.path host.environment)
  | some path =>
      match (← tree).readText path with
      | .error e => throw s!"Failed to read config {path}: {e.message}"
      | .ok text =>
          match Config.ofText? text with
          | some c => return c
          | none => throw s!"Failed to parse config {path}: {Fault.malformed.message}"

/-- Makes the log file, if one is configured. -/
def openLog (settings : LogSettings) : M Unit := do
  match settings.file with
  | none => pure ()
  | some path =>
      let c ← get
      match c.files.touch path with
      | .ok files => set { c with files }
      | .error e => errorLine s!"Failed to open log file {path}: {e.message}"

/-- A text in a field whose left side is filled with blanks. -/
def rightAligned (width : Nat) (text : String) : String :=
  String.ofList (text.toList.leftpad width ' ')

/-- A text in a field whose right side is filled with blanks. -/
def leftAligned (width : Nat) (text : String) : String :=
  String.ofList (text.toList.rightpad width ' ')

/-- The answer to a question. -/
def yesOrNo (b : Bool) : String := if b then "yes" else "no"

/-- The line of an event, which replaces the one before. -/
def progressText (p : Progress) : String :=
  let eta :=
    match p.remaining with
    | some seconds => s!", ETA: {Decimal.fixed 0 seconds}s"
    | none => ""
  s!"\r  Progress: {rightAligned 5 (Decimal.fixed 1 p.percent)}% ({p.stage.title}{eta})    "

/-- Renders an edit. -/
def renderTask (host : Host) (config : Config) (spec : String) (output : Option String) :
    M Unit := do
  line s!"Rendering edit spec: {spec}"
  let loaded ← loadEdit spec
  let edit := { loaded with outputPath := output.or loaded.outputPath }
  line s!"  Source: {edit.sourcePath}"
  line s!"  Format: {edit.canvas.label}"
  line s!"  Trim: {edit.trimStartMs}ms - {edit.trimEndMs}ms"
  let c ← get
  let rendered := render host config edit (fun _ _ => false) c.files
  set { c with files := rendered.files }
  for event in rendered.events do print (progressText event)
  match rendered.result with
  | .ok path => line s!"\nRender complete: {path}"
  | failed =>
      line ""
      discard (orFail "Render failed" failed)

/-- The line of an input. -/
def inputText (m : MediaInput) (i : Nat) : String :=
  s!"  [{i}] " ++ " ".intercalate m.options ++ s!" {m.path}"

/-- The line of a node. -/
def nodeText (n : Node) : String :=
  s!"  {rightAligned 3 (toString n.id)} {leftAligned 9 n.stage.name} {n.text}"

/-- Plans an edit and prints the plan. -/
def compileTask (host : Host) (config : Config) (spec : String) (asData : Bool) : M Unit := do
  let edit ← loadEdit spec
  let scratch ← openScratch host
  let plan ← orFail "Compilation failed" (← inScratch scratch (Plan.ofEdit host config edit))
  if asData then line plan.toJson.pretty
  else
    let graph := plan.program.graph
    line s!"Program for: {spec}"
    let origin := if plan.probe.probed then "" else " (defaults)"
    line s!"  Source: {plan.probe.width}x{plan.probe.height}{origin}"
    line s!"  Duration: {plan.program.durationMs}ms"
    line s!"  Encoder: {plan.encoder.codecName}"
    line s!"  Output: {plan.outputPath}"
    line "\nInputs:"
    for (m, i) in graph.inputs.zipIdx do line (inputText m i)
    line "\nNodes:"
    for n in graph.nodes do line (nodeText n)
    line "\nEncoder arguments:"
    line ("  " ++ " ".intercalate plan.args)

/-- Checks an edit and its files. -/
def validateTask (spec : String) : M Unit := do
  line s!"Validating edit spec: {spec}"
  let edit ← loadEdit spec
  let clip ← orFail "Invalid edit" (Clip.ofEdit edit)
  let captions ← orFail "Invalid captions" (Caption.ofClip clip)
  line s!"  Source: {clip.sourcePath}"
  line s!"  Format: {clip.canvas.label} ({clip.canvas.width}x{clip.canvas.height})"
  line s!"  Clip duration: {clip.durationMs}ms (speed {Decimal.plain clip.speed})"
  line s!"  Zoom keyframes: {clip.ramps.length}"
  line s!"  B-roll layers: {clip.cutaways.length}"
  line s!"  Sticker layers: {clip.stickers.length}"
  line s!"  Caption cues: {captions.cues.length}"
  line ("  Music: " ++ yesOrNo clip.music.isSome)
  match edit.missingFiles (← tree).has with
  | [] =>
      line "  Sources: All present"
      line "\nEdit is valid."
  | missing =>
      line "\nValidation issues:"
      for text in missing do line s!"  - {text}"
      line s!"\n{missing.length} issue(s) found. Rendering will fail."

/-- The names of tiers, in order. -/
def tierText (tiers : List Tier) : String := " -> ".intercalate (tiers.map (·.method.name))

/-- The line of a region. -/
def regionText (r : Region) (i : Nat) : String :=
  s!"  [{i}] x={Decimal.fixed 0 r.centerX} y={Decimal.fixed 0 r.centerY} " ++
    s!"confidence={Decimal.fixed 2 r.confidence} ({r.method.name})"

/-- Locates subjects in one frame. -/
def locateTask (host : Host) (config : Config) (video : String) (atMs count : Nat) : M Unit := do
  if count = 0 ∨ Problem.maxSubjects < count then
    throw s!"--count must be between 1 and {Problem.maxSubjects}"
  if !(← tree).has video then throw s!"Video not found: {video}"
  let probe ← orFail "Probe failed" (← withoutScratch (Work.probeOrAssume host config.render video))
  line s!"Locating {count} subject(s) in {video} at {atMs}ms"
  line s!"  Frame: {probe.width}x{probe.height}"
  line s!"  Tiers: {tierText (host.tiers config.vision)}"
  let scratch ← openScratch host
  let regions ← orFail "Locating failed"
    (← inScratch scratch (Work.locate host config video atMs count probe))
  for (r, i) in regions.zipIdx do line (regionText r i)

/-- Shows the facts about a source. -/
def probeTask (host : Host) (config : Config) (video : String) : M Unit := do
  let probe ← orFail "Probe failed"
    (← withoutScratch (Work.probe host config.render.ffprobePath video))
  line s!"Source: {video}"
  line s!"  Resolution: {probe.width}x{probe.height}"
  match probe.durationMs with
  | some ms => line s!"  Duration: {secondsText ms}s"
  | none => line "  Duration: unknown"
  line ("  Audio: " ++ yesOrNo probe.hasAudio)

/-- The first line that a program says about its version. -/
def version? (host : Host) (program : String) : Work (Option String) := do
  match ← Work.launch host program ["-version"] with
  | .error _ => return none
  | .ok r =>
      if r.status.isSuccess then
        return ((Text.lines (Text.decodeLossy r.output).toList).head?).map fun first =>
          String.ofList (Text.trimChars first)
      else return none

/-- Reports whether a program can be run. -/
def checkProgram (host : Host) (label program : String) : M Bool := do
  match ← orFail label (← withoutScratch (version? host program)) with
  | some version =>
      line s!"[OK] {label}: {version}"
      return true
  | none =>
      line s!"[FAIL] {label}: {program} not runnable"
      return false

/-- Reports on the tools and the configuration. -/
def checkTask (host : Host) (config : Config) : M Unit := do
  line "Reelcut System Check"
  line (String.ofList (List.replicate 50 '='))
  let path := Config.path host.environment
  if (← tree).has path then line s!"[OK] Config: {path}"
  else line s!"[INFO] Config: defaults ({path} not found)"
  let settings := config.render
  let encoderRuns ← checkProgram host "Encoder" settings.ffmpegPath
  let probeRuns ← checkProgram host "Probe" settings.ffprobePath
  let ready := encoderRuns && probeRuns
  if ready then
    let encoder ← orFail "Video encoder"
      (← withoutScratch (Work.detectEncoder host settings.ffmpegPath))
    let kind := if encoder.isHardware then "hardware" else "software"
    line s!"[OK] Video encoder: {encoder.codecName} ({kind})"
    if !settings.preferHardwareEncoder then
      line "     Hardware encoding disabled in config; libx264 will be used"
  line s!"[OK] Subject locator tiers: {tierText (host.tiers config.vision)}"
  if (Locator.credential? config.vision (host.environment Locator.credentialVariable)).isNone then
    line "     Vision tier skipped: no credential configured"
  match settings.soundEffectPath with
  | some path =>
      if (← tree).has path then line s!"[OK] SFX: {path}" else line s!"[WARN] SFX: {path} missing"
  | none => line "[INFO] SFX: none configured"
  line ""
  if ready then line "All required tools are available. Reelcut is ready."
  else line "Some required tools are missing. See above for fixes."

/-- Does a task. -/
def perform (host : Host) (options : Options) (task : Task) : M Unit := do
  let config ← loadConfig host options.configPath
  openLog config.logging
  match task with
  | .render spec output => renderTask host config spec output
  | .compile spec asData => compileTask host config spec asData
  | .validate spec => validateTask spec
  | .locate video atMs count => locateTask host config video atMs count
  | .probe video => probeTask host config video
  | .check => checkTask host config

/-- How a call of the program ended. -/
structure Ended where
  code : Nat
  output : String
  errors : String
  files : FileTree

/-- What the program says about its version. -/
def versionText : String := programName ++ " 0.1.0\n"

/-- A call of the program with some arguments. -/
def call (host : Host) (args : List String) (t : FileTree) : Ended :=
  match parse args with
  | .error .usage => ⟨2, "", generalHelp, t⟩
  | .error (.help task) => ⟨0, helpText task, "", t⟩
  | .error .version => ⟨0, versionText, "", t⟩
  | .ok (options, task) =>
      let (result, c) := Id.run ((perform host options task).run.run { files := t })
      match result with
      | .ok _ => ⟨0, c.output, c.errors, c.files⟩
      | .error message => ⟨1, c.output, c.errors ++ s!"Error: {message}\n", c.files⟩

end Montage.Cli
