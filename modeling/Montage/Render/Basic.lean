import Montage.Render.Plan
import Montage.Text.Split

/-!
# Renders

A render plans an edit in a scratch directory of its own, runs the encoder, and removes the
directory on every way out. A failed encoder leaves no output behind.
-/

/-! ## Encoding

The run of the encoder. Its output is a list of statements `key=value`; each one with the key
`progress` completes a report. -/

namespace Montage.Plan

open Work (fail)

/-- A statement of the encoder. -/
def statement? (line : String) : Option (String × String) :=
  (Text.splitAt? ['='] (Text.trimChars line.toList)).map fun (key, value) =>
    (String.ofList key, String.ofList value)

/-- The byte that ends a line. -/
def lineEnd : UInt8 := 10

/-- The lines of some bytes, with their ends. -/
def linesOf (bytes : List UInt8) : List (List UInt8) := bytes.splitBy fun a _ => a ≠ lineEnd

/-- A line without its end, which may have a carriage return in front. -/
def withoutEnd (line : List UInt8) : List UInt8 :=
  match line.reverse with
  | 10 :: 13 :: rest | 10 :: rest => rest.reverse
  | _ => line

/-- Leaves the files as they were when the encoder was stopped after so many lines. -/
def stopped (run : Run) (count : Nat) : Work Unit :=
  modify fun s => { s with files := run.filesAt count }

/-- Fails if the render is cancelled by now; the encoder is stopped then. -/
def checkpoint (run : Run) (count : Nat) : Work Unit := do
  try Work.pause
  catch failure =>
    stopped run count
    throw failure

/-- The event after a statement that completes a report. -/
def encodingEvent (elapsed expected : Binary64) (state : EncodeState) : Progress :=
  let ratio := state.ratio expected
  ⟨.encoding, encodePercent ratio, remaining? elapsed ratio⟩

/-- Follows the output of the encoder, of which `count` lines have been read. -/
def follow (host : Host) (expected : Binary64) (run : Run) :
    Nat → EncodeState → List (List UInt8) → Work Unit
  | count, _, [] => checkpoint run count
  | count, state, line :: rest => do
      checkpoint run count
      match Text.readUtf8 (withoutEnd line) with
      | .error broken =>
          stopped run (count + 1)
          fail (.encode "Failed reading encoder progress" broken.message)
      | .ok text =>
          match statement? text with
          | none => follow host expected run (count + 1) state rest
          | some (key, value) =>
              let state := state.update key value
              if key = "progress" then
                Work.report (encodingEvent (host.elapsed (count + 1)) expected state)
              follow host expected run (count + 1) state rest

/-- What the encoder says about its failure. -/
def diagnostics (run : Run) : String :=
  match Text.readUtf8 run.errors with
  | .ok text => Text.trim text
  | .error broken => s!"<failed to read encoder stderr: {broken.message}>"

/-- Runs the encoder. -/
def encode (host : Host) (ffmpegPath : String) (p : Plan) : Work Unit := do
  match host.launch ffmpegPath p.args (← Work.files) with
  | .error e => fail (.encode s!"Failed to start {ffmpegPath}" e.message)
  | .ok run =>
      follow host (Window.seconds p.program.durationMs) run 0 {} (linesOf run.output)
      modify fun s => { s with files := run.files }
      if !run.status.isSuccess then
        fail (.encode s!"Encoder exited with {run.status.text}" (diagnostics run))
      if !(← Work.files).has p.outputPath then
        fail (.encode "Encoder reported success but wrote no output" (diagnostics run))

end Montage.Plan

/-! ## The render -/

namespace Montage

/-- How a render ended: its result, the files, and the events in order. -/
structure Rendered where
  result : Outcome String
  files : FileTree
  events : List Progress

namespace Render

open Work (fail)

/-- Makes the directory that the output goes to. -/
def prepareOutput (outputPath : String) : Work Unit := do
  match (Path.parent? outputPath).filter (· ≠ "") with
  | none => pure ()
  | some parent =>
      let s ← get
      let (files, made) := s.files.createDirectories parent
      set { s with files }
      match made with
      | .ok _ => pure ()
      | .error e => fail (.io e.message)

/-- Removes what the encoder has written. -/
def discardOutput (outputPath : String) : Work Unit :=
  modify fun s => { s with files := s.files.withoutFile outputPath }

/-- The render of an edit inside a scratch directory: the path of the output. -/
def inScratch (host : Host) (config : Config) (edit : Edit) : Work String := do
  Work.pause
  let plan ← Plan.ofEdit host config edit
  prepareOutput plan.outputPath
  try plan.encode host config.render.ffmpegPath
  catch failure =>
    discardOutput plan.outputPath
    throw failure
  return plan.outputPath

/-- Makes the scratch directory of a render, where the settings say or in the usual place. -/
def openScratch (host : Host) (settings : RenderSettings) (t : FileTree) :
    FileTree × Except Fault (FileTree × Scratch) :=
  match settings.tempDir with
  | none => (t, Scratch.new t host.temporaryDirectory host.suffix)
  | some dir =>
      match t.createDirectories dir with
      | (t, .error e) => (t, .error (.io e.message))
      | (t, .ok _) => (t, Scratch.new t dir host.suffix)

/-- The events so far, the first one first. -/
def eventsOf (t : Tracker) : List Progress := t.events.reverse

end Render

open Render in
/-- Renders an edit. `cancelled` tells whether the render is cancelled after so many waits and these
events, last one first. -/
def render (host : Host) (config : Config) (edit : Edit)
    (cancelled : Nat → List Progress → Bool) (t : FileTree) : Rendered :=
  let tracker := (({} : Tracker).report ⟨.preparing, 0, none⟩).1
  match openScratch host config.render t with
  | (t, .error f) => ⟨.error (.fault f), t, eventsOf tracker⟩
  | (_, .ok (t, scratch)) =>
      let (result, s) :=
        (inScratch host config edit).perform { files := t, scratch, tracker, cancelled }
      let (_, t) := s.scratch.cleanup s.files
      let tracker := if result.isOk then s.tracker.complete else s.tracker
      ⟨result, t, eventsOf tracker⟩

end Montage
