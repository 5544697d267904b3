import Montage.Host.Basic
import Montage.Scratch

/-!
# Sessions

The state that a render works on, and the computations on it. A failure keeps the state that was
reached, so that the cleanup after it knows what there is to remove.
-/

namespace Montage

/-- What a render changes: the files, its scratch directory and its progress. -/
structure Session where
  files : FileTree
  scratch : Scratch
  tracker : Tracker := {}
  /-- How often the render has waited for a program. -/
  waits : Nat := 0
  /-- Whether the render is cancelled, after so many waits and these events. -/
  cancelled : Nat → List Progress → Bool := fun _ _ => false

/-- A computation on a session. -/
abbrev Work (α : Type) := ExceptT Failure (StateM Session) α

namespace Work

/-- The result of a computation and the session after it. -/
def perform {α : Type} (w : Work α) (s : Session) : Outcome α × Session := Id.run (w.run.run s)

/-- Fails with a fault. -/
def fail {α : Type} (f : Fault) : Work α := throw (.fault f)

/-- The value, or the failure. -/
def ofOutcome {α : Type} : Outcome α → Work α
  | .ok a => pure a
  | .error failure => throw failure

/-- The files as they are now. -/
def files : Work FileTree := return (← get).files

/-- Reports an event. -/
def report (e : Progress) : Work Unit :=
  modify fun s => { s with tracker := (s.tracker.report e).1 }

/-- Fails if the render is cancelled by now. -/
def pause : Work Unit := do
  let s ← get
  set { s with waits := s.waits + 1 }
  if s.cancelled s.waits s.tracker.events then fail .cancelled

/-- Starts a program and waits for its end. -/
def launch (host : Host) (program : String) (args : List String) : Work (Except OsError Run) := do
  match host.launch program args (← files) with
  | .error e => return .error e
  | .ok run =>
      modify fun s => { s with files := run.files }
      pause
      return .ok run

/-- Hands out a path in the scratch directory. -/
def allocate (stem extension : String) : Work String := do
  let s ← get
  let (scratch, path) := s.scratch.allocate stem extension
  set { s with scratch }
  return path

/-- Writes a file into the scratch directory. -/
def writeScratch (stem extension : String) (bytes : List UInt8) : Work String := do
  let s ← get
  match s.scratch.write s.files stem extension bytes with
  | (scratch, .ok (files, path)) =>
      set { s with scratch, files }
      return path
  | (scratch, .error f) =>
      set { s with scratch }
      fail f

end Work

end Montage
