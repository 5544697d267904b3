import Montage.Host.Basic
import Montage.Script.Builtins

/-!
# Signals

The commands that set what signals do and send them.
-/

namespace Montage.Script

/-- The number of a signal that is given by its number or name. -/
def signal? (text : String) : Option Nat :=
  match Decimal.natOfText? text.toList with
  | some n => if n < 65 then some n else none
  | none =>
      (ExitStatus.signalNames.findIdx? fun name => name = text.map Char.toUpper).map (· + 1)

/-- The number of a condition of a trap; the end of the script is number zero. -/
def trapNumber? (text : String) : Option Nat :=
  if text = "EXIT" then some 0 else signal? text

/-- Sets what is run when the script ends or gets a signal. -/
def setTraps (args : List String) : Exec Unit := do
  let (action, conditions) : Option String × List String :=
    match args with
    | "-" :: rest => (none, rest)
    | action :: rest => (some action, rest)
    | [] => (none, [])
  setStatus 0
  for condition in conditions do
    match trapNumber? condition with
    | some n =>
        modify fun s =>
          let others := s.traps.filter fun t => t.1 ≠ n
          { s with traps := action.toList.map (fun a => (n, a)) ++ others }
    | none =>
        modify fun s => s.write 2 (Text.toBytes s!"trap: {condition}: bad trap\n")
        setStatus 1

/-- The signals that end no program: the one that only asks, and those that are ignored or stop a
program for a while. -/
def harmlessSignals : List Nat := [0, 17, 18, 19, 20, 21, 22, 23, 28]

/-- Sends a signal to some processes, of which only the script itself is known. What the script has
set for the signal is the result. -/
def sendSignal (signal : Nat) (targets : List String) : Exec (Option String) := do
  let s ← get
  setStatus 0
  let mut action := none
  for target in targets do
    if target = toString s.process then
      match if signal = 0 then none else s.traps.lookup signal with
      | some a => if signal ≠ 9 then action := some a
      | none => if !harmlessSignals.contains signal then throw (.killed signal)
    else if s.lastJob.map toString = some target then pure ()
    else if (Decimal.intOfText? target.toList).isSome then refuse 1 "kill: No such process\n"
    else refuse 2 s!"kill: Illegal number: {target}"
  return action

/-- Sends the signal that some arguments name. -/
def kill (args : List String) : Exec (Option String) := do
  let send (name : String) (targets : List String) : Exec (Option String) :=
    match signal? name with
    | some n => sendSignal n targets
    | none => do
        refuse 2 s!"kill: invalid signal number or name: {name}"
        return none
  match args with
  | "-s" :: name :: rest => send name rest
  | first :: rest =>
      match first.toList with
      | '-' :: name => send (String.ofList name) rest
      | _ => sendSignal 15 args
  | [] =>
      refuse 2 "kill: Usage: kill [-s sigspec | -signum | -sigspec] pid..."
      return none

/-- What a shell says about a program that a signal has ended. -/
def signalReport? (signal : Nat) : Option String :=
  match signal with
  | 1 => some "Hangup"
  | 3 => some "Quit"
  | 4 => some "Illegal instruction"
  | 5 => some "Trace/breakpoint trap"
  | 6 => some "Aborted"
  | 7 => some "Bus error"
  | 8 => some "Floating point exception"
  | 9 => some "Killed"
  | 10 => some "User defined signal 1"
  | 11 => some "Segmentation fault"
  | 12 => some "User defined signal 2"
  | 14 => some "Alarm clock"
  | 15 => some "Terminated"
  | 16 => some "Stack fault"
  | 24 => some "CPU time limit exceeded"
  | 25 => some "File size limit exceeded"
  | 26 => some "Virtual timer expired"
  | 27 => some "Profiling timer expired"
  | 29 => some "I/O possible"
  | 30 => some "Power failure"
  | 31 => some "Bad system call"
  | _ => none

end Montage.Script
