/-!
# Faults and limits

The ways an operation can fail, their wording, and whether trying again may help. A broken
precondition is no fault: it stops the computation altogether.
-/

namespace Montage

/-- A reported failure. -/
inductive Fault where
  | probe (message : String)
  | locatorTier (tier message : String)
  | graph (message : String)
  | encode (message diagnostics : String)
  | cleanup (path cause : String)
  | cancelled
  | config (message : String)
  | fileNotFound (path : String)
  | io (cause : String)
  | data (cause : String)
  | other (cause : String)
  deriving DecidableEq, Repr

namespace Fault

/-- The text of a fault. -/
def message : Fault → String
  | probe message => s!"Probe error: {message}"
  | locatorTier tier message => s!"Subject locator tier '{tier}' failed: {message}"
  | graph message => s!"Graph construction error: {message}"
  | encode message diagnostics => s!"Encode error: {message}: {diagnostics}"
  | cleanup path cause => s!"Failed to remove temporary file {path}: {cause}"
  | cancelled => "Render cancelled"
  | config message => s!"Configuration error: {message}"
  | fileNotFound path => s!"File not found: {path}"
  | io cause => cause
  | data cause => cause
  | other cause => cause

/-- Whether the same render may succeed when it is tried again. -/
def retryable : Fault → Bool
  | probe _ | locatorTier .. | encode .. | cleanup .. | io _ => true
  | graph _ | cancelled | config _ | fileNotFound _ | data _ | other _ => false

/-- The fault of a text that is not a value of the expected form. -/
def malformed : Fault := .data "malformed data text"

end Fault

/-- What a library says about a text that it refuses, if that is known. -/
abbrev Complaint := String → Option String

namespace Complaint

/-- Nothing is known of what the library says. -/
def unknown : Complaint := fun _ => none

/-- A message about a text, with what the library says about the text behind a colon. -/
def explain (complain : Complaint) (message text : String) : String :=
  match complain text with
  | none => message
  | some cause => s!"{message}: {cause}"

end Complaint

/-- How a computation ends without a result: with a fault, or because a precondition is broken. -/
inductive Failure where
  | fault (fault : Fault)
  | broken
  deriving DecidableEq, Repr

/-- A result, or the reason why there is none. -/
abbrev Outcome (α : Type) := Except Failure α

namespace Outcome

/-- Fails with a fault. -/
def fail {α : Type} (f : Fault) : Outcome α := .error (.fault f)

/-- The value, or a broken precondition. -/
def ofOption {α : Type} : Option α → Outcome α
  | some a => .ok a
  | none => .error .broken

/-- The value, or the fault. -/
def ofExcept {α : Type} : Except Fault α → Outcome α
  | .ok a => .ok a
  | .error f => .error (.fault f)

end Outcome

theorem bind_eq_ok_iff {ε α β : Type} {x : Except ε α} {f : α → Except ε β} {b : β} :
    x >>= f = .ok b ↔ ∃ a, x = .ok a ∧ f a = .ok b := by
  cases x with
  | error e => exact ⟨nofun, nofun⟩
  | ok a => exact ⟨fun h => ⟨a, rfl, h⟩, fun ⟨_, ha, h⟩ => by cases ha; exact h⟩

/-! ## Limits

How far numbers and lists go: a number that counts things is below a bound, and so are the bytes
that a list takes up. What would go beyond them cannot be made at all. -/

namespace Limits

/-- The bound of the numbers that count things. -/
def number : Nat := 18446744073709551616

/-- The bound of the bytes that a list takes up. -/
def listBytes : Nat := 9223372036854775808

/-- The difference of two numbers that count things, if it is one. -/
def minus? (a b : Nat) : Option Nat := if b ≤ a then some (a - b) else none

/-- The nearest number of `[low, high]`, if the bounds are in order. -/
def clamp? (n low high : Nat) : Option Nat :=
  if low ≤ high then some (min (max n low) high) else none

/-- Whether there can be a list of so many items, each of so many bytes. -/
def admitsList (count itemBytes : Nat) : Bool := count * itemBytes < listBytes

/-- A value, if there can be a list of so many items, each of so many bytes. -/
def guardList {α : Type} (count itemBytes : Nat) (value : Unit → α) : Option α :=
  if admitsList count itemBytes then some (value ()) else none

end Limits

end Montage
