import Montage.Host.FileTree
import Montage.Locate.Chain
import Montage.OutputPath
import Montage.Progress

/-!
# The host

What a render finds around it: the environment, the time, the programs it can start, and whoever
may answer for the remote classifier. The files are not part of the host, because they change.
-/

namespace Montage

/-! ## Programs -/

/-- How a program ended. -/
inductive ExitStatus where
  | exited (code : Nat)
  | killed (signal : Nat)
  deriving DecidableEq, Repr

namespace ExitStatus

/-- Whether the program says that all went well. -/
def isSuccess (s : ExitStatus) : Bool := s = .exited 0

/-- The names of the signals, from the first on. -/
def signalNames : List String :=
  ["HUP", "INT", "QUIT", "ILL", "TRAP", "ABRT", "BUS", "FPE", "KILL", "USR1", "SEGV", "USR2",
   "PIPE", "ALRM", "TERM", "STKFLT", "CHLD", "CONT", "STOP", "TSTP", "TTIN", "TTOU", "URG",
   "XCPU", "XFSZ", "VTALRM", "PROF", "WINCH", "IO", "PWR", "SYS"]

/-- The name of a signal. -/
def signalName? (signal : Nat) : Option String :=
  if signal = 0 then none else signalNames[signal - 1]?

/-- The text of a status. -/
def text : ExitStatus → String
  | exited code => s!"exit status: {code}"
  | killed signal =>
      let name :=
        match signalName? signal with
        | some name => s!" (SIG{name})"
        | none => ""
      s!"signal: {signal}{name}"

end ExitStatus

/-- What a program did. -/
structure Run where
  output : List UInt8 := []
  errors : List UInt8 := []
  status : ExitStatus := .exited 0
  /-- The files when the program has ended. -/
  files : FileTree
  /-- The files when so many lines of the output have been read. -/
  filesAt : Nat → FileTree

/-! ## Surroundings -/

/-- What libraries say about the texts that they refuse. -/
structure Complaints where
  /-- About the payload of an inline image. -/
  payload : Complaint := .unknown
  /-- About the output of the probe. -/
  report : Complaint := .unknown

/-- What a render finds around it. -/
structure Host where
  environment : String → Option String := fun _ => none
  /-- The time, in Coordinated Universal Time. -/
  now : Instant
  /-- What makes the names of scratch directories unique. -/
  suffix : String
  /-- Starts a program with some arguments on some files. -/
  launch : String → List String → FileTree → Except OsError Run
  /-- The picture that a still holds. -/
  decodeStill : List UInt8 → Option Picture := fun _ => none
  /-- The reply of the remote classifier. -/
  askVision : Frame → Nat → Option String := fun _ _ => none
  /-- The seconds since the encoder was started, when so many lines of its output have been read. -/
  elapsed : Nat → Binary64 := fun _ => 0
  complaints : Complaints := {}

namespace Host

/-- The directory for intermediate files, when no other one is configured. -/
def temporaryDirectory (h : Host) : String := (h.environment "TMPDIR").getD "/tmp"

/-- The tiers under a configuration. -/
def tiers (h : Host) (settings : VisionSettings) : List Tier :=
  Locator.usualTiers (Locator.credential? settings (h.environment Locator.credentialVariable))
    h.askVision

end Host

end Montage
