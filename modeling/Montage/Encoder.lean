import Montage.Config.Basic
import Montage.Text.Split

/-!
# Encoders

The video encoders that can be used, how they are recognised in the tool's listing, and the
arguments that select one.
-/

namespace Montage

/-- A video encoder. -/
inductive Encoder where
  | videoToolbox
  | nvenc
  | qsv
  | amf
  | libx264
  deriving DecidableEq, Repr

namespace Encoder

/-- The encoders that need special hardware, preferred ones first. -/
def hardware : List Encoder := [.videoToolbox, .nvenc, .qsv, .amf]

/-- Every encoder. -/
def all : List Encoder := hardware ++ [.libx264]

/-- The name of an encoder in the tool. -/
def codecName : Encoder → String
  | videoToolbox => "h264_videotoolbox"
  | nvenc => "h264_nvenc"
  | qsv => "h264_qsv"
  | amf => "h264_amf"
  | libx264 => "libx264"

/-- The name of an encoder in plans. -/
def name : Encoder → String
  | videoToolbox => "videotoolbox"
  | nvenc => "nvenc"
  | qsv => "qsv"
  | amf => "amf"
  | libx264 => "libx264"

/-- Whether an encoder needs special hardware. -/
def isHardware (e : Encoder) : Bool := e ≠ .libx264

/-- The encoder that a row of the listing names: the second word, when the first one is a column of
flags that starts with `V`. -/
def listed? (line : List Char) : Option (List Char) :=
  match Text.wordsOf line with
  | ('V' :: _) :: name :: _ => some name
  | _ => none

/-- The hardware encoders in a listing, preferred ones first. -/
def ofListing (listing : String) : List Encoder :=
  let names := (Text.lines listing.toList).filterMap listed?
  hardware.filter fun e => names.contains e.codecName.toList

/-- The arguments for codecs and container. -/
def args (e : Encoder) (settings : RenderSettings) : List String :=
  ["-c:v", e.codecName] ++
    (if e = .libx264 then ["-preset", "medium", "-profile:v", "high"] else []) ++
    ["-pix_fmt", "yuv420p", "-r", toString (max settings.fps 1),
     "-b:v", s!"{max settings.videoBitrateKbps 1000}k", "-c:a", "aac",
     "-b:a", s!"{max settings.audioBitrateKbps 64}k", "-movflags", "+faststart"]

/-- The arguments of a short trial with an encoder. -/
def trialArgs (e : Encoder) : List String :=
  ["-hide_banner", "-loglevel", "error", "-f", "lavfi", "-i", "color=c=black:s=256x256:d=0.1",
   "-frames:v", "1", "-c:v", e.codecName, "-f", "null", "-"]

/-- The arguments that list the encoders. -/
def listArgs : List String := ["-hide_banner", "-encoders"]

end Encoder

end Montage
