import Montage.Encoder
import Montage.Graph.Basic
import Montage.Probe
import Montage.Render.Session

/-!
# The tools of a render

What the probe and the encoder are asked before the program of a clip is known: facts about the
source, a still picture, and which encoders work.
-/

namespace Montage.Work

/-- The arguments that ask for facts about a source. -/
def probeArgs (source : String) : List String :=
  ["-v", "error", "-print_format", "json", "-show_format", "-show_streams", source]

/-- The facts about a source. -/
def probe (host : Host) (program source : String) : Work Probe := do
  match ← launch host program (probeArgs source) with
  | .error e => fail (.probe s!"Failed to run {program}: {e.message}")
  | .ok r =>
      if r.status.isSuccess then
        let output := Text.decodeLossy r.output
        ofOutcome (Outcome.ofExcept (Probe.ofText output host.complaints.report))
      else
        fail (.probe
          s!"ffprobe exited with {r.status.text}: {Text.trim (Text.decodeLossy r.errors)}")

/-- The facts about a source, or the assumed ones if it cannot be probed. Cancellation is no reason
to assume anything. -/
def probeOrAssume (host : Host) (settings : RenderSettings) (source : String) : Work Probe := do
  try probe host settings.ffprobePath source
  catch
    | .fault (.probe _) => return Probe.assumed settings
    | failure => throw failure

/-- The arguments that take a still picture at a time. -/
def stillArgs (source : String) (atMs : Nat) (output : String) : List String :=
  ["-hide_banner", "-loglevel", "error", "-y", "-ss", secondsText atMs, "-i", source,
   "-frames:v", "1", "-vf", "scale=640:-2", "-q:v", "4", output]

/-- A still picture of the source; none if the encoder does not make one. -/
def still? (host : Host) (program source : String) (atMs : Nat) :
    Work (Option (Option Picture)) := do
  let output ← allocate "still" "jpg"
  match ← launch host program (stillArgs source atMs output) with
  | .error _ => return none
  | .ok r =>
      let t ← files
      if r.status.isSuccess && t.has output then
        return some ((t.read output).toOption.bind host.decodeStill)
      else return none

/-- The subjects of a source at a time. -/
def locate (host : Host) (config : Config) (source : String) (atMs count : Nat) (probe : Probe) :
    Work (List Region) := do
  let tiers := host.tiers config.vision
  let still ←
    if tiers.any (·.needsStill) then still? host config.render.ffmpegPath source atMs
    else pure none
  return Locator.locate tiers ⟨still, probe.width, probe.height⟩ count

/-- The first of some encoders whose trial succeeds. -/
def firstUsable (host : Host) (program : String) : List Encoder → Work Encoder
  | [] => return .libx264
  | e :: rest => do
      match ← launch host program e.trialArgs with
      | .ok r => if r.status.isSuccess then return e else firstUsable host program rest
      | .error _ => firstUsable host program rest

/-- The best encoder that works. -/
def detectEncoder (host : Host) (program : String) : Work Encoder := do
  match ← launch host program Encoder.listArgs with
  | .ok r =>
      if r.status.isSuccess then
        firstUsable host program (Encoder.ofListing (Text.decodeLossy r.output))
      else return .libx264
  | .error _ => return .libx264

/-- The encoder under some settings. -/
def chooseEncoder (host : Host) (settings : RenderSettings) : Work Encoder :=
  if settings.preferHardwareEncoder then detectEncoder host settings.ffmpegPath
  else return .libx264

end Montage.Work
