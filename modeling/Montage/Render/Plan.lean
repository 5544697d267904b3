import Montage.Caption.Track
import Montage.Compile.Program
import Montage.DataUrl
import Montage.Edit.Spec
import Montage.Graph.Program
import Montage.Render.Tools

/-!
# Plans

All that is decided before the encoder runs. Planning checks the edit and its files, asks the
tools, writes captions and inline images into the scratch directory, and compiles the program.
-/

namespace Montage

/-- All that is decided before the encoder runs. -/
structure Plan where
  clip : Clip
  probe : Probe
  subjects : List Region
  program : Program
  encoder : Encoder
  outputPath : String
  /-- The arguments of the encoder. -/
  args : List String

/-- The value of some facts about a source. -/
def Probe.toJson (p : Probe) : Json :=
  .record [("width", .ofNat p.width), ("height", .ofNat p.height),
    ("durationMs", .optional .ofNat p.durationMs), ("hasAudio", .bool p.hasAudio),
    ("probed", .bool p.probed)]

/-- The value of a region. -/
def Region.toJson (r : Region) : Json :=
  .record [("centerX", .ofBinary64 r.centerX), ("centerY", .ofBinary64 r.centerY),
    ("confidence", .ofBinary64 r.confidence), ("method", .text r.method.name)]

namespace Plan

/-- The value of a plan. -/
def toJson (p : Plan) : Json :=
  .record [("probe", p.probe.toJson), ("subjects", .array (p.subjects.map Region.toJson)),
    ("program", p.program.toJson), ("encoder", .text p.encoder.name),
    ("outputPath", .text p.outputPath), ("args", .array (p.args.map .text))]

open Work (ofOutcome report fail)

/-- The instant of the source at which subjects are located: the middle of the trimmed range. -/
def locatingMs (clip : Clip) : Nat := clip.trimStartMs + clip.sourceSpan / 2

/-- The subjects of a clip, if the framing follows any. -/
def locateSubjects (host : Host) (config : Config) (clip : Clip) (probe : Probe) :
    Work (List Region) := do
  if clip.subjectFraming then
    report ⟨.locating, Progress.locating, none⟩
    Work.locate host config clip.sourcePath (locatingMs clip) clip.subjectCount probe
  else return []

/-- The file of a sticker; an inline image is written into the scratch directory. -/
def stickerFile (host : Host) (s : ClipSticker) : Work String := do
  match s.source with
  | .file path => return path
  | .inline url =>
      let (bytes, extension) ←
        ofOutcome (Outcome.ofExcept (DataUrl.decode url host.complaints.payload))
      Work.writeScratch "sticker" extension bytes

/-- The caption file of a clip, if it has captions. -/
def captionFile (clip : Clip) : Work (Option String) := do
  let captions ← ofOutcome (Caption.ofClip clip)
  if captions.isEmpty then return none
  else return some (← Work.writeScratch "captions" "ass" (Text.encodeUtf8 captions.text))

/-- Fails unless the files of an edit exist; the source is checked first. -/
def checkFiles (edit : Edit) (clip : Clip) : Work Unit := do
  let t ← Work.files
  if !t.has clip.sourcePath then fail (.fileNotFound clip.sourcePath)
  let missing := edit.missingFiles t.has
  if missing ≠ [] then fail (.graph ("; ".intercalate missing))

/-- Plans the render of an edit. -/
def ofEdit (host : Host) (config : Config) (edit : Edit) : Work Plan := do
  let clip ← ofOutcome (Clip.ofEdit edit)
  checkFiles edit clip
  let settings := config.render
  let outputPath := edit.outputPath.getD
    (derivedOutputPath clip.sourcePath clip.canvas settings.outputDir host.now)
  let probe ← Work.probeOrAssume host settings clip.sourcePath
  report ⟨.probing, Progress.probed, none⟩
  let subjects ← locateSubjects host config clip probe
  let stickerPaths ← clip.stickers.mapM (stickerFile host)
  let subtitlePath ← captionFile clip
  let program ← ofOutcome (Program.compile clip probe subjects
    { subtitlePath
      fontsDir := settings.fontsDir
      stickerPaths
      soundEffectPath := clip.soundEffectPath.or settings.soundEffectPath
      autoZoomMax := settings.autoZoomMax })
  let encoder ← Work.chooseEncoder host settings
  report ⟨.compiling, Progress.compiled, none⟩
  return {
    clip, probe, subjects, program, encoder, outputPath
    args := program.args (encoder.args settings) outputPath }

end Plan

end Montage
