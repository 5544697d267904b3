import Montage.Binary64.Basic

/-!
# Configuration

The settings that are not part of an edit: tools, defaults of the output, the remote subject
detection, and logging.
-/

namespace Montage

/-- Settings of the output and the tools that make it. -/
structure RenderSettings where
  ffmpegPath : String := "ffmpeg"
  ffprobePath : String := "ffprobe"
  /-- The size of a source that cannot be probed. -/
  defaultWidth : Nat := 1920
  defaultHeight : Nat := 1080
  fps : Nat := 30
  videoBitrateKbps : Nat := 8000
  audioBitrateKbps : Nat := 192
  preferHardwareEncoder : Bool := true
  /-- The greatest automatic zoom. -/
  autoZoomMax : Binary64 := 1.15
  /-- The sound at caption onsets when the edit names none. -/
  soundEffectPath : Option String := none
  fontsDir : Option String := none
  tempDir : Option String := none
  outputDir : Option String := none
  deriving DecidableEq

/-- Settings of the remote subject detection. -/
structure VisionSettings where
  apiKey : Option String := none
  endpoint : String := "https://vision.reelcut.dev/v1/subjects"
  model : String := "subject-locator-1"
  timeoutSecs : Nat := 20
  deriving DecidableEq

/-- Settings of the log. -/
structure LogSettings where
  level : String := "info"
  json : Bool := false
  file : Option String := none
  deriving DecidableEq

/-- All settings. -/
structure Config where
  render : RenderSettings := {}
  vision : VisionSettings := {}
  logging : LogSettings := {}
  deriving DecidableEq

end Montage
