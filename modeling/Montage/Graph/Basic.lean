import Montage.Clip.Timeline
import Montage.Decimal.Fixed

/-!
# Filter graphs

A graph reads media inputs and consists of nodes. A node is a chain of filters between labelled
pads; a pad is a stream of an input or an output of a node. Up to two pads leave the graph.
-/

namespace Montage

/-- The kind of a stream. -/
inductive Stream where
  | video
  | audio
  deriving DecidableEq, Repr

/-- The letter that stands for a kind in pads and labels. -/
def Stream.letter : Stream → String
  | .video => "v"
  | .audio => "a"

/-- The name of a kind. -/
def Stream.name : Stream → String
  | .video => "video"
  | .audio => "audio"

/-- A stream in the graph: of an input, or of a node's output. -/
inductive Pad where
  | source (input : Nat) (kind : Stream)
  | link (label : String) (kind : Stream)
  deriving DecidableEq, Repr

namespace Pad

/-- The kind of the stream. -/
def kind : Pad → Stream
  | source _ kind => kind
  | link _ kind => kind

/-- The label of a node's output. -/
def label? : Pad → Option String
  | source .. => none
  | link label _ => some label

/-- The pad as it is written in the program text. -/
def text : Pad → String
  | source input kind => s!"[{input}:{kind.letter}]"
  | link label _ => s!"[{label}]"

end Pad

/-- One filter of a chain, with its arguments as written. -/
structure Filter where
  name : String
  args : Option String := none
  deriving DecidableEq, Repr

/-- A filter with arguments. -/
def Filter.withArgs (name args : String) : Filter := ⟨name, some args⟩

/-- The filter as it is written in the program text. -/
def Filter.text (f : Filter) : String :=
  match f.args with
  | some args => s!"{f.name}={args}"
  | none => f.name

/-- The part of the compilation that a node belongs to. -/
inductive Stage where
  | frame
  | tempo
  | motion
  | overlay
  | color
  | subtitle
  | watermark
  | primary
  | enhance
  | music
  | mix
  | sfx
  deriving DecidableEq, Repr

namespace Stage

/-- Every stage, in the order of the compilation. -/
def all : List Stage :=
  [.frame, .tempo, .motion, .overlay, .color, .subtitle, .watermark, .primary, .enhance, .music,
   .mix, .sfx]

/-- The name of a stage. -/
def name : Stage → String
  | frame => "frame"
  | tempo => "tempo"
  | motion => "motion"
  | overlay => "overlay"
  | color => "color"
  | subtitle => "subtitle"
  | watermark => "watermark"
  | primary => "primary"
  | enhance => "enhance"
  | music => "music"
  | mix => "mix"
  | sfx => "sfx"

end Stage

/-- A chain of filters with the pads it reads and declares. -/
structure Node where
  id : Nat
  stage : Stage
  filters : List Filter
  inputs : List Pad
  outputs : List Pad
  deriving DecidableEq, Repr

namespace Node

/-- Whether some filter of the chain has the name. -/
def hasFilter (n : Node) (name : String) : Bool := n.filters.any fun f => f.name == name

/-- The node as it is written in the program text. -/
def text (n : Node) : String :=
  String.join (n.inputs.map Pad.text) ++ ",".intercalate (n.filters.map Filter.text) ++
    String.join (n.outputs.map Pad.text)

end Node

/-- A media file that the program reads, with the options before it. -/
structure MediaInput where
  path : String
  options : List String := []
  deriving DecidableEq, Repr

/-- Milliseconds as seconds with three places. -/
def secondsText (ms : Nat) : String := Decimal.fixed 3 (Window.seconds ms)

namespace MediaInput

/-- A range of a file. -/
def trimmed (path : String) (startMs durationMs : Nat) : MediaInput :=
  { path, options := ["-ss", secondsText startMs, "-t", secondsText durationMs] }

/-- A still image shown for some time. -/
def loopedImage (path : String) (durationMs : Nat) : MediaInput :=
  { path, options := ["-loop", "1", "-t", secondsText durationMs] }

/-- A sound repeated without end, from an offset. -/
def loopedAudio (path : String) (offsetMs : Nat) : MediaInput :=
  { path, options := ["-stream_loop", "-1", "-ss", secondsText offsetMs] }

/-- The arguments that declare the input. -/
def args (m : MediaInput) : List String := m.options ++ ["-i", m.path]

end MediaInput

/-- Inputs, nodes in order, and the pads that leave the graph. -/
structure Graph where
  inputs : List MediaInput
  nodes : List Node
  videoOut : Option Pad := none
  audioOut : Option Pad := none
  deriving DecidableEq, Repr

namespace Graph

/-- The nodes of a stage, in order. -/
def stageNodes (g : Graph) (stage : Stage) : List Node := g.nodes.filter fun n => n.stage = stage

/-- The program text of the graph. -/
def filterText (g : Graph) : String := ";".intercalate (g.nodes.map Node.text)

end Graph

end Montage
