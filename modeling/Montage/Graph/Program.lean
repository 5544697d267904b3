import Montage.Fault
import Montage.Graph.Wiring
import Montage.Json.Printer
import Montage.Path

/-!
# Encoder programs

The video graph and the audio graph of a clip read the same source. Their union, with the audio
graph's further inputs numbered after the video graph's, is the program of the encoder.
-/

namespace Montage

/-- A graph for picture and sound and the length of its output. -/
structure Program where
  graph : Graph
  durationMs : Nat
  deriving DecidableEq, Repr

namespace Program

/-- A pad of the audio graph after `offset` inputs were put in front of all but its first. -/
def renumber (offset : Nat) : Pad → Pad
  | .source input kind => .source (if input = 0 then 0 else input + offset) kind
  | pad => pad

/-- A node of the audio graph behind `base` nodes of the video graph. -/
def shiftNode (base offset : Nat) (n : Node) : Node :=
  { n with id := n.id + base, inputs := n.inputs.map (renumber offset) }

/-- The union of the two graphs, unchecked. -/
def union (video audio : Graph) : Graph :=
  { inputs := video.inputs ++ audio.inputs.drop 1
    nodes := video.nodes ++
      audio.nodes.map (shiftNode video.nodes.length (video.inputs.length - 1))
    videoOut := video.videoOut
    audioOut := audio.audioOut }

/-- Whether two graphs read the same source, in the same manner, or both none. Paths are compared
by the parts that count. -/
def sameSource (video audio : Graph) : Bool :=
  match video.inputs.head?, audio.inputs.head? with
  | some v, some a => Path.same v.path a.path && v.options == a.options
  | none, none => true
  | _, _ => false

/-- The program of two graphs that read the same source. -/
def merge (video audio : Graph) (durationMs : Nat) : Except WiringFault Program := do
  if !sameSource video audio then throw .differentSources
  let graph ← (union video audio).checked
  return { graph, durationMs }

/-- Whether the numbers of the audio graph's nodes and inputs can be raised as the union does. -/
def canRenumber (video audio : Graph) : Bool :=
  audio.nodes.all fun n =>
    n.id + video.nodes.length < Limits.number && n.inputs.all fun pad =>
      match renumber (video.inputs.length - 1) pad with
      | .source input _ => input < Limits.number
      | .link .. => true

/-- The program of two graphs that read the same source, if their numbers can be raised. -/
def merge? (video audio : Graph) (durationMs : Nat) : Option (Except WiringFault Program) :=
  if sameSource video audio && !canRenumber video audio then none
  else some (merge video audio durationMs)

/-- The options in front of every program. -/
def leadingArgs : List String :=
  ["-hide_banner", "-nostdin", "-y", "-loglevel", "error", "-progress", "pipe:1", "-nostats"]

/-- The arguments of the encoder: fixed options, inputs, the program text, what leaves the graph,
the codec, the length and the output. -/
def args (p : Program) (codecArgs : List String) (output : String) : List String :=
  leadingArgs ++ p.graph.inputs.flatMap MediaInput.args ++
    ["-filter_complex", p.graph.filterText] ++
    (p.graph.videoOut.toList ++ p.graph.audioOut.toList).flatMap (fun pad => ["-map", pad.text]) ++
    codecArgs ++ ["-t", secondsText p.durationMs, output]

end Program

/-! ## Data form

Graphs and programs as data. -/

/-- The value of a pad. -/
def Pad.toJson : Pad → Json
  | .source input kind =>
      .record [("type", .text "source"), ("input", .ofNat input), ("kind", .text kind.name)]
  | .link label kind =>
      .record [("type", .text "link"), ("label", .text label), ("kind", .text kind.name)]

/-- The value of a filter. -/
def Filter.toJson (f : Filter) : Json :=
  .record [("name", .text f.name), ("args", .optional .text f.args)]

/-- The value of a node. -/
def Node.toJson (n : Node) : Json :=
  .record [("id", .ofNat n.id), ("stage", .text n.stage.name),
    ("filters", .array (n.filters.map Filter.toJson)),
    ("inputs", .array (n.inputs.map Pad.toJson)), ("outputs", .array (n.outputs.map Pad.toJson))]

/-- The value of an input. -/
def MediaInput.toJson (m : MediaInput) : Json :=
  .record [("path", .text m.path), ("options", .array (m.options.map .text))]

/-- The value of a graph. -/
def Graph.toJson (g : Graph) : Json :=
  .record [("inputs", .array (g.inputs.map MediaInput.toJson)),
    ("nodes", .array (g.nodes.map Node.toJson)), ("video_out", .optional Pad.toJson g.videoOut),
    ("audio_out", .optional Pad.toJson g.audioOut)]

/-- The value of a program. -/
def Program.toJson (p : Program) : Json :=
  .record [("graph", p.graph.toJson), ("duration_ms", .ofNat p.durationMs)]

end Montage
