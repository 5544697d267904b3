import Montage.Fault
import Montage.Graph.Basic

/-!
# Wiring

A graph is wired when every stream that a node reads exists and is read once, every output is read
or leaves the graph, and the pads that leave it exist. The check goes through the nodes in order
and then looks at the ends.
-/

namespace Montage

/-- A breach of the wiring rules. -/
inductive WiringFault where
  | misnumbered (position id : Nat)
  | noFilters (node : Nat)
  | undeclaredInput (node input : Nat)
  | sourceReadTwice (input : Nat) (kind : Stream)
  | wrongKind (node : Nat) (label : String)
  | readTooEarly (node : Nat) (label : String)
  | readTwice (label : String)
  | declaredTwice (label : String)
  | declaresSource (node : Nat)
  | noTerminal
  | terminalKind (pad : Pad)
  | dangling (label : String)
  | terminalRead (label : String)
  | unavailable (pad : Pad)
  | unconnected (labels : List String)
  | notDeclared (input : Nat)
  | alreadyTaken (input : Nat) (kind : Stream)
  | differentSources
  deriving DecidableEq, Repr

namespace WiringFault

/-- The text of a breach. -/
def message : WiringFault → String
  | misnumbered position id => s!"node at position {position} has id {id}"
  | noFilters node => s!"node {node} has no filters"
  | undeclaredInput node input => s!"node {node} reads undeclared input {input}"
  | sourceReadTwice input kind => s!"source pad [{input}:{kind.letter}] consumed twice"
  | wrongKind node label => s!"node {node} reads [{label}] as the wrong stream kind"
  | readTooEarly node label => s!"node {node} reads [{label}] before any node produces it"
  | readTwice label => s!"pad [{label}] consumed twice"
  | declaredTwice label => s!"pad [{label}] declared twice"
  | declaresSource node => s!"node {node} declares a source pad as output"
  | noTerminal => "graph has no terminal pad"
  | terminalKind pad => s!"terminal {pad.text} has the wrong stream kind"
  | dangling label => s!"terminal [{label}] is dangling"
  | terminalRead label => s!"terminal [{label}] is also consumed by a node"
  | unavailable pad => s!"terminal {pad.text} is unavailable"
  | unconnected labels => "unconnected outputs: " ++ ", ".intercalate labels
  | notDeclared input => s!"input {input} is not declared"
  | alreadyTaken input kind => s!"source [{input}:{kind.letter}] already taken"
  | differentSources => "video and audio graphs read different sources"

/-- The fault that reports a breach. -/
def toFault (w : WiringFault) : Fault := .graph s!"Invalid filter graph: {w.message}"

end WiringFault

/-- What the nodes so far declare and read. -/
structure Wiring where
  declared : List (String × Stream) := []
  read : List String := []
  sources : List (Nat × Stream) := []
  deriving DecidableEq, Repr

namespace Wiring

/-- Node `index` of a graph with `inputCount` inputs reads a pad. -/
def readPad (inputCount index : Nat) (w : Wiring) : Pad → Except WiringFault Wiring
  | .source input kind =>
      if inputCount ≤ input then .error (.undeclaredInput index input)
      else if (input, kind) ∈ w.sources then .error (.sourceReadTwice input kind)
      else .ok { w with sources := (input, kind) :: w.sources }
  | .link label kind =>
      match w.declared.lookup label with
      | none => .error (.readTooEarly index label)
      | some found =>
          if found ≠ kind then .error (.wrongKind index label)
          else if label ∈ w.read then .error (.readTwice label)
          else .ok { w with read := label :: w.read }

/-- Node `index` declares a pad. -/
def declarePad (index : Nat) (w : Wiring) : Pad → Except WiringFault Wiring
  | .source .. => .error (.declaresSource index)
  | .link label kind =>
      if (w.declared.lookup label).isSome then .error (.declaredTwice label)
      else .ok { w with declared := (label, kind) :: w.declared }

/-- The node at a position. -/
def addNode (inputCount : Nat) (w : Wiring) (node : Node) (index : Nat) :
    Except WiringFault Wiring := do
  if node.id ≠ index then throw (.misnumbered index node.id)
  if node.filters = [] then throw (.noFilters index)
  let w ← node.inputs.foldlM (readPad inputCount index) w
  node.outputs.foldlM (declarePad index) w

/-- All nodes. -/
def ofNodes (inputCount : Nat) (nodes : List Node) : Except WiringFault Wiring :=
  nodes.zipIdx.foldlM (fun w (node, index) => w.addNode inputCount node index) {}

/-- A pad that leaves the graph as a stream of the given kind. -/
def checkTerminal (inputCount : Nat) (w : Wiring) (kind : Stream) (pad : Pad) :
    Except WiringFault Unit :=
  if pad.kind ≠ kind then .error (.terminalKind pad)
  else
    match pad with
    | .link label _ =>
        if (w.declared.lookup label).isNone then .error (.dangling label)
        else if label ∈ w.read then .error (.terminalRead label)
        else .ok ()
    | .source input kind =>
        if inputCount ≤ input ∨ (input, kind) ∈ w.sources then .error (.unavailable pad)
        else .ok ()

/-- The declared labels that no node reads and that do not leave the graph, sorted. -/
def unconnected (w : Wiring) (terminals : List String) : List String :=
  ((w.declared.map Prod.fst).filter fun label => label ∉ w.read ∧ label ∉ terminals).mergeSort
    fun a b => a ≤ b

end Wiring

namespace Graph

/-- The labels of the pads that leave the graph. -/
def terminalLabels (g : Graph) : List String :=
  (g.videoOut.toList ++ g.audioOut.toList).filterMap Pad.label?

/-- Checks the wiring of the graph. -/
def check (g : Graph) : Except WiringFault Unit := do
  let w ← Wiring.ofNodes g.inputs.length g.nodes
  if g.videoOut = none ∧ g.audioOut = none then throw .noTerminal
  g.videoOut.forM (w.checkTerminal g.inputs.length .video)
  g.audioOut.forM (w.checkTerminal g.inputs.length .audio)
  let loose := w.unconnected g.terminalLabels
  if loose ≠ [] then throw (.unconnected loose)

/-- The graph, if it is wired. -/
def checked (g : Graph) : Except WiringFault Graph := do
  g.check
  return g

end Graph

end Montage
