import Montage.Fault
import Montage.Graph.Wiring

/-!
# Building a graph

A builder hands out each source stream once and gives every node output a fresh label: `v0`, `v1`,
… for video and `a0`, `a1`, … for audio.
-/

namespace Montage

/-- A graph in the making. -/
structure Builder where
  inputs : List MediaInput
  nodes : List Node := []
  nextVideo : Nat := 0
  nextAudio : Nat := 0
  taken : List (Nat × Stream) := []
  deriving DecidableEq, Repr

namespace Builder

/-- A graph whose input 0 is the given one. -/
def new (source : MediaInput) : Builder := { inputs := [source] }

/-- Declares one more input and gives its number. -/
def addInput (b : Builder) (input : MediaInput) : Builder × Nat :=
  ({ b with inputs := b.inputs ++ [input] }, b.inputs.length)

/-- Takes a stream of an input. Each can be taken once. -/
def source (b : Builder) (kind : Stream) (input : Nat) : Builder × Except WiringFault Pad :=
  if b.inputs.length ≤ input then (b, .error (.notDeclared input))
  else
    let wasTaken := b.taken.contains (input, kind)
    ({ b with taken := if wasTaken then b.taken else (input, kind) :: b.taken },
      if wasTaken then .error (.alreadyTaken input kind) else .ok (.source input kind))

/-- Takes a stream of an input or fails with the refusal. -/
def take (b : Builder) (kind : Stream) (input : Nat) : Outcome (Builder × Pad) :=
  match b.source kind input with
  | (b, .ok pad) => .ok (b, pad)
  | (_, .error refusal) => .fail refusal.toFault

/-- The number of labels of a kind that were given out. -/
def nextLabel (b : Builder) : Stream → Nat
  | .video => b.nextVideo
  | .audio => b.nextAudio

/-- The label of a kind with a number. -/
def label (kind : Stream) (n : Nat) : String := s!"{kind.letter}{n}"

/-- The builder after `count` more labels of a kind. -/
def skipLabels (b : Builder) (kind : Stream) (count : Nat) : Builder :=
  match kind with
  | .video => { b with nextVideo := b.nextVideo + count }
  | .audio => { b with nextAudio := b.nextAudio + count }

@[simp] theorem skipLabels_inputs (b : Builder) (kind : Stream) (count : Nat) :
    (b.skipLabels kind count).inputs = b.inputs := by
  cases kind <;> rfl

@[simp] theorem skipLabels_taken (b : Builder) (kind : Stream) (count : Nat) :
    (b.skipLabels kind count).taken = b.taken := by
  cases kind <;> rfl

theorem nextLabel_skipLabels (b : Builder) (kind k : Stream) (count : Nat) :
    (b.skipLabels kind count).nextLabel k =
      if k = kind then b.nextLabel k + count else b.nextLabel k := by
  cases kind <;> cases k <;> rfl

/-- Emits a node with the given count of outputs. -/
def fanOut (b : Builder) (kind : Stream) (stage : Stage) (inputs : List Pad)
    (filters : List Filter) (outputs : Nat) : Builder × List Pad :=
  let pads := (List.range outputs).map fun i => Pad.link (label kind (b.nextLabel kind + i)) kind
  let node : Node := { id := b.nodes.length, stage, filters, inputs, outputs := pads }
  ({ b.skipLabels kind outputs with nodes := b.nodes ++ [node] }, pads)

/-- Emits a node with the given count of outputs, if there can be so many pads. -/
def fanOut? (b : Builder) (kind : Stream) (stage : Stage) (inputs : List Pad)
    (filters : List Filter) (outputs : Nat) : Option (Builder × List Pad) :=
  Limits.guardList outputs 32 fun _ => b.fanOut kind stage inputs filters outputs

/-- Emits a node with one output. -/
def node (b : Builder) (kind : Stream) (stage : Stage) (inputs : List Pad)
    (filters : List Filter) : Builder × Pad :=
  let output := Pad.link (label kind (b.nextLabel kind)) kind
  let node : Node := { id := b.nodes.length, stage, filters, inputs, outputs := [output] }
  ({ b.skipLabels kind 1 with nodes := b.nodes ++ [node] }, output)

/-- Emits a node without inputs. -/
def generator (b : Builder) (kind : Stream) (stage : Stage) (filters : List Filter) :
    Builder × Pad :=
  b.node kind stage [] filters

/-- The finished graph. -/
def finish (b : Builder) (video audio : Option Pad) : Graph :=
  { inputs := b.inputs, nodes := b.nodes, videoOut := video, audioOut := audio }

end Builder

end Montage
