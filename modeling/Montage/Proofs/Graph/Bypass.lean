import Montage.Proofs.Decimal.Digits
import Montage.Proofs.Graph.Building

/-! # Leaving a node out

A node with one input and one output can be left out of a graph: what read its output reads its
input instead, and the nodes and labels after it close up. A builder that never emitted the node
makes the same graph. -/

namespace Montage

/-! ## The gap that a node leaves -/

/-- The number of a picture label. -/
def Builder.number? (label : String) : Option Nat :=
  match label.toList with
  | 'v' :: digits => Decimal.natOfText? digits
  | _ => none

theorem Builder.number?_label (n : Nat) : number? (label .video n) = some n := by
  rw [number?, toList_label]
  exact Decimal.natOfText?_toDigits n

/-- What is known of a node that is left out: its number, the number of its label and the pad that
it read. -/
structure Gap where
  node : Nat
  label : Nat
  input : Pad

/-- The gap of a node with one input whose only output is a picture. -/
def Node.gap? (n : Node) : Option Gap :=
  match n.inputs, n.outputs with
  | [input], [.link l .video] =>
      (Builder.number? l).map fun label => { node := n.id, label, input }
  | _, _ => none

namespace Gap

/-- The input stands in for what the node declared, and later labels are one less. -/
def closePad (gap : Gap) : Pad → Pad
  | .link l .video =>
      match Builder.number? l with
      | some n =>
          if n = gap.label then gap.input
          else if gap.label < n then .link (Builder.label .video (n - 1)) .video
          else .link l .video
      | none => .link l .video
  | pad => pad

/-- Later nodes have numbers that are one less. -/
def closeNode (gap : Gap) (n : Node) : Node :=
  { n with
    id := if gap.node < n.id then n.id - 1 else n.id
    inputs := n.inputs.map gap.closePad
    outputs := n.outputs.map gap.closePad }

variable {gap : Gap}

theorem closePad_label (gap : Gap) :
    gap.closePad (.link (Builder.label .video gap.label) .video) = gap.input := by
  simp only [closePad, Builder.number?_label, if_true]

theorem closePad_of_lt {n : Nat} (h : n < gap.label) :
    gap.closePad (.link (Builder.label .video n) .video) =
      .link (Builder.label .video n) .video := by
  simp only [closePad, Builder.number?_label, if_neg (Nat.ne_of_lt h), if_neg (Nat.lt_asymm h)]

theorem closePad_succ {n : Nat} (h : gap.label ≤ n) :
    gap.closePad (.link (Builder.label .video (n + 1)) .video) =
      .link (Builder.label .video n) .video := by
  have hlater := Nat.lt_succ_of_le h
  simp only [closePad, Builder.number?_label, if_neg (Nat.ne_of_gt hlater), if_pos hlater,
    Nat.add_sub_cancel]

end Gap

namespace Graph

/-- The graph without a node. -/
def leaveOut (g : Graph) (n : Node) : Graph :=
  match n.gap? with
  | some gap =>
      { g with
        nodes := (g.nodes.erase n).map gap.closeNode
        videoOut := g.videoOut.map gap.closePad
        audioOut := g.audioOut.map gap.closePad }
  | none => g

/-- The graph without the node of a stage, if there is just one. -/
def without (stage : Stage) (g : Graph) : Graph :=
  match g.stageNodes stage with
  | [n] => g.leaveOut n
  | _ => g

end Graph

/-! ## Building without the node -/

namespace Builder

/-- The gap that is left where the next node would stand. -/
def gap (base : Builder) (input : Pad) : Gap := ⟨base.nodes.length, base.nextVideo, input⟩

/-- What is built so far does not change when the next node is left out. -/
theorem Balanced.closePad_given {base : Builder} {held : List Pad} (h : base.Balanced held)
    (input : Pad) {pad : Pad} (hpad : pad ∈ base.given) :
    (base.gap input).closePad pad = pad := by
  rcases List.mem_append.mp hpad with htaken | hdeclared
  · obtain ⟨stream, -, rfl⟩ := List.mem_map.mp htaken
    rfl
  · obtain ⟨kind, n, hlt, rfl⟩ := h.fresh pad hdeclared
    cases kind with
    | video => exact Gap.closePad_of_lt hlt
    | audio => rfl

theorem Balanced.closeNode {base : Builder} {held : List Pad} (h : base.Balanced held)
    (input : Pad) {n : Node} (hn : n ∈ base.nodes) : (base.gap input).closeNode n = n := by
  obtain ⟨k, hk⟩ := List.mem_iff_getElem?.mp hn
  have hid : ¬ base.nodes.length < n.id := by
    rw [h.linked.numbered k n hk]
    exact Nat.lt_asymm (List.getElem?_eq_some_iff.mp hk).1
  have hsame {pads : List Pad} (hpads : ∀ pad ∈ pads, pad ∈ base.given) :
      pads.map (base.gap input).closePad = pads :=
    (List.map_congr_left fun pad hpad => h.closePad_given input (hpads pad hpad)).trans
      (List.map_id pads)
  have hinputs := hsame fun pad (hpad : pad ∈ n.inputs) => h.mem_given_of_inputs hn hpad
  have houtputs := hsame fun pad (hpad : pad ∈ n.outputs) => mem_given_of_outputs hn hpad
  rw [Gap.closeNode, hinputs, houtputs, gap, if_neg hid]

/-- Two builders that make the same graph, except that the first one has a node of a stage behind
`base` and the second one has not. -/
structure Skips (base : Builder) (stage : Stage) (filters : List Filter) (input : Pad)
    (b b' : Builder) : Prop where
  balanced : ∃ held, base.Balanced held
  before : ∀ n ∈ base.nodes, n.stage ≠ stage
  inputs : b'.inputs = b.inputs
  taken : b'.taken = b.taken
  later : base.nextVideo ≤ b'.nextVideo
  labels : b.nextVideo = b'.nextVideo + 1
  nodes : ∃ after, b.nodes = (base.node .video stage [input] filters).1.nodes ++ after ∧
    b'.nodes = base.nodes ++ after.map (base.gap input).closeNode ∧ ∀ n ∈ after, n.stage ≠ stage

/-- The running pads correspond too. -/
structure LeavesOut (base : Builder) (stage : Stage) (filters : List Filter) (input : Pad)
    (s s' : Builder × Pad) : Prop where
  skips : base.Skips stage filters input s.1 s'.1
  pad : s'.2 = (base.gap input).closePad s.2

section

variable {base : Builder} {stage : Stage} {filters : List Filter} {input : Pad}
  {b b' : Builder} {pad pad' : Pad}

namespace Skips

theorem addInput (h : base.Skips stage filters input b b') (media : MediaInput) :
    base.Skips stage filters input (b.addInput media).1 (b'.addInput media).1 :=
  { h with inputs := congrArg (· ++ [media]) h.inputs }

/-- A stream that the first one takes can be taken by the second one. -/
theorem take (h : base.Skips stage filters input b b') {k : Nat} {c : Builder} {stream : Pad}
    (htake : b.take .video k = .ok (c, stream)) :
    ∃ c', b'.take .video k = .ok (c', stream) ∧ base.Skips stage filters input c c' := by
  obtain ⟨hk, hfree, rfl, rfl⟩ := take_eq_ok_iff.mp htake
  rw [← h.inputs] at hk
  rw [← h.taken] at hfree
  exact ⟨_, take_eq_ok_iff.mpr ⟨hk, hfree, rfl, rfl⟩,
    { h with taken := congrArg ((k, .video) :: ·) h.taken }⟩

/-- A later node closes up to the node that is emitted without the gap. -/
theorem node (h : base.Skips stage filters input b b') {other : Stage} (hother : other ≠ stage)
    (pads : List Pad) (chain : List Filter) :
    base.LeavesOut stage filters input (b.node .video other pads chain)
      (b'.node .video other (pads.map (base.gap input).closePad) chain) := by
  have hpad : (base.gap input).closePad (.link (label .video b.nextVideo) .video) =
      .link (label .video b'.nextVideo) .video := by
    rw [h.labels]
    exact Gap.closePad_succ h.later
  obtain ⟨after, hnodes, hnodes', hafter⟩ := h.nodes
  let n : Node := ⟨b.nodes.length, other, chain, pads, [.link (label .video b.nextVideo) .video]⟩
  -- past the gap every number is one more than without it
  have hlength : b.nodes.length = b'.nodes.length + 1 ∧ base.nodes.length ≤ b'.nodes.length := by
    rw [hnodes, hnodes', List.length_append, List.length_append, List.length_map]
    simp only [Builder.node, List.length_append, List.length_singleton]
    omega
  have hid : (if base.nodes.length < b.nodes.length then b.nodes.length - 1 else b.nodes.length) =
      b'.nodes.length := by
    rw [if_pos (by omega)]
    omega
  have hclosed : (base.gap input).closeNode n = ⟨b'.nodes.length, other, chain,
      pads.map (base.gap input).closePad, [.link (label .video b'.nextVideo) .video]⟩ := by
    simp only [Gap.closeNode, n, List.map_singleton, hpad]
    exact congrArg (Node.mk · _ _ _ _) hid
  refine ⟨⟨h.balanced, h.before, h.inputs, h.taken, Nat.le_succ_of_le h.later,
    congrArg (· + 1) h.labels, after ++ [n], ?_, ?_, ?_⟩, hpad.symm⟩
  · exact (congrArg (· ++ [n]) hnodes).trans (List.append_assoc _ _ _)
  · rw [List.map_append, List.map_singleton, hclosed, ← List.append_assoc, ← hnodes']
    rfl
  · intro m hm
    rcases List.mem_append.mp hm with hm | hm
    · exact hafter m hm
    · rwa [List.mem_singleton.mp hm]

end Skips

namespace LeavesOut

theorem start {held : List Pad} (h : base.Balanced held)
    (hstage : ∀ n ∈ base.nodes, n.stage ≠ stage) (filters : List Filter) (input : Pad) :
    base.LeavesOut stage filters input (base.node .video stage [input] filters) (base, input) where
  skips := ⟨⟨held, h⟩, hstage, rfl, rfl, Nat.le_refl _, rfl, [], by simp, by simp, by simp⟩
  pad := (Gap.closePad_label (base.gap input)).symm

/-- A stage that reads the running pad. -/
theorem filter (h : base.LeavesOut stage filters input (b, pad) (b', pad')) {other : Stage}
    (hother : other ≠ stage) (chain : List Filter) :
    base.LeavesOut stage filters input (b.node .video other [pad] chain)
      (b'.node .video other [pad'] chain) := by
  have hpad : pad' = (base.gap input).closePad pad := h.pad
  have hnode := h.skips.node hother [pad] chain
  rwa [List.map_singleton, ← hpad] at hnode

/-- A further input that is prepared and put over the picture. -/
theorem composite (h : base.LeavesOut stage filters input (b, pad) (b', pad')) {other : Stage}
    (hother : other ≠ stage) (prepare composite : List Filter) {media : MediaInput} {c : Builder}
    {stream : Pad} (htake : (b.addInput media).1.take .video b.inputs.length = .ok (c, stream)) :
    ∃ c', (b'.addInput media).1.take .video b'.inputs.length = .ok (c', stream) ∧
      let (d, prepared) := c.node .video other [stream] prepare
      let (d', prepared') := c'.node .video other [stream] prepare
      base.LeavesOut stage filters input (d.node .video other [pad, prepared] composite)
        (d'.node .video other [pad', prepared'] composite) := by
  have hpad : pad' = (base.gap input).closePad pad := h.pad
  have hinputs : b'.inputs = b.inputs := h.skips.inputs
  obtain ⟨c', htake', hskips⟩ := (h.skips.addInput media).take htake
  obtain ⟨-, -, -, rfl⟩ := take_eq_ok_iff.mp htake
  refine ⟨c', by rw [hinputs, htake'], ?_⟩
  -- the stream of an input is the same pad with and without the gap
  let ready := c.node .video other [.source b.inputs.length .video] prepare
  let ready' := c'.node .video other [.source b.inputs.length .video] prepare
  have hprepared : base.LeavesOut stage filters input ready ready' :=
    hskips.node hother [.source b.inputs.length .video] prepare
  have hcomposite := hprepared.skips.node hother [pad, ready.2] composite
  rwa [List.map_cons, List.map_singleton, ← hpad, ← hprepared.pad] at hcomposite

/-- The finished graphs differ by the node alone. -/
theorem finish {s s' : Builder × Pad} (h : base.LeavesOut stage filters input s s') :
    (∃ n, (s.1.finish (some s.2) none).stageNodes stage = [n] ∧
      n.gap? = some (base.gap input)) ∧
    (s.1.finish (some s.2) none).without stage = s'.1.finish (some s'.2) none := by
  obtain ⟨held, hheld⟩ := h.skips.balanced
  obtain ⟨after, hnodes, hnodes', hafter⟩ := h.skips.nodes
  let n : Node :=
    ⟨base.nodes.length, stage, filters, [input], [.link (label .video base.nextVideo) .video]⟩
  have hsplit : s.1.nodes = base.nodes ++ n :: after := by
    rw [hnodes]
    exact List.append_assoc base.nodes [n] after
  have hgap : n.gap? = some (base.gap input) := by
    simp [Node.gap?, n, number?_label, gap]
  have hnone {nodes : List Node} (h : ∀ n ∈ nodes, n.stage ≠ stage) :
      nodes.filter (fun n => n.stage = stage) = [] := by
    simpa using h
  have honly : (s.1.finish (some s.2) none).stageNodes stage = [n] := by
    rw [Graph.stageNodes, Builder.finish, hsplit, List.filter_append, hnone h.skips.before,
      List.filter_cons_of_pos (by simp [n]), hnone hafter, List.nil_append]
  refine ⟨⟨n, honly, hgap⟩, ?_⟩
  have hnew : n ∉ base.nodes := fun hmem => h.skips.before n hmem rfl
  have hbefore : base.nodes.map (base.gap input).closeNode = base.nodes :=
    (List.map_congr_left fun n hn => hheld.closeNode input hn).trans (List.map_id base.nodes)
  have hclosed : (s.1.nodes.erase n).map (base.gap input).closeNode = s'.1.nodes := by
    rw [hsplit, List.erase_append_right _ hnew, List.erase_cons_head, List.map_append, hbefore,
      hnodes']
  rw [Graph.without, honly]
  simp only [Graph.leaveOut, hgap, Builder.finish, hclosed, h.skips.inputs, h.pad,
    Option.map_some, Option.map_none]

end LeavesOut

end

end Builder

end Montage
