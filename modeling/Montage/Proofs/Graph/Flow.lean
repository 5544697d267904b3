import Mathlib.Data.List.Chain
import Mathlib.Logic.Relation
import Montage.Proofs.Graph.Merging

/-! # Flow through a graph

The check looks at each link by itself: it is declared once, read once at most, and declared before
it is read. Here is what follows for the graph as a whole. Streams flow one way only, from sources
and generators to the pads that leave the graph, and nothing flows nowhere.

Links are told apart by their labels, as in the program text. -/

namespace Montage

open Relation (ReflTransGen TransGen)

namespace Graph

variable {g : Graph}

/-- The node at a position declares a label. -/
def Emits (g : Graph) (k : Nat) (label : String) : Prop :=
  ∃ n : Node, g.nodes[k]? = some n ∧ label ∈ Pad.labels n.outputs

/-- The node at a position reads a pad. -/
def Takes (g : Graph) (k : Nat) (pad : Pad) : Prop :=
  ∃ n : Node, g.nodes[k]? = some n ∧ pad ∈ n.inputs

/-- A link leads from a node to a node. -/
def Feeds (g : Graph) (j k : Nat) : Prop :=
  ∃ label kind, g.Emits j label ∧ g.Takes k (.link label kind)

/-- One step against the flow: from a link to a pad that the node behind it reads. -/
def Upstream (g : Graph) (pad pad' : Pad) : Prop :=
  ∃ k label kind, pad = .link label kind ∧ g.Emits k label ∧ g.Takes k pad'

/-- A stream of an input, or an output of a node that reads nothing. -/
def Springs (g : Graph) : Pad → Prop
  | .source input _ => input < g.inputs.length
  | .link label _ => ∃ (k : Nat) (n : Node), g.nodes[k]? = some n ∧ label ∈ Pad.labels n.outputs ∧
      n.inputs = []

/-- No link leads back to where it comes from, and each node has a way out of the graph. Against the
flow, from whatever leaves the graph, every way has an end: it passes through no more links than
there are nodes, and it can be followed from all pads but those that spring up where they are. -/
structure Flows (g : Graph) : Prop where
  acyclic : ∀ k, ¬ TransGen g.Feeds k k
  forward : ∀ k, k < g.nodes.length →
    ∃ j label, ReflTransGen g.Feeds k j ∧ g.Emits j label ∧ label ∈ Pad.labels g.terminals
  finite : ∀ terminal ∈ g.terminals, ∀ way : List Pad,
    (terminal :: way).IsChain g.Upstream → way.length ≤ g.nodes.length
  stops : ∀ terminal ∈ g.terminals, ∀ pad, ReflTransGen g.Upstream terminal pad →
    (∀ pad', ¬ g.Upstream pad pad') → g.Springs pad

/-- Against the flow, every way from a pad that leaves the graph stays within pads that are read. -/
theorem mem_reads_of_upstream {terminal pad : Pad} (hterminal : terminal ∈ g.terminals)
    (hway : ReflTransGen g.Upstream terminal pad) : pad ∈ Node.reads g.nodes ++ g.terminals := by
  cases hway with
  | refl => exact List.mem_append_right _ hterminal
  | tail _ hstep =>
      obtain ⟨k, -, -, -, -, n, hn, hin⟩ := hstep
      exact List.mem_append_left _ (List.mem_flatMap.mpr ⟨n, List.mem_of_getElem? hn, hin⟩)

/-- A pad that stands for something springs up where it is, or the flow goes on behind it. -/
theorem springs_of_denotes {pad : Pad} {r : Referent} (hr : g.Denotes pad r)
    (hstop : ∀ pad', ¬ g.Upstream pad pad') : g.Springs pad := by
  cases pad with
  | source input kind =>
      obtain ⟨media, hmedia, -⟩ := denotes_source.mp hr
      exact (List.getElem?_eq_some_iff.mp hmedia).1
  | link label kind =>
      obtain ⟨k, n, hn, hlabel, -⟩ := denotes_link.mp hr
      refine ⟨k, n, hn, hlabel, List.eq_nil_iff_forall_not_mem.mpr fun pad' hpad' => ?_⟩
      exact hstop pad' ⟨k, label, kind, rfl, ⟨n, hn, hlabel⟩, n, hn, hpad'⟩

namespace WellWired

variable (h : g.WellWired)

include h

/-- A link leads forward. -/
theorem lt_of_feeds {j k : Nat} (hfeeds : g.Feeds j k) : j < k := by
  obtain ⟨label, kind, ⟨m, hm, hout⟩, n, hn, hin⟩ := hfeeds
  obtain ⟨j', m', hlt, hm', hout'⟩ := h.linked.link_earlier k n hn label kind hin
  have hlabel : label ∈ Pad.labels m'.outputs := Pad.mem_labels.mpr ⟨kind, hout'⟩
  rwa [Node.eq_of_mem_labels h.linked.declared_once hm hm' hout hlabel]

theorem lt_of_transGen {j k : Nat} (hfeeds : TransGen g.Feeds j k) : j < k := by
  induction hfeeds with
  | single hstep => exact h.lt_of_feeds hstep
  | tail _ hstep ih => exact ih.trans (h.lt_of_feeds hstep)

/-- From a node that declares something, and so do all behind it, links lead out of the graph. -/
theorem exists_way_out (houtputs : ∀ n ∈ g.nodes, n.outputs ≠ []) {k : Nat}
    (hk : k < g.nodes.length) :
    ∃ j label, ReflTransGen g.Feeds k j ∧ g.Emits j label ∧ label ∈ Pad.labels g.terminals := by
  induction hleft : g.nodes.length - k using Nat.strong_induction_on generalizing k with
  | _ left ih =>
    have hn := List.getElem?_eq_getElem hk
    obtain ⟨pad, hpad⟩ := List.exists_mem_of_ne_nil _ (houtputs _ (List.getElem_mem hk))
    obtain ⟨label, kind, rfl⟩ := h.linked.labelled _ (List.getElem_mem hk) pad hpad
    have hlabel : label ∈ Pad.labels g.nodes[k].outputs := Pad.mem_labels.mpr ⟨kind, hpad⟩
    have hdeclared : label ∈ Pad.labels (Node.declares g.nodes) :=
      Pad.mem_labels.mpr ⟨kind, List.mem_flatMap.mpr ⟨_, List.getElem_mem hk, hpad⟩⟩
    rcases h.connected label hdeclared with hread | hterminal
    · -- some node behind reads the output
      obtain ⟨kind', hread⟩ := Pad.mem_labels.mp hread
      obtain ⟨n, hmem, hin⟩ := List.mem_flatMap.mp hread
      obtain ⟨k', hk'⟩ := List.mem_iff_getElem?.mp hmem
      have hfeeds : g.Feeds k k' := ⟨label, kind', ⟨_, hn, hlabel⟩, n, hk', hin⟩
      have hlt := h.lt_of_feeds hfeeds
      have hlt' : k' < g.nodes.length := (List.getElem?_eq_some_iff.mp hk').1
      obtain ⟨j, out, hway, hout⟩ := ih _ (by omega) hlt' rfl
      exact ⟨j, out, .head hfeeds hway, hout⟩
    · exact ⟨k, label, .refl, ⟨_, hn, hlabel⟩, hterminal⟩

/-- Against the flow, a way from an output of a node passes through that node and earlier ones. -/
theorem length_le_of_emits {label : String} {kind : Stream} {k : Nat} (hk : g.Emits k label)
    {way : List Pad} (hway : (.link label kind :: way).IsChain g.Upstream) :
    way.length ≤ k + 1 := by
  induction way generalizing label kind k with
  | nil => exact Nat.zero_le _
  | cons pad way ih =>
      obtain ⟨hstep, hrest⟩ := List.isChain_cons_cons.mp hway
      obtain ⟨k', label', kind', heq, ⟨n', hn', hlabel'⟩, htakes⟩ := hstep
      obtain ⟨rfl, rfl⟩ := Pad.link.inj heq
      obtain ⟨n, hn, hlabel⟩ := hk
      obtain rfl := Node.eq_of_mem_labels h.linked.declared_once hn hn' hlabel hlabel'
      cases way with
      | nil => exact Nat.succ_le_succ (Nat.zero_le _)
      | cons next way =>
          obtain ⟨j, label', kind', rfl, hemits, -⟩ := (List.isChain_cons_cons.mp hrest).1
          have hlt := h.lt_of_feeds ⟨label', kind', hemits, htakes⟩
          have hlength := ih hemits hrest
          rw [List.length_cons]
          omega

theorem length_le_of_upstream {pad : Pad} {way : List Pad}
    (hway : (pad :: way).IsChain g.Upstream) : way.length ≤ g.nodes.length := by
  cases way with
  | nil => exact Nat.zero_le _
  | cons next way =>
      obtain ⟨k, label, kind, rfl, ⟨n, hn, hlabel⟩, -⟩ := (List.isChain_cons_cons.mp hway).1
      have hlt : k < g.nodes.length := (List.getElem?_eq_some_iff.mp hn).1
      exact (h.length_le_of_emits ⟨n, hn, hlabel⟩ hway).trans hlt

end WellWired

/-- In a graph that passes the check and whose nodes all declare something, streams flow one way
only, from sources and generators to the pads that leave the graph. -/
theorem flows_of_check (h : g.check = .ok ()) (houtputs : ∀ n ∈ g.nodes, n.outputs ≠ []) :
    g.Flows := by
  have hwired := wellWired_of_check h
  refine ⟨fun k hcycle => Nat.lt_irrefl k (hwired.lt_of_transGen hcycle), ?_, ?_, ?_⟩
  · exact fun k => hwired.exists_way_out houtputs
  · exact fun terminal _ way hway => hwired.length_le_of_upstream hway
  · intro terminal hterminal pad hway hstop
    obtain ⟨r, hr⟩ := hwired.denotes (mem_reads_of_upstream hterminal hway)
    exact springs_of_denotes hr hstop

/-- A copy of the source beside a crop of it and a generated picture, with the sound as it is. -/
theorem flows_of_check_beside :
    let g : Graph :=
      { inputs := [{ path := "/media/in.mp4" }]
        nodes := [⟨0, .frame, [{ name := "split" }], [.source 0 .video],
            [.link "v0" .video, .link "v1" .video]⟩,
          ⟨1, .frame, [{ name := "crop" }], [.link "v1" .video], [.link "v2" .video]⟩,
          ⟨2, .overlay, [{ name := "color" }], [], [.link "v3" .video]⟩,
          ⟨3, .frame, [{ name := "hstack" }],
            [.link "v0" .video, .link "v2" .video, .link "v3" .video], [.link "v4" .video]⟩]
        videoOut := some (.link "v4" .video), audioOut := some (.source 0 .audio) }
    g.check = .ok () ∧ (∀ n ∈ g.nodes, n.outputs ≠ []) ∧ g.Flows := by
  intro g
  have hcheck : g.check = .ok () := by decide +kernel
  have houtputs : ∀ n ∈ g.nodes, n.outputs ≠ [] := by decide
  exact ⟨hcheck, houtputs, flows_of_check hcheck houtputs⟩

end Graph

end Montage

/-! ## Along first inputs

Against the flow, from one first input to the next, there is one way behind a pad of a well-wired
graph. It ends at a stream of an input or at a node that reads nothing. -/

namespace Montage

/-- The nodes behind a pad, each the source of the first input of the one before it. -/
inductive Node.Trail (nodes : List Node) : Pad → List Node → Prop where
  | source (input : Nat) (kind : Stream) : Trail nodes (.source input kind) []
  | spring {n : Node} {pad : Pad} (hn : n ∈ nodes) (hpad : pad ∈ n.outputs)
      (hinputs : n.inputs = []) : Trail nodes pad [n]
  | through {n : Node} {pad first : Pad} {way : List Node} (hn : n ∈ nodes) (hpad : pad ∈ n.outputs)
      (hfirst : n.inputs.head? = some first) (hrest : Trail nodes first way) :
      Trail nodes pad (n :: way)

namespace Node.Trail

theorem mono {nodes more : List Node} {pad : Pad} {way : List Node} (h : Trail nodes pad way)
    (hsub : nodes ⊆ more) : Trail more pad way := by
  induction h with
  | source input kind => exact .source input kind
  | spring hn hpad hinputs => exact .spring (hsub hn) hpad hinputs
  | through hn hpad hfirst _ ih => exact .through (hsub hn) hpad hfirst ih

theorem unique {inputCount : Nat} {nodes : List Node} (hlinked : Node.Linked inputCount nodes)
    {pad : Pad} {way way' : List Node} (h : Trail nodes pad way) (h' : Trail nodes pad way') :
    way = way' := by
  -- a pad is declared by one node only, and a stream of an input by none
  have hsame {n m : Node} {pad : Pad} (hn : n ∈ nodes) (hm : m ∈ nodes) (hpad : pad ∈ n.outputs)
      (hpad' : pad ∈ m.outputs) : n = m := by
    obtain ⟨label, kind, rfl⟩ := hlinked.labelled n hn pad hpad
    obtain ⟨i, hi⟩ := List.mem_iff_getElem?.mp hn
    obtain ⟨j, hj⟩ := List.mem_iff_getElem?.mp hm
    obtain rfl := Node.eq_of_mem_labels hlinked.declared_once hi hj
      (Pad.mem_labels.mpr ⟨kind, hpad⟩) (Pad.mem_labels.mpr ⟨kind, hpad'⟩)
    exact Option.some.inj (hi.symm.trans hj)
  have hlink {n : Node} {input : Nat} {kind : Stream} (hn : n ∈ nodes)
      (hpad : .source input kind ∈ n.outputs) : False := by
    obtain ⟨label, kind', heq⟩ := hlinked.labelled n hn _ hpad
    cases heq
  induction h generalizing way' with
  | source input kind =>
      cases h' with
      | source => rfl
      | spring hm hpad' => exact (hlink hm hpad').elim
      | through hm hpad' => exact (hlink hm hpad').elim
  | spring hn hpad hinputs =>
      cases h' with
      | source => exact (hlink hn hpad).elim
      | spring hm hpad' => rw [hsame hn hm hpad hpad']
      | through hm hpad' hfirst' =>
          rw [← hsame hn hm hpad hpad', hinputs] at hfirst'
          cases hfirst'
  | through hn hpad hfirst hrest ih =>
      cases h' with
      | source => exact (hlink hn hpad).elim
      | spring hm hpad' hinputs' =>
          rw [hsame hn hm hpad hpad', hinputs'] at hfirst
          cases hfirst
      | through hm hpad' hfirst' hrest' =>
          obtain rfl := hsame hn hm hpad hpad'
          obtain rfl := Option.some.inj (hfirst.symm.trans hfirst')
          rw [ih hrest']

end Node.Trail

end Montage
