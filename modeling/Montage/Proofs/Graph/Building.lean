import Mathlib.Data.List.Nodup
import Montage.Graph.Builder
import Montage.Proofs.Graph.Wiring

/-! # What building keeps in balance

Every pad that a builder has given out is either read by a node or still held by the caller, and
never both. `Builder.Balanced` states this for a builder and the pads that are held; each
operation of the builder keeps it. -/

namespace Montage.Builder

/-! ## Labels -/

theorem toList_label (kind : Stream) (n : Nat) :
    (label kind n).toList = kind.letter.toList ++ Nat.toDigits 10 n := by
  change (kind.letter ++ toString n).toList = _
  rw [String.toList_append, Nat.toString_eq_repr, Nat.toList_repr]

/-- Labels of different kinds or numbers differ. -/
theorem label_inj {kind kind' : Stream} {n n' : Nat} :
    label kind n = label kind' n' ↔ kind = kind' ∧ n = n' := by
  constructor
  · intro h
    have hlist := congrArg String.toList h
    rw [toList_label, toList_label] at hlist
    obtain ⟨hletter, hdigits⟩ := List.append_inj hlist (by cases kind <;> cases kind' <;> rfl)
    refine ⟨?_, ?_⟩
    · cases kind <;> cases kind' <;> first | rfl | exact absurd hletter (by decide)
    · have hread := congrArg (Nat.ofDigitChars 10 · 0) hdigits
      simpa only [Nat.ofDigitChars_ten_toDigits] using hread
  · rintro ⟨rfl, rfl⟩
    rfl

/-! ## New outputs -/

section FanOut

variable {b : Builder} {kind : Stream} {stage : Stage} {pads : List Pad} {filters : List Filter}
  {outputs : Nat}

theorem mem_fanOut {pad : Pad} : pad ∈ (b.fanOut kind stage pads filters outputs).2 ↔
    ∃ i, i < outputs ∧ .link (label kind (b.nextLabel kind + i)) kind = pad := by
  simp [fanOut]

theorem labels_fanOut : Pad.labels (b.fanOut kind stage pads filters outputs).2 =
    (List.range outputs).map fun i => label kind (b.nextLabel kind + i) := by
  rw [Pad.labels, fanOut, List.filterMap_map, ← List.filterMap_eq_map]
  rfl

theorem length_fanOut : (b.fanOut kind stage pads filters outputs).2.length = outputs := by
  simp [fanOut]

theorem fanOut_inputs :
    (b.fanOut kind stage pads filters outputs).1.inputs = b.inputs :=
  skipLabels_inputs b kind outputs

theorem fanOut_taken : (b.fanOut kind stage pads filters outputs).1.taken = b.taken :=
  skipLabels_taken b kind outputs

theorem fanOut_nodes : (b.fanOut kind stage pads filters outputs).1.nodes =
    b.nodes ++ [⟨b.nodes.length, stage, filters, pads,
      (b.fanOut kind stage pads filters outputs).2⟩] := rfl

theorem nextLabel_fanOut (k : Stream) :
    (b.fanOut kind stage pads filters outputs).1.nextLabel k =
      if k = kind then b.nextLabel k + outputs else b.nextLabel k :=
  nextLabel_skipLabels b kind k outputs

end FanOut

/-- A node is a fan-out with one output. -/
theorem fanOut_one (b : Builder) (kind : Stream) (stage : Stage) (pads : List Pad)
    (filters : List Filter) :
    b.fanOut kind stage pads filters 1 =
      ((b.node kind stage pads filters).1, [(b.node kind stage pads filters).2]) := rfl

/-- A stream is refused if its input is not there or if it was taken before. Otherwise it is
taken. -/
theorem source_cases (b : Builder) (kind : Stream) (input : Nat) :
    (b.inputs.length ≤ input ∧ b.source kind input = (b, .error (.notDeclared input))) ∨
      (input < b.inputs.length ∧ (input, kind) ∈ b.taken ∧
        b.source kind input = (b, .error (.alreadyTaken input kind))) ∨
      (input < b.inputs.length ∧ (input, kind) ∉ b.taken ∧
        b.source kind input =
          ({ b with taken := (input, kind) :: b.taken }, .ok (.source input kind))) := by
  by_cases hi : b.inputs.length ≤ input
  · exact .inl ⟨hi, by rw [source, if_pos hi]⟩
  · have hlt := Nat.lt_of_not_le hi
    by_cases ht : (input, kind) ∈ b.taken
    · have hcontains : b.taken.contains (input, kind) = true := List.contains_iff_mem.mpr ht
      refine .inr (.inl ⟨hlt, ht, ?_⟩)
      rw [source, if_neg hi]
      simp only [hcontains, if_true]
    · have hcontains : b.taken.contains (input, kind) = false := by
        simpa only [Bool.not_eq_true] using mt List.contains_iff_mem.mp ht
      refine .inr (.inr ⟨hlt, ht, ?_⟩)
      rw [source, if_neg hi]
      simp only [hcontains, Bool.false_eq_true, if_false]

/-- A stream is taken if its input is there and if it was not taken before. -/
theorem take_eq_ok_iff {b b' : Builder} {kind : Stream} {input : Nat} {pad : Pad} :
    b.take kind input = .ok (b', pad) ↔ input < b.inputs.length ∧ (input, kind) ∉ b.taken ∧
      b' = { b with taken := (input, kind) :: b.taken } ∧ pad = .source input kind := by
  rw [take]
  rcases source_cases b kind input with ⟨hle, heq⟩ | ⟨-, htaken, heq⟩ | ⟨hlt, hfree, heq⟩
  · rw [heq]
    exact ⟨nofun, fun h => absurd h.1 (Nat.not_lt.mpr hle)⟩
  · rw [heq]
    exact ⟨nofun, fun h => absurd htaken h.2.1⟩
  · rw [heq]
    constructor
    · rintro ⟨⟩
      exact ⟨hlt, hfree, rfl, rfl⟩
    · rintro ⟨-, -, rfl, rfl⟩
      rfl

/-- A refused stream leaves the builder as it was. -/
theorem source_of_error {b : Builder} {kind : Stream} {input : Nat} {refusal : WiringFault}
    (herror : (b.source kind input).2 = .error refusal) : (b.source kind input).1 = b := by
  rcases source_cases b kind input with ⟨-, heq⟩ | ⟨-, -, heq⟩ | ⟨-, -, heq⟩
  · rw [heq]
  · rw [heq]
  · rw [heq] at herror
    cases herror

theorem source_nodes (b : Builder) (kind : Stream) (input : Nat) :
    (b.source kind input).1.nodes = b.nodes := by
  rcases source_cases b kind input with ⟨-, heq⟩ | ⟨-, -, heq⟩ | ⟨-, -, heq⟩ <;> rw [heq]

theorem nodup_labels (kind : Stream) (start count : Nat) :
    ((List.range count).map fun i => label kind (start + i)).Nodup := by
  refine List.Nodup.map ?_ List.nodup_range
  intro i j h
  have := (label_inj.mp h).2
  omega

/-! ## The invariant -/

/-- The pad of an input's stream. -/
def padOf (stream : Nat × Stream) : Pad := .source stream.1 stream.2

/-- Every pad that the builder has given out. -/
def given (b : Builder) : List Pad := b.taken.map padOf ++ Node.declares b.nodes

/-- The nodes are linked, the streams taken are there and are taken once, the labels given out
lie below the counters, and what was given out is what is read or held. -/
structure Balanced (b : Builder) (held : List Pad) : Prop where
  linked : Node.Linked b.inputs.length b.nodes
  taken_exists : ∀ input kind, (input, kind) ∈ b.taken → input < b.inputs.length
  taken_once : b.taken.Nodup
  fresh : ∀ pad ∈ Node.declares b.nodes,
    ∃ kind n, n < b.nextLabel kind ∧ pad = .link (label kind n) kind
  balance : b.given.Perm (Node.reads b.nodes ++ held)

theorem sources_map_padOf (streams : List (Nat × Stream)) :
    Pad.sources (streams.map padOf) = streams := by
  induction streams with
  | nil => rfl
  | cons stream streams ih => simp [padOf, ih]

theorem labels_map_padOf (streams : List (Nat × Stream)) :
    Pad.labels (streams.map padOf) = [] := by
  induction streams with
  | nil => rfl
  | cons stream streams ih => simp [padOf, ih]

namespace Balanced

variable {b : Builder} {held : List Pad}

theorem sources_declares (h : b.Balanced held) : Pad.sources (Node.declares b.nodes) = [] := by
  rw [Pad.sources, List.filterMap_eq_nil_iff]
  intro pad hpad
  obtain ⟨kind, n, -, rfl⟩ := h.fresh pad hpad
  rfl

/-- The streams taken are those that are read or held. -/
theorem sources_perm (h : b.Balanced held) :
    b.taken.Perm (Pad.sources (Node.reads b.nodes) ++ Pad.sources held) := by
  have hperm : (Pad.sources b.given).Perm (Pad.sources (Node.reads b.nodes ++ held)) :=
    h.balance.filterMap Pad.source?
  simpa [given, sources_map_padOf, h.sources_declares] using hperm

/-- The labels declared are those that are read or held. -/
theorem labels_perm (h : b.Balanced held) :
    (Pad.labels (Node.declares b.nodes)).Perm
      (Pad.labels (Node.reads b.nodes) ++ Pad.labels held) := by
  have hperm : (Pad.labels b.given).Perm (Pad.labels (Node.reads b.nodes ++ held)) :=
    h.balance.filterMap Pad.label?
  simpa [given, labels_map_padOf] using hperm

theorem sources_nodup (h : b.Balanced held) :
    (Pad.sources (Node.reads b.nodes) ++ Pad.sources held).Nodup :=
  h.sources_perm.nodup_iff.mp h.taken_once

theorem labels_nodup (h : b.Balanced held) :
    (Pad.labels (Node.reads b.nodes) ++ Pad.labels held).Nodup :=
  h.labels_perm.nodup_iff.mp h.linked.declared_once

theorem mem_given_of_held (h : b.Balanced held) {pad : Pad} (hpad : pad ∈ held) :
    pad ∈ b.given :=
  h.balance.mem_iff.mpr (List.mem_append_right _ hpad)

theorem mem_given_of_inputs (h : b.Balanced held) {n : Node} (hn : n ∈ b.nodes) {pad : Pad}
    (hpad : pad ∈ n.inputs) : pad ∈ b.given :=
  h.balance.mem_iff.mpr (List.mem_append_left _ (List.mem_flatMap.mpr ⟨n, hn, hpad⟩))

theorem mem_given_of_outputs {n : Node} (hn : n ∈ b.nodes) {pad : Pad} (hpad : pad ∈ n.outputs) :
    pad ∈ b.given :=
  List.mem_append_right _ (List.mem_flatMap.mpr ⟨n, hn, hpad⟩)

/-- A held stream of an input exists. -/
theorem source_exists (h : b.Balanced held) {input : Nat} {kind : Stream}
    (hpad : .source input kind ∈ held) : input < b.inputs.length := by
  refine h.taken_exists input kind (h.sources_perm.mem_iff.mpr ?_)
  exact List.mem_append_right _ (Pad.mem_sources.mpr hpad)

/-- A held output was declared. -/
theorem link_declared (h : b.Balanced held) {l : String} {kind : Stream}
    (hpad : .link l kind ∈ held) : .link l kind ∈ Node.declares b.nodes := by
  rcases List.mem_append.mp (h.mem_given_of_held hpad) with hmem | hmem
  · obtain ⟨stream, -, hstream⟩ := List.mem_map.mp hmem
    simp [padOf] at hstream
  · exact hmem

/-- The order in which pads are held does not matter. -/
theorem perm {held' : List Pad} (h : b.Balanced held) (hperm : held.Perm held') :
    b.Balanced held' :=
  { h with balance := h.balance.trans (hperm.append_left _) }

/-! ## What each operation keeps -/

theorem new (input : MediaInput) : (Builder.new input).Balanced [] where
  linked := Node.Linked.nil _
  taken_exists := by simp [Builder.new]
  taken_once := by simp [Builder.new]
  fresh := by simp [Builder.new]
  balance := by simp [given, Builder.new]

theorem addInput (h : b.Balanced held) (input : MediaInput) :
    (b.addInput input).1.Balanced held where
  linked := h.linked.mono (by simp [Builder.addInput])
  taken_exists := by
    intro i kind hmem
    have := h.taken_exists i kind hmem
    simp only [Builder.addInput, List.length_append, List.length_singleton]
    omega
  taken_once := h.taken_once
  fresh := h.fresh
  balance := h.balance

/-- A stream that is taken is held. -/
theorem taken_cons (h : b.Balanced held) {kind : Stream} {input : Nat}
    (hinput : input < b.inputs.length) (hfree : (input, kind) ∉ b.taken) :
    Balanced { b with taken := (input, kind) :: b.taken } (.source input kind :: held) where
  linked := h.linked
  taken_exists := by
    intro i k hmem
    rcases List.mem_cons.mp hmem with heq | hmem
    · obtain ⟨rfl, rfl⟩ := Prod.mk.inj heq
      exact hinput
    · exact h.taken_exists i k hmem
  taken_once := List.nodup_cons.mpr ⟨hfree, h.taken_once⟩
  fresh := h.fresh
  balance := (h.balance.cons _).trans List.perm_middle.symm

theorem source (h : b.Balanced held) (kind : Stream) (input : Nat) :
    (b.source kind input).1.Balanced ((b.source kind input).2.toOption.toList ++ held) := by
  rcases source_cases b kind input with ⟨-, heq⟩ | ⟨-, -, heq⟩ | ⟨hinput, hfree, heq⟩
  · rw [heq]
    exact h
  · rw [heq]
    exact h
  · rw [heq]
    exact h.taken_cons hinput hfree

/-- A node may read what is held. -/
theorem canRead {pads : List Pad} (h : b.Balanced (pads ++ held)) :
    Wiring.CanRead b.inputs.length (Node.reads b.nodes) (Node.declares b.nodes) pads := by
  have hsources := h.sources_nodup
  have hlabels := h.labels_nodup
  rw [Pad.sources_append, ← List.append_assoc] at hsources
  rw [Pad.labels_append, ← List.append_assoc] at hlabels
  refine ⟨?_, ?_, by simpa using hsources.of_append_left, by simpa using hlabels.of_append_left⟩
  · exact fun input kind hpad => h.source_exists (List.mem_append_left _ hpad)
  · exact fun l kind hpad => h.link_declared (List.mem_append_left _ hpad)

/-- The labels of new outputs differ from each other and from those declared so far. -/
theorem canDeclare (h : b.Balanced held) (kind : Stream) (stage : Stage) (pads : List Pad)
    (filters : List Filter) (outputs : Nat) :
    Wiring.CanDeclare (Node.declares b.nodes) (b.fanOut kind stage pads filters outputs).2 where
  labelled := by
    intro pad hpad
    obtain ⟨i, -, rfl⟩ := mem_fanOut.mp hpad
    exact ⟨_, _, rfl⟩
  declared_once := by
    rw [Pad.labels_append, labels_fanOut]
    refine h.linked.declared_once.append (nodup_labels kind _ outputs) ?_
    intro l hold hnew
    obtain ⟨k, hk⟩ := Pad.mem_labels.mp hold
    obtain ⟨k', n, hlt, heq⟩ := h.fresh _ hk
    obtain ⟨i, -, rfl⟩ := List.mem_map.mp hnew
    obtain ⟨hlabel, rfl⟩ := Pad.link.inj heq
    obtain ⟨rfl, rfl⟩ := label_inj.mp hlabel
    omega

theorem fanOut (pads : List Pad) (h : b.Balanced (pads ++ held)) (kind : Stream) (stage : Stage)
    (filters : List Filter) (outputs : Nat) :
    (b.fanOut kind stage pads filters outputs).1.Balanced
      ((b.fanOut kind stage pads filters outputs).2 ++ held) where
  linked := by
    rw [fanOut_inputs, fanOut_nodes]
    exact h.linked.snoc ⟨rfl, h.canRead, h.canDeclare kind stage pads filters outputs⟩
  taken_exists := by
    rw [fanOut_inputs, fanOut_taken]
    exact h.taken_exists
  taken_once := by
    rw [fanOut_taken]
    exact h.taken_once
  fresh := by
    intro pad hpad
    rw [fanOut_nodes, Node.declares_append, List.mem_append, Node.declares_singleton] at hpad
    rcases hpad with hpad | hpad
    · obtain ⟨k, n, hlt, rfl⟩ := h.fresh pad hpad
      refine ⟨k, n, Nat.lt_of_lt_of_le hlt ?_, rfl⟩
      rw [nextLabel_fanOut]
      split <;> omega
    · have hnew : pad ∈ (b.fanOut kind stage pads filters outputs).2 := hpad
      obtain ⟨i, hi, rfl⟩ := mem_fanOut.mp hnew
      refine ⟨kind, b.nextLabel kind + i, ?_, rfl⟩
      rw [nextLabel_fanOut, if_pos rfl]
      omega
  balance := by
    have hperm := h.balance.append_right (b.fanOut kind stage pads filters outputs).2
    rw [given, fanOut_taken, fanOut_nodes, Node.declares_append, Node.reads_append,
      Node.declares_singleton, Node.reads_singleton, ← List.append_assoc]
    refine hperm.trans ?_
    rw [← List.append_assoc, List.append_assoc]
    exact List.perm_append_comm.append_left _

theorem node (pads : List Pad) (h : b.Balanced (pads ++ held)) (kind : Stream) (stage : Stage)
    (filters : List Filter) :
    (b.node kind stage pads filters).1.Balanced
      ((b.node kind stage pads filters).2 :: held) := by
  have hfan := h.fanOut pads kind stage filters 1
  rwa [fanOut_one] at hfan

end Balanced

/-! ## The finished graph -/

/-- The first fault of a graph whose pads are all used properly, up to those that were lost: an
empty chain of filters, no pad that leaves, an output that was lost. -/
def verdict (chains : List (List Filter)) (video audio : Option Pad) (lost : List Pad) :
    Except WiringFault Unit :=
  match chains.findIdx? List.isEmpty with
  | some k => .error (.noFilters k)
  | none =>
      if video = none ∧ audio = none then .error .noTerminal
      else if Pad.labels lost = [] then .ok ()
      else .error (.unconnected (Wiring.sorted (Pad.labels lost)))

section Verdict

variable {chains : List (List Filter)} {video audio : Option Pad} {lost : List Pad}

theorem findIdx?_eq_none_iff : chains.findIdx? List.isEmpty = none ↔ ∀ c ∈ chains, c ≠ [] := by
  simp [List.findIdx?_eq_none_iff]

theorem verdict_eq_ok_iff : verdict chains video audio lost = .ok () ↔
    (∀ c ∈ chains, c ≠ []) ∧ (video ≠ none ∨ audio ≠ none) ∧ Pad.labels lost = [] := by
  rw [← findIdx?_eq_none_iff, verdict]
  cases hfind : chains.findIdx? List.isEmpty with
  | some k => simp
  | none =>
      by_cases hnone : video = none ∧ audio = none
      · simp [hnone]
      · by_cases hlost : Pad.labels lost = []
        · simpa [hnone, hlost] using by tauto
        · simp [hnone, hlost]

/-- Where only the last of the three conditions fails, the labels that were lost are listed. -/
theorem verdict_of_lost (hchains : ∀ c ∈ chains, c ≠ []) (hterminal : video ≠ none ∨ audio ≠ none)
    (hlost : Pad.labels lost ≠ []) :
    verdict chains video audio lost =
      .error (.unconnected (Wiring.sorted (Pad.labels lost))) := by
  have hnone : ¬ (video = none ∧ audio = none) := by tauto
  rw [verdict, findIdx?_eq_none_iff.mpr hchains]
  simp [hnone, hlost]

/-- Each fault has its reason. -/
theorem verdict_eq_error {fault : WiringFault}
    (h : verdict chains video audio lost = .error fault) :
    (∃ k, fault = .noFilters k ∧ chains[k]? = some []) ∨
      (fault = .noTerminal ∧ video = none ∧ audio = none) ∨
      (fault = .unconnected (Wiring.sorted (Pad.labels lost)) ∧ Pad.labels lost ≠ []) := by
  rw [verdict] at h
  split at h
  case h_1 k hfind =>
    obtain ⟨hk, hempty, -⟩ := List.findIdx?_eq_some_iff_getElem.mp hfind
    refine .inl ⟨k, (Except.error.inj h).symm, ?_⟩
    rw [List.getElem?_eq_getElem hk, List.isEmpty_iff.mp hempty]
  case h_2 hfind =>
    split at h
    case isTrue hnone => exact .inr (.inl ⟨(Except.error.inj h).symm, hnone⟩)
    case isFalse hnone =>
      split at h
      case isTrue hlost => cases h
      case isFalse hlost => exact .inr (.inr ⟨(Except.error.inj h).symm, hlost⟩)

end Verdict

namespace Balanced

variable {b : Builder} {video audio : Option Pad} {lost : List Pad}

/-- What leaves the graph passes the check. -/
theorem checkTerminal (h : b.Balanced held) {pad : Pad} (hpad : pad ∈ held) :
    (Wiring.ofPads (Node.reads b.nodes) (Node.declares b.nodes)).checkTerminal b.inputs.length
      pad.kind pad = .ok () := by
  refine (Wiring.checkTerminal_eq_ok_iff _ _ pad).mpr ⟨rfl, ?_, ?_⟩
  · rintro label kind rfl
    refine ⟨Pad.mem_labels.mpr ⟨kind, h.link_declared hpad⟩, fun hread => ?_⟩
    exact List.disjoint_of_nodup_append h.labels_nodup hread (Pad.mem_labels.mpr ⟨kind, hpad⟩)
  · rintro input kind rfl
    refine ⟨h.source_exists hpad, fun hread => ?_⟩
    exact List.disjoint_of_nodup_append h.sources_nodup (Pad.mem_sources.mpr hread)
      (Pad.mem_sources.mpr hpad)

/-- What leaves the graph, if anything, passes the check. -/
theorem forM_checkTerminal (h : b.Balanced held) {kind : Stream} {terminal : Option Pad}
    (hkind : ∀ pad, terminal = some pad → pad.kind = kind)
    (hheld : ∀ pad, terminal = some pad → pad ∈ held) :
    terminal.forM ((Wiring.ofPads (Node.reads b.nodes) (Node.declares b.nodes)).checkTerminal
      b.inputs.length kind) = .ok () := by
  refine (forM_eq_ok_iff _ _ _).mpr fun pad hpad => ?_
  obtain rfl := hkind pad hpad
  exact h.checkTerminal (hheld pad hpad)

/-- The outputs that are left over are those that were lost. -/
theorem unconnected {terminals : List Pad} (h : b.Balanced (terminals ++ lost)) :
    (Wiring.ofPads (Node.reads b.nodes) (Node.declares b.nodes)).unconnected
      (Pad.labels terminals) = Wiring.sorted (Pad.labels lost) := by
  have honce := h.labels_nodup
  have hperm := h.labels_perm
  rw [Pad.labels_append, ← List.append_assoc] at honce hperm
  rw [Wiring.unconnected_eq]
  refine Wiring.sorted_eq_of_perm ((hperm.filter _).trans ?_)
  have hused : ((Pad.labels (Node.reads b.nodes) ++ Pad.labels terminals).filter fun label =>
      label ∉ Pad.labels (Node.reads b.nodes) ∧ label ∉ Pad.labels terminals) = [] := by
    rw [List.filter_eq_nil_iff]
    intro label hmem
    simp only [decide_eq_true_iff]
    rcases List.mem_append.mp hmem with hmem | hmem
    · exact fun hnot => hnot.1 hmem
    · exact fun hnot => hnot.2 hmem
  have hlost : ((Pad.labels lost).filter fun label =>
      label ∉ Pad.labels (Node.reads b.nodes) ∧ label ∉ Pad.labels terminals) =
        Pad.labels lost := by
    rw [List.filter_eq_self]
    intro label hmem
    have hnot := List.disjoint_of_nodup_append honce
    exact decide_eq_true ⟨fun hused => hnot (List.mem_append_left _ hused) hmem,
      fun hused => hnot (List.mem_append_right _ hused) hmem⟩
  rw [List.filter_append, hused, hlost, List.nil_append]

/-- The check of a finished graph finds what was lost and nothing else. -/
theorem check_finish (h : b.Balanced (video.toList ++ audio.toList ++ lost))
    (hvideo : ∀ pad, video = some pad → pad.kind = .video)
    (haudio : ∀ pad, audio = some pad → pad.kind = .audio) :
    (b.finish video audio).check = verdict (b.nodes.map Node.filters) video audio lost := by
  have hlinked : Node.Linked (b.finish video audio).inputs.length (b.finish video audio).nodes :=
    h.linked
  cases hfind : b.nodes.findIdx? fun n => n.filters.isEmpty with
  | some k =>
      have hnodes := Wiring.ofNodes_of_linked h.linked
      rw [hfind] at hnodes
      rw [verdict, List.findIdx?_map]
      simp [Graph.check, finish, hnodes, Function.comp_def, hfind, bind, Except.bind]
  | none =>
      have hfiltered : ∀ n ∈ (b.finish video audio).nodes, n.filters ≠ [] := by
        simpa [finish, List.findIdx?_eq_none_iff] using hfind
      have hv := h.forM_checkTerminal hvideo fun pad hpad => by simp [hpad]
      have ha := h.forM_checkTerminal haudio fun pad hpad => by simp [hpad]
      have hloose := unconnected h
      rw [Graph.check_of_linked hlinked hfiltered, verdict, List.findIdx?_map]
      simp only [Function.comp_def, hfind, finish, Graph.terminals, hv, ha, hloose, bind,
        Except.bind, ne_eq, Wiring.sorted_eq_nil_iff, ite_not]

end Balanced

end Montage.Builder
