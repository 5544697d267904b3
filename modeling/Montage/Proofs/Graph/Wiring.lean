import Mathlib.Data.List.Induction
import Mathlib.Data.List.Nodup
import Montage.Graph.Wiring

/-! # The wiring check

`Graph.check` goes through the nodes once and remembers what was declared and read so far.
`Graph.WellWired` says the same of the graph as a whole, without any order of work. -/

namespace Montage

/-! ## The pads of a list of nodes -/

/-- The stream of an input that a pad stands for. -/
def Pad.source? : Pad → Option (Nat × Stream)
  | .source input kind => some (input, kind)
  | .link .. => none

/-- The label of an output, with its kind. -/
def Pad.link? : Pad → Option (String × Stream)
  | .source .. => none
  | .link label kind => some (label, kind)

namespace Pad

@[simp] theorem kind_source (input : Nat) (k : Stream) : (source input k).kind = k := rfl

@[simp] theorem kind_link (label : String) (k : Stream) : (link label k).kind = k := rfl

/-- The streams of inputs among some pads. -/
def sources (pads : List Pad) : List (Nat × Stream) := pads.filterMap source?

/-- The labels among some pads. -/
def labels (pads : List Pad) : List String := pads.filterMap label?

@[simp] theorem sources_nil : sources [] = [] := rfl

@[simp] theorem labels_nil : labels [] = [] := rfl

@[simp] theorem sources_cons_source (input : Nat) (kind : Stream) (pads : List Pad) :
    sources (.source input kind :: pads) = (input, kind) :: sources pads := rfl

@[simp] theorem sources_cons_link (label : String) (kind : Stream) (pads : List Pad) :
    sources (.link label kind :: pads) = sources pads := rfl

@[simp] theorem labels_cons_source (input : Nat) (kind : Stream) (pads : List Pad) :
    labels (.source input kind :: pads) = labels pads := rfl

@[simp] theorem labels_cons_link (label : String) (kind : Stream) (pads : List Pad) :
    labels (.link label kind :: pads) = label :: labels pads := rfl

@[simp] theorem sources_append (xs ys : List Pad) :
    sources (xs ++ ys) = sources xs ++ sources ys :=
  List.filterMap_append

@[simp] theorem labels_append (xs ys : List Pad) : labels (xs ++ ys) = labels xs ++ labels ys :=
  List.filterMap_append

@[simp] theorem mem_sources {pads : List Pad} {input : Nat} {kind : Stream} :
    (input, kind) ∈ sources pads ↔ .source input kind ∈ pads := by
  simp only [sources, List.mem_filterMap]
  constructor
  · rintro ⟨pad, hpad, h⟩
    cases pad <;> simp_all [source?]
  · intro h
    exact ⟨_, h, rfl⟩

theorem mem_labels {pads : List Pad} {label : String} :
    label ∈ labels pads ↔ ∃ kind, .link label kind ∈ pads := by
  simp only [labels, List.mem_filterMap]
  constructor
  · rintro ⟨pad, hpad, h⟩
    cases pad <;> simp_all [label?]
    exact ⟨_, hpad⟩
  · rintro ⟨kind, h⟩
    exact ⟨_, h, rfl⟩

/-- Pads differ if their streams and their labels do. -/
theorem nodup_of_once {pads : List Pad} (hs : (sources pads).Nodup) (hl : (labels pads).Nodup) :
    pads.Nodup := by
  induction pads with
  | nil => exact List.nodup_nil
  | cons pad pads ih =>
      cases pad with
      | source input kind =>
          rw [sources_cons_source, List.nodup_cons, mem_sources] at hs
          exact List.nodup_cons.mpr ⟨hs.1, ih hs.2 hl⟩
      | link label kind =>
          rw [labels_cons_link, List.nodup_cons, mem_labels, not_exists] at hl
          exact List.nodup_cons.mpr ⟨hl.1 kind, ih hs hl.2⟩

theorem map_fst_link? (pads : List Pad) : (pads.filterMap link?).map Prod.fst = labels pads := by
  rw [List.map_filterMap, labels]
  congr 1
  funext pad
  cases pad <;> rfl

end Pad

/-- Every pad that some nodes read, in order. -/
def Node.reads (nodes : List Node) : List Pad := nodes.flatMap Node.inputs

/-- Every pad that some nodes declare, in order. -/
def Node.declares (nodes : List Node) : List Pad := nodes.flatMap Node.outputs

namespace Node

@[simp] theorem reads_append (xs ys : List Node) : reads (xs ++ ys) = reads xs ++ reads ys :=
  List.flatMap_append

@[simp] theorem declares_append (xs ys : List Node) :
    declares (xs ++ ys) = declares xs ++ declares ys :=
  List.flatMap_append

@[simp] theorem reads_nil : reads [] = [] := rfl

@[simp] theorem declares_nil : declares [] = [] := rfl

@[simp] theorem reads_singleton (n : Node) : reads [n] = n.inputs := by simp [reads]

@[simp] theorem declares_singleton (n : Node) : declares [n] = n.outputs := by simp [declares]

/-- What the nodes before position `k` declare is declared at an earlier position. -/
theorem mem_declares_take {nodes : List Node} {k : Nat} {pad : Pad} :
    pad ∈ declares (nodes.take k) ↔ ∃ j m, j < k ∧ nodes[j]? = some m ∧ pad ∈ m.outputs := by
  rw [declares, List.mem_flatMap]
  constructor
  · rintro ⟨m, hm, hpad⟩
    obtain ⟨j, hj⟩ := List.mem_iff_getElem?.mp hm
    rw [List.getElem?_take] at hj
    split at hj
    · exact ⟨j, m, ‹_›, hj, hpad⟩
    · simp at hj
  · rintro ⟨j, m, hlt, hj, hpad⟩
    refine ⟨m, List.mem_iff_getElem?.mpr ⟨j, ?_⟩, hpad⟩
    rwa [List.getElem?_take_of_lt hlt]

theorem getElem?_concat {nodes : List Node} {n m : Node} {k : Nat}
    (h : (nodes ++ [n])[k]? = some m) :
    nodes[k]? = some m ∨ k = nodes.length ∧ m = n := by
  rw [List.getElem?_append] at h
  split at h
  · exact .inl h
  · rw [List.getElem?_singleton] at h
    split at h
    · exact .inr ⟨by omega, by simpa using h.symm⟩
    · simp at h

end Node

/-! ## Well-wired graphs -/

/-- The nodes are numbered by their positions. Outputs have labels, each label only once. Every
pad that is read exists by then and is read only once. -/
structure Node.Linked (inputCount : Nat) (nodes : List Node) : Prop where
  numbered : ∀ (k : Nat) (n : Node), nodes[k]? = some n → n.id = k
  labelled : ∀ n ∈ nodes, ∀ pad ∈ n.outputs, ∃ label kind, pad = .link label kind
  declared_once : (Pad.labels (declares nodes)).Nodup
  source_exists : ∀ n ∈ nodes, ∀ input kind, .source input kind ∈ n.inputs → input < inputCount
  source_once : (Pad.sources (reads nodes)).Nodup
  link_earlier : ∀ (k : Nat) (n : Node), nodes[k]? = some n →
    ∀ label kind, .link label kind ∈ n.inputs →
      ∃ (j : Nat) (m : Node), j < k ∧ nodes[j]? = some m ∧ .link label kind ∈ m.outputs
  link_once : (Pad.labels (reads nodes)).Nodup

/-- The pads that leave a graph. -/
def Graph.terminals (g : Graph) : List Pad := g.videoOut.toList ++ g.audioOut.toList

/-- The nodes are linked and no chain of filters is empty. What leaves the graph exists, is read
by no node and has the kind it leaves as. Nothing is left over. -/
structure Graph.WellWired (g : Graph) : Prop where
  linked : Node.Linked g.inputs.length g.nodes
  filtered : ∀ n ∈ g.nodes, n.filters ≠ []
  terminal : g.videoOut ≠ none ∨ g.audioOut ≠ none
  video_kind : ∀ pad, g.videoOut = some pad → pad.kind = .video
  audio_kind : ∀ pad, g.audioOut = some pad → pad.kind = .audio
  terminal_link : ∀ label kind, .link label kind ∈ g.terminals →
    label ∈ Pad.labels (Node.declares g.nodes) ∧ label ∉ Pad.labels (Node.reads g.nodes)
  terminal_source : ∀ input kind, .source input kind ∈ g.terminals →
    input < g.inputs.length ∧ .source input kind ∉ Node.reads g.nodes
  connected : ∀ label ∈ Pad.labels (Node.declares g.nodes),
    label ∈ Pad.labels (Node.reads g.nodes) ∨ label ∈ Pad.labels g.terminals

/-! ## What the pass remembers -/

namespace Wiring

/-- What the pass remembers after some pads were read and some declared. -/
def ofPads (reads declares : List Pad) : Wiring where
  declared := (declares.filterMap Pad.link?).reverse
  read := (Pad.labels reads).reverse
  sources := (Pad.sources reads).reverse

variable {reads declares : List Pad}

@[simp] theorem mem_sources_ofPads {input : Nat} {kind : Stream} :
    (input, kind) ∈ (ofPads reads declares).sources ↔ .source input kind ∈ reads := by
  simp [ofPads]

@[simp] theorem mem_read_ofPads {label : String} :
    label ∈ (ofPads reads declares).read ↔ label ∈ Pad.labels reads := by
  rw [ofPads, List.mem_reverse]

theorem lookup_eq_some_of_nodup {α β : Type} [BEq α] [LawfulBEq α] {l : List (α × β)} {a : α}
    {b : β} (hl : (l.map Prod.fst).Nodup) : l.lookup a = some b ↔ (a, b) ∈ l := by
  induction l with
  | nil => simp
  | cons p l ih =>
      obtain ⟨a', b'⟩ := p
      rw [List.map_cons, List.nodup_cons] at hl
      by_cases h : a = a'
      · subst h
        have hnot : (a, b) ∉ l := fun hmem => hl.1 (List.mem_map.mpr ⟨_, hmem, rfl⟩)
        simp [hnot, eq_comm]
      · have hbeq : (a == a') = false := beq_eq_false_iff_ne.mpr h
        rw [List.lookup_cons, hbeq]
        simp [ih hl.2, h]

theorem lookup_declared (reads : List Pad) (hd : (Pad.labels declares).Nodup) {label : String}
    {kind : Stream} :
    (ofPads reads declares).declared.lookup label = some kind ↔
      .link label kind ∈ declares := by
  have hkeys : ((ofPads reads declares).declared.map Prod.fst).Nodup := by
    rw [ofPads, List.map_reverse, Pad.map_fst_link?]
    exact List.nodup_reverse.mpr hd
  rw [lookup_eq_some_of_nodup hkeys, ofPads, List.mem_reverse, List.mem_filterMap]
  constructor
  · rintro ⟨pad, hpad, h⟩
    cases pad <;> simp_all [Pad.link?]
  · intro h
    exact ⟨_, h, rfl⟩

theorem isSome_lookup_declared (reads : List Pad) {label : String} :
    ((ofPads reads declares).declared.lookup label).isSome ↔ label ∈ Pad.labels declares := by
  rw [← Pad.map_fst_link?, ← List.mem_reverse, ← List.map_reverse, ofPads]
  simp [List.lookup_isSome_iff]

/-! ## One node -/

/-- A node may read a pad after the nodes before it read and declared some pads. -/
def Readable (inputCount : Nat) (reads declares : List Pad) : Pad → Prop
  | .source input kind => input < inputCount ∧ .source input kind ∉ reads
  | .link label kind => .link label kind ∈ declares ∧ label ∉ Pad.labels reads

theorem ofPads_read_source {input : Nat} {kind : Stream} :
    ofPads (reads ++ [.source input kind]) declares =
      { ofPads reads declares with
        sources := (input, kind) :: (ofPads reads declares).sources } := by
  simp [ofPads]

theorem ofPads_read_link {label : String} {kind : Stream} :
    ofPads (reads ++ [.link label kind]) declares =
      { ofPads reads declares with read := label :: (ofPads reads declares).read } := by
  simp [ofPads]

theorem ofPads_declare_link {label : String} {kind : Stream} :
    ofPads reads (declares ++ [.link label kind]) =
      { ofPads reads declares with
        declared := (label, kind) :: (ofPads reads declares).declared } := by
  simp [ofPads, Pad.link?]

theorem readPad_eq_ok_iff (inputCount index : Nat) (hd : (Pad.labels declares).Nodup)
    (pad : Pad) (w : Wiring) :
    readPad inputCount index (ofPads reads declares) pad = .ok w ↔
      Readable inputCount reads declares pad ∧ w = ofPads (reads ++ [pad]) declares := by
  cases pad with
  | source input kind =>
      rw [ofPads_read_source]
      simp only [readPad, Readable, mem_sources_ofPads]
      by_cases hi : inputCount ≤ input
      · simp [hi, Nat.not_lt.mpr hi]
      · by_cases hr : .source input kind ∈ reads
        · simp [hi, hr]
        · simp [hi, hr, Nat.lt_of_not_le hi, eq_comm]
  | link label kind =>
      rw [ofPads_read_link]
      simp only [readPad, Readable, ← lookup_declared reads hd, mem_read_ofPads]
      cases h : (ofPads reads declares).declared.lookup label with
      | none => simp
      | some found =>
          by_cases hk : found = kind
          · by_cases hr : label ∈ Pad.labels reads
            · simp only [hk, hr]
              simp
            · simp only [hk, hr]
              simp [eq_comm]
          · simp [hk]

theorem declarePad_eq_ok_iff (index : Nat) (pad : Pad) (w : Wiring) :
    declarePad index (ofPads reads declares) pad = .ok w ↔
      (∃ label kind, pad = .link label kind ∧ label ∉ Pad.labels declares) ∧
        w = ofPads reads (declares ++ [pad]) := by
  cases pad with
  | source input kind => simp [declarePad]
  | link label kind =>
      rw [ofPads_declare_link]
      simp only [declarePad, isSome_lookup_declared]
      by_cases hd : label ∈ Pad.labels declares
      · simp [hd]
      · simp [hd, eq_comm]

/-- A node may read some pads, one after the other. -/
structure CanRead (inputCount : Nat) (reads declares pads : List Pad) : Prop where
  source_exists : ∀ input kind, .source input kind ∈ pads → input < inputCount
  link_exists : ∀ label kind, .link label kind ∈ pads → .link label kind ∈ declares
  source_once : (Pad.sources (reads ++ pads)).Nodup
  link_once : (Pad.labels (reads ++ pads)).Nodup

/-- A node may declare some pads, one after the other. -/
structure CanDeclare (declares pads : List Pad) : Prop where
  labelled : ∀ pad ∈ pads, ∃ label kind, pad = .link label kind
  declared_once : (Pad.labels (declares ++ pads)).Nodup

theorem Readable.once {inputCount : Nat} {pad : Pad} (h : Readable inputCount reads declares pad)
    (hs : (Pad.sources reads).Nodup) (hl : (Pad.labels reads).Nodup) :
    (Pad.sources (reads ++ [pad])).Nodup ∧ (Pad.labels (reads ++ [pad])).Nodup := by
  cases pad with
  | source input kind =>
      have hnot : (input, kind) ∉ Pad.sources reads := fun hmem => h.2 (Pad.mem_sources.mp hmem)
      exact ⟨by simpa using List.Nodup.concat hnot hs, by simpa using hl⟩
  | link label kind =>
      exact ⟨by simpa using hs, by simpa using List.Nodup.concat h.2 hl⟩

theorem canRead_cons (inputCount : Nat) (pad : Pad) (pads : List Pad) :
    CanRead inputCount reads declares (pad :: pads) ↔
      Readable inputCount reads declares pad ∧
        CanRead inputCount (reads ++ [pad]) declares pads := by
  have hsplit : reads ++ pad :: pads = reads ++ [pad] ++ pads := by simp
  constructor
  · intro h
    refine ⟨?_, fun i k hm => h.source_exists i k (by simp [hm]),
      fun l k hm => h.link_exists l k (by simp [hm]), hsplit ▸ h.source_once,
      hsplit ▸ h.link_once⟩
    cases pad with
    | source input kind =>
        refine ⟨h.source_exists input kind (by simp), fun hmem => ?_⟩
        have hd := List.disjoint_of_nodup_append (Pad.sources_append reads _ ▸ h.source_once)
        exact hd (Pad.mem_sources.mpr hmem) (Pad.mem_sources.mpr (by simp))
    | link label kind =>
        refine ⟨h.link_exists label kind (by simp), fun hmem => ?_⟩
        have hd := List.disjoint_of_nodup_append (Pad.labels_append reads _ ▸ h.link_once)
        exact hd hmem (Pad.mem_labels.mpr ⟨kind, by simp⟩)
  · rintro ⟨hpad, h⟩
    refine ⟨?_, ?_, hsplit ▸ h.source_once, hsplit ▸ h.link_once⟩
    · intro i k hm
      rcases List.mem_cons.mp hm with rfl | hm
      · exact hpad.1
      · exact h.source_exists i k hm
    · intro l k hm
      rcases List.mem_cons.mp hm with rfl | hm
      · exact hpad.1
      · exact h.link_exists l k hm

theorem canDeclare_cons (pad : Pad) (pads : List Pad) :
    CanDeclare declares (pad :: pads) ↔
      (∃ label kind, pad = .link label kind ∧ label ∉ Pad.labels declares) ∧
        CanDeclare (declares ++ [pad]) pads := by
  have hsplit : declares ++ pad :: pads = declares ++ [pad] ++ pads := by simp
  constructor
  · intro h
    obtain ⟨label, kind, rfl⟩ := h.labelled pad (by simp)
    have hd := List.disjoint_of_nodup_append (Pad.labels_append declares _ ▸ h.declared_once)
    exact ⟨⟨label, kind, rfl, fun hmem => hd hmem (Pad.mem_labels.mpr ⟨kind, by simp⟩)⟩,
      fun pad hm => h.labelled pad (by simp [hm]), hsplit ▸ h.declared_once⟩
  · rintro ⟨⟨label, kind, rfl, -⟩, h⟩
    refine ⟨?_, hsplit ▸ h.declared_once⟩
    intro pad hm
    rcases List.mem_cons.mp hm with rfl | hm
    · exact ⟨label, kind, rfl⟩
    · exact h.labelled pad hm

theorem readPads_eq_ok_iff (inputCount index : Nat) (hd : (Pad.labels declares).Nodup)
    (hs : (Pad.sources reads).Nodup) (hl : (Pad.labels reads).Nodup) (pads : List Pad)
    (w : Wiring) :
    pads.foldlM (readPad inputCount index) (ofPads reads declares) = .ok w ↔
      CanRead inputCount reads declares pads ∧ w = ofPads (reads ++ pads) declares := by
  induction pads generalizing reads with
  | nil =>
      have hnil : CanRead inputCount reads declares [] := ⟨by simp, by simp, by simpa, by simpa⟩
      simp [hnil, pure, Except.pure, eq_comm]
  | cons pad pads ih =>
      rw [List.foldlM_cons, bind_eq_ok_iff, canRead_cons]
      constructor
      · rintro ⟨w', hw', h⟩
        obtain ⟨hpad, rfl⟩ := (readPad_eq_ok_iff inputCount index hd pad w').mp hw'
        obtain ⟨hs', hl'⟩ := hpad.once hs hl
        obtain ⟨hpads, rfl⟩ := (ih hs' hl').mp h
        exact ⟨⟨hpad, hpads⟩, by simp⟩
      · rintro ⟨⟨hpad, hpads⟩, rfl⟩
        obtain ⟨hs', hl'⟩ := hpad.once hs hl
        refine ⟨_, (readPad_eq_ok_iff inputCount index hd pad _).mpr ⟨hpad, rfl⟩, ?_⟩
        exact (ih hs' hl').mpr ⟨hpads, by simp⟩

theorem declarePads_eq_ok_iff (index : Nat) (hd : (Pad.labels declares).Nodup) (pads : List Pad)
    (w : Wiring) :
    pads.foldlM (declarePad index) (ofPads reads declares) = .ok w ↔
      CanDeclare declares pads ∧ w = ofPads reads (declares ++ pads) := by
  induction pads generalizing declares with
  | nil =>
      have hnil : CanDeclare declares [] := ⟨by simp, by simpa⟩
      simp [hnil, pure, Except.pure, eq_comm]
  | cons pad pads ih =>
      have honce (h : ∃ label kind, pad = .link label kind ∧ label ∉ Pad.labels declares) :
          (Pad.labels (declares ++ [pad])).Nodup := by
        obtain ⟨label, kind, rfl, hnot⟩ := h
        simpa using List.Nodup.concat hnot hd
      rw [List.foldlM_cons, bind_eq_ok_iff, canDeclare_cons]
      constructor
      · rintro ⟨w', hw', h⟩
        obtain ⟨hpad, rfl⟩ := (declarePad_eq_ok_iff index pad w').mp hw'
        obtain ⟨hpads, rfl⟩ := (ih (honce hpad)).mp h
        exact ⟨⟨hpad, hpads⟩, by simp⟩
      · rintro ⟨⟨hpad, hpads⟩, rfl⟩
        refine ⟨_, (declarePad_eq_ok_iff index pad _).mpr ⟨hpad, rfl⟩, ?_⟩
        exact (ih (honce hpad)).mpr ⟨hpads, by simp⟩

/-- A node has a place at the end of the nodes that read and declared some pads. -/
structure Fits (inputCount : Nat) (reads declares : List Pad) (n : Node) (index : Nat) :
    Prop where
  numbered : n.id = index
  canRead : CanRead inputCount reads declares n.inputs
  canDeclare : CanDeclare declares n.outputs

theorem addNode_of_filtered (inputCount : Nat) (w : Wiring) {n : Node} {index : Nat}
    (hid : n.id = index) (hf : n.filters ≠ []) :
    w.addNode inputCount n index =
      n.inputs.foldlM (readPad inputCount index) w >>= fun w =>
        n.outputs.foldlM (declarePad index) w := by
  simp [addNode, hid, hf]

theorem addNode_eq_ok_iff (inputCount : Nat) (hd : (Pad.labels declares).Nodup)
    (hs : (Pad.sources reads).Nodup) (hl : (Pad.labels reads).Nodup) (n : Node) (index : Nat)
    (w : Wiring) :
    (ofPads reads declares).addNode inputCount n index = .ok w ↔
      (Fits inputCount reads declares n index ∧ n.filters ≠ []) ∧
        w = ofPads (reads ++ n.inputs) (declares ++ n.outputs) := by
  by_cases hid : n.id = index
  · by_cases hf : n.filters = []
    · simp [addNode, hid, hf, throw, throwThe, MonadExceptOf.throw, bind, Except.bind]
    · rw [addNode_of_filtered inputCount _ hid hf, bind_eq_ok_iff]
      constructor
      · rintro ⟨w', hw', h⟩
        obtain ⟨hread, rfl⟩ := (readPads_eq_ok_iff inputCount index hd hs hl _ w').mp hw'
        obtain ⟨hdeclare, rfl⟩ := (declarePads_eq_ok_iff index hd _ w).mp h
        exact ⟨⟨⟨hid, hread, hdeclare⟩, hf⟩, rfl⟩
      · rintro ⟨⟨h, -⟩, rfl⟩
        refine ⟨_, (readPads_eq_ok_iff inputCount index hd hs hl _ _).mpr ⟨h.canRead, rfl⟩, ?_⟩
        exact (declarePads_eq_ok_iff index hd _ _).mpr ⟨h.canDeclare, rfl⟩
  · have hnot : ¬ Fits inputCount reads declares n index := fun h => hid h.numbered
    simp [addNode, hid, hnot, throw, throwThe, MonadExceptOf.throw, bind, Except.bind]

end Wiring

/-! ## All nodes -/

open Wiring (Fits ofPads)

namespace Node.Linked

variable {inputCount : Nat} {nodes : List Node}

theorem nil (inputCount : Nat) : Linked inputCount [] where
  numbered := by simp
  labelled := by simp
  declared_once := by simp
  source_exists := by simp
  source_once := by simp
  link_earlier := by simp
  link_once := by simp

/-- More inputs do no harm. -/
theorem mono {more : Nat} (h : Linked inputCount nodes) (hle : inputCount ≤ more) :
    Linked more nodes :=
  { h with
    source_exists := fun n hn input kind hpad =>
      Nat.lt_of_lt_of_le (h.source_exists n hn input kind hpad) hle }

/-- What comes first in a linked list of nodes is linked. -/
theorem of_append {rest : List Node} (h : Linked inputCount (nodes ++ rest)) :
    Linked inputCount nodes := by
  have hget {k : Nat} {m : Node} (hm : nodes[k]? = some m) : (nodes ++ rest)[k]? = some m := by
    rw [List.getElem?_append_left (List.getElem?_eq_some_iff.mp hm).1, hm]
  have hdeclared := h.declared_once
  have hsource := h.source_once
  have hlink := h.link_once
  rw [declares_append, Pad.labels_append] at hdeclared
  rw [reads_append, Pad.sources_append] at hsource
  rw [reads_append, Pad.labels_append] at hlink
  refine ⟨fun k m hm => h.numbered k m (hget hm), fun m hm => h.labelled m (by simp [hm]),
    hdeclared.of_append_left, fun m hm => h.source_exists m (by simp [hm]),
    hsource.of_append_left, ?_, hlink.of_append_left⟩
  intro k m hm label kind hpad
  have hlt : k < nodes.length := (List.getElem?_eq_some_iff.mp hm).1
  have hearlier := mem_declares_take.mpr (h.link_earlier k m (hget hm) label kind hpad)
  rw [List.take_append_of_le_length (Nat.le_of_lt hlt)] at hearlier
  exact mem_declares_take.mp hearlier

/-- A label that is read was declared. -/
theorem mem_labels_declares (h : Linked inputCount nodes) {label : String}
    (hread : label ∈ Pad.labels (reads nodes)) : label ∈ Pad.labels (declares nodes) := by
  obtain ⟨kind, hkind⟩ := Pad.mem_labels.mp hread
  obtain ⟨n, hn, hmem⟩ := List.mem_flatMap.mp hkind
  obtain ⟨k, hk⟩ := List.mem_iff_getElem?.mp hn
  obtain ⟨j, m, -, hm, hout⟩ := h.link_earlier k n hk label kind hmem
  exact Pad.mem_labels.mpr ⟨kind, List.mem_flatMap.mpr ⟨m, List.mem_of_getElem? hm, hout⟩⟩

/-- The last of some linked nodes fits behind the others. -/
theorem fits {n : Node} (h : Linked inputCount (nodes ++ [n])) :
    Fits inputCount (reads nodes) (declares nodes) n nodes.length := by
  have hlast : (nodes ++ [n])[nodes.length]? = some n := by simp
  refine ⟨h.numbered _ n hlast,
    ⟨h.source_exists n (by simp), ?_, by simpa using h.source_once, by simpa using h.link_once⟩,
    h.labelled n (by simp), by simpa using h.declared_once⟩
  intro label kind hpad
  have hearlier := mem_declares_take.mpr (h.link_earlier _ n hlast label kind hpad)
  rwa [List.take_left' rfl] at hearlier

/-- A node that fits behind some linked nodes keeps them linked. -/
theorem snoc {n : Node} (h : Linked inputCount nodes)
    (hn : Fits inputCount (reads nodes) (declares nodes) n nodes.length) :
    Linked inputCount (nodes ++ [n]) := by
  have hall {P : Node → Prop} (hnodes : ∀ m ∈ nodes, P m) (hlast : P n) :
      ∀ m ∈ nodes ++ [n], P m := by
    intro m hm
    rcases List.mem_append.mp hm with hm | hm
    · exact hnodes m hm
    · rwa [List.mem_singleton.mp hm]
  refine ⟨?_, hall h.labelled hn.canDeclare.labelled,
    by simpa using hn.canDeclare.declared_once,
    hall h.source_exists hn.canRead.source_exists, by simpa using hn.canRead.source_once, ?_,
    by simpa using hn.canRead.link_once⟩
  · intro k m hm
    rcases getElem?_concat hm with hm | ⟨rfl, rfl⟩
    · exact h.numbered k m hm
    · exact hn.numbered
  · intro k m hm label kind hpad
    rw [← mem_declares_take]
    rcases getElem?_concat hm with hm | ⟨rfl, rfl⟩
    · have hlt : k < nodes.length := (List.getElem?_eq_some_iff.mp hm).1
      rw [List.take_append_of_le_length (Nat.le_of_lt hlt)]
      exact mem_declares_take.mpr (h.link_earlier k m hm label kind hpad)
    · rw [List.take_left' rfl]
      exact hn.canRead.link_exists label kind hpad

end Node.Linked

theorem Wiring.ofNodes_concat (inputCount : Nat) (nodes : List Node) (n : Node) :
    Wiring.ofNodes inputCount (nodes ++ [n]) =
      Wiring.ofNodes inputCount nodes >>= fun w => w.addNode inputCount n nodes.length := by
  simp [Wiring.ofNodes, List.zipIdx_append, List.foldlM_append]

/-- The pass over the nodes succeeds exactly on linked nodes without empty chains, and then
remembers their pads. -/
theorem Wiring.ofNodes_eq_ok_iff (inputCount : Nat) (nodes : List Node) (w : Wiring) :
    Wiring.ofNodes inputCount nodes = .ok w ↔
      (Node.Linked inputCount nodes ∧ ∀ n ∈ nodes, n.filters ≠ []) ∧
        w = ofPads (Node.reads nodes) (Node.declares nodes) := by
  induction nodes using List.reverseRecOn generalizing w with
  | nil =>
      simp [Wiring.ofNodes, Node.Linked.nil, ofPads, pure, Except.pure, eq_comm]
  | append_singleton nodes n ih =>
      rw [ofNodes_concat, bind_eq_ok_iff]
      constructor
      · rintro ⟨w', hw', h⟩
        obtain ⟨⟨hlinked, hfiltered⟩, rfl⟩ := (ih w').mp hw'
        obtain ⟨⟨hfits, hf⟩, rfl⟩ := (addNode_eq_ok_iff inputCount hlinked.declared_once
          hlinked.source_once hlinked.link_once n _ w).mp h
        refine ⟨⟨hlinked.snoc hfits, ?_⟩, by simp⟩
        simpa [or_imp, forall_and] using ⟨hfiltered, hf⟩
      · rintro ⟨⟨h, hfiltered⟩, rfl⟩
        have hlinked := h.of_append
        refine ⟨_, (ih _).mpr ⟨⟨hlinked, fun m hm => hfiltered m (by simp [hm])⟩, rfl⟩, ?_⟩
        exact (addNode_eq_ok_iff inputCount hlinked.declared_once hlinked.source_once
          hlinked.link_once n _ _).mpr ⟨⟨h.fits, hfiltered n (by simp)⟩, by simp⟩

/-- On linked nodes the pass fails only at the first chain that is empty. -/
theorem Wiring.ofNodes_of_linked {inputCount : Nat} {nodes : List Node}
    (h : Node.Linked inputCount nodes) :
    Wiring.ofNodes inputCount nodes =
      match nodes.findIdx? fun n => n.filters.isEmpty with
      | some k => .error (.noFilters k)
      | none => .ok (ofPads (Node.reads nodes) (Node.declares nodes)) := by
  induction nodes using List.reverseRecOn with
  | nil => rfl
  | append_singleton nodes n ih =>
      have hfits := h.fits
      have hbefore := h.of_append
      rw [ofNodes_concat, ih hbefore, List.findIdx?_append]
      cases hfind : nodes.findIdx? fun n => n.filters.isEmpty with
      | some k => rfl
      | none =>
          by_cases hf : n.filters = []
          · simp [hf, addNode, hfits.numbered, bind, Except.bind, throw, throwThe,
              MonadExceptOf.throw]
          · have hadd := (addNode_eq_ok_iff inputCount hbefore.declared_once
              hbefore.source_once hbefore.link_once n _ _).mpr ⟨⟨hfits, hf⟩, rfl⟩
            simpa [hf, bind, Except.bind] using hadd

/-! ## The ends -/

namespace Wiring

variable {reads declares : List Pad}

theorem checkTerminal_eq_ok_iff (inputCount : Nat) (kind : Stream) (pad : Pad) :
    (ofPads reads declares).checkTerminal inputCount kind pad = .ok () ↔
      pad.kind = kind ∧
      (∀ label k, pad = .link label k →
        label ∈ Pad.labels declares ∧ label ∉ Pad.labels reads) ∧
      (∀ input k, pad = .source input k → input < inputCount ∧ .source input k ∉ reads) := by
  by_cases hk : pad.kind = kind
  · cases pad with
    | link label k =>
        have hnone : ((ofPads reads declares).declared.lookup label).isNone = true ↔
            label ∉ Pad.labels declares := by
          rw [← isSome_lookup_declared reads]
          cases (ofPads reads declares).declared.lookup label <;> simp
        by_cases hd : label ∈ Pad.labels declares <;> by_cases hr : label ∈ Pad.labels reads <;>
          simp [checkTerminal, hk, hnone, hd, hr]
    | source input k =>
        obtain rfl : k = kind := hk
        by_cases hi : inputCount ≤ input
        · simp [checkTerminal, hi, Nat.not_lt.mpr hi]
        · by_cases hr : .source input k ∈ reads
          · simp [checkTerminal, hr]
          · simp [checkTerminal, hi, hr, Nat.lt_of_not_le hi]
  · simp [checkTerminal, hk]

/-- Labels in their order. -/
def sorted (labels : List String) : List String := labels.mergeSort fun a b => a ≤ b

theorem sorted_eq_nil_iff {labels : List String} : sorted labels = [] ↔ labels = [] := by
  rw [← List.length_eq_zero_iff, sorted, List.length_mergeSort, List.length_eq_zero_iff]

theorem sorted_eq_of_perm {xs ys : List String} (h : xs.Perm ys) : sorted xs = sorted ys := by
  have hpairwise (labels : List String) :
      (sorted labels).Pairwise fun a b => decide (a ≤ b) = true := by
    refine List.pairwise_mergeSort ?_ ?_ labels
    · simpa only [decide_eq_true_iff] using fun a b c => String.le_trans
    · simpa only [Bool.or_eq_true, decide_eq_true_iff] using String.le_total
  refine List.Perm.eq_of_pairwise ?_ (hpairwise xs) (hpairwise ys) ?_
  · intro a b _ _ hab hba
    exact String.le_antisymm (of_decide_eq_true hab) (of_decide_eq_true hba)
  · exact (List.mergeSort_perm xs _).trans (h.trans (List.mergeSort_perm ys _).symm)

/-- The labels that are left over are those declared that nothing uses. -/
theorem unconnected_eq (terminals : List String) :
    (ofPads reads declares).unconnected terminals =
      sorted ((Pad.labels declares).filter fun label =>
        label ∉ Pad.labels reads ∧ label ∉ terminals) := by
  refine sorted_eq_of_perm ?_
  rw [ofPads, List.map_reverse, Pad.map_fst_link?, List.filter_reverse]
  refine (List.reverse_perm _).trans ?_
  simp

theorem mem_unconnected {terminals : List String} {label : String} :
    label ∈ (ofPads reads declares).unconnected terminals ↔
      label ∈ Pad.labels declares ∧ label ∉ Pad.labels reads ∧ label ∉ terminals := by
  rw [unconnected_eq, sorted, List.mem_mergeSort, List.mem_filter, decide_eq_true_iff]

end Wiring

/-- The check looks at the ends only after the pass over the nodes. -/
theorem Graph.check_of_linked {g : Graph} (h : Node.Linked g.inputs.length g.nodes)
    (hf : ∀ n ∈ g.nodes, n.filters ≠ []) :
    g.check =
      let w := ofPads (Node.reads g.nodes) (Node.declares g.nodes)
      let loose := w.unconnected (Pad.labels g.terminals)
      if g.videoOut = none ∧ g.audioOut = none then .error .noTerminal
      else
        g.videoOut.forM (w.checkTerminal g.inputs.length .video) >>= fun _ =>
          g.audioOut.forM (w.checkTerminal g.inputs.length .audio) >>= fun _ =>
            if loose ≠ [] then .error (.unconnected loose) else .ok () := by
  have hnodes := (Wiring.ofNodes_eq_ok_iff g.inputs.length g.nodes _).mpr ⟨⟨h, hf⟩, rfl⟩
  rw [Graph.check, hnodes]
  split <;> simp_all <;> rfl

theorem Graph.linked_of_check {g : Graph} (h : g.check = .ok ()) :
    Node.Linked g.inputs.length g.nodes ∧ ∀ n ∈ g.nodes, n.filters ≠ [] := by
  obtain ⟨w, hw, -⟩ := bind_eq_ok_iff.mp h
  exact ((Wiring.ofNodes_eq_ok_iff _ _ w).mp hw).1

theorem forM_eq_ok_iff {ε α : Type} (x : Option α) (f : α → Except ε Unit) (u : Unit) :
    x.forM f = .ok u ↔ ∀ a, x = some a → f a = .ok () := by
  cases x <;> simp [Option.forM, pure, Except.pure]

theorem Graph.check_eq_ok_iff_ends {g : Graph} (h : Node.Linked g.inputs.length g.nodes)
    (hf : ∀ n ∈ g.nodes, n.filters ≠ []) :
    g.check = .ok () ↔ ¬ (g.videoOut = none ∧ g.audioOut = none) ∧
      (∀ pad, g.videoOut = some pad → (ofPads (Node.reads g.nodes)
        (Node.declares g.nodes)).checkTerminal g.inputs.length .video pad = .ok ()) ∧
      (∀ pad, g.audioOut = some pad → (ofPads (Node.reads g.nodes)
        (Node.declares g.nodes)).checkTerminal g.inputs.length .audio pad = .ok ()) ∧
      (ofPads (Node.reads g.nodes) (Node.declares g.nodes)).unconnected
        (Pad.labels g.terminals) = [] := by
  rw [check_of_linked h hf]
  by_cases hnone : g.videoOut = none ∧ g.audioOut = none
  · simp [hnone]
  · have hlast {loose : List String} :
        (if loose ≠ [] then .error (.unconnected loose) else .ok () : Except WiringFault Unit) =
          .ok () ↔ loose = [] := by
      by_cases hl : loose = [] <;> simp [hl]
    rw [if_neg hnone]
    simp only [bind_eq_ok_iff, forM_eq_ok_iff, hlast, hnone]
    simp

/-- The check accepts only well-wired graphs. -/
theorem Graph.wellWired_of_check {g : Graph} (h : g.check = .ok ()) : g.WellWired := by
  obtain ⟨hlinked, hf⟩ := linked_of_check h
  obtain ⟨hnone, hvideo, haudio, hloose⟩ := (check_eq_ok_iff_ends hlinked hf).mp h
  simp only [Wiring.checkTerminal_eq_ok_iff] at hvideo haudio
  refine ⟨hlinked, hf, by tauto, fun pad hp => (hvideo pad hp).1, fun pad hp => (haudio pad hp).1,
    ?_, ?_, ?_⟩
  · intro label kind hmem
    rcases List.mem_append.mp hmem with hmem | hmem
    · exact (hvideo _ (Option.mem_toList.mp hmem)).2.1 label kind rfl
    · exact (haudio _ (Option.mem_toList.mp hmem)).2.1 label kind rfl
  · intro input kind hmem
    rcases List.mem_append.mp hmem with hmem | hmem
    · exact (hvideo _ (Option.mem_toList.mp hmem)).2.2 input kind rfl
    · exact (haudio _ (Option.mem_toList.mp hmem)).2.2 input kind rfl
  · intro label hlabel
    by_contra hnot
    rw [not_or] at hnot
    have hmem := Wiring.mem_unconnected.mpr ⟨hlabel, hnot.1, hnot.2⟩
    rw [hloose] at hmem
    exact absurd hmem List.not_mem_nil

/-- The check accepts every well-wired graph. -/
theorem Graph.WellWired.check {g : Graph} (h : g.WellWired) : g.check = .ok () := by
  refine (check_eq_ok_iff_ends h.linked h.filtered).mpr
    ⟨by have := h.terminal; tauto, ?_, ?_, ?_⟩
  · intro pad hp
    have hmem : pad ∈ g.terminals := List.mem_append_left _ (Option.mem_toList.mpr hp)
    exact (Wiring.checkTerminal_eq_ok_iff _ _ pad).mpr ⟨h.video_kind pad hp,
      fun label kind he => h.terminal_link label kind (he ▸ hmem),
      fun input kind he => h.terminal_source input kind (he ▸ hmem)⟩
  · intro pad hp
    have hmem : pad ∈ g.terminals := List.mem_append_right _ (Option.mem_toList.mpr hp)
    exact (Wiring.checkTerminal_eq_ok_iff _ _ pad).mpr ⟨h.audio_kind pad hp,
      fun label kind he => h.terminal_link label kind (he ▸ hmem),
      fun input kind he => h.terminal_source input kind (he ▸ hmem)⟩
  · rw [List.eq_nil_iff_forall_not_mem]
    intro label hmem
    obtain ⟨hlabel, hread, hterm⟩ := Wiring.mem_unconnected.mp hmem
    rcases h.connected label hlabel with hr | ht
    · exact hread hr
    · exact hterm ht

/-- One pass over the nodes and a look at the ends accept exactly the well-wired graphs. -/
theorem Graph.check_eq_ok_iff (g : Graph) : g.check = .ok () ↔ g.WellWired :=
  ⟨wellWired_of_check, WellWired.check⟩

end Montage
