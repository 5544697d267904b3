import Montage.Graph.Program
import Montage.Proofs.Graph.Wiring

/-! # The union of two graphs

The union puts the audio graph behind the video graph and numbers its nodes and inputs anew. A pad
stands for a stream of a media file or for an output of a node; here is what the pads of the two
graphs stand for in the union, and when the union is well wired. -/

namespace Montage

/-! ## What a pad stands for -/

/-- What a pad of a graph stands for: a stream of a media file, or an output of a node. -/
inductive Referent where
  | stream (media : MediaInput) (kind : Stream)
  | output (node : Nat) (label : String)
  deriving DecidableEq, Repr

/-- The same file with the same options. -/
def MediaInput.Same (a b : MediaInput) : Prop := Path.same a.path b.path ∧ a.options = b.options

instance (a b : MediaInput) : Decidable (a.Same b) := inferInstanceAs (Decidable (_ ∧ _))

/-- The same thing, with the nodes numbered from `base`. -/
def Referent.Same (base : Nat) : Referent → Referent → Prop
  | .stream media kind, .stream media' kind' => media.Same media' ∧ kind = kind'
  | .output node label, .output node' label' => node' = base + node ∧ label = label'
  | _, _ => False

/-- What a pad stands for in a graph. -/
def Graph.Denotes (g : Graph) : Pad → Referent → Prop
  | .source input kind, .stream media kind' => g.inputs[input]? = some media ∧ kind = kind'
  | .link label _, .output node label' =>
      label = label' ∧ ∃ n : Node, g.nodes[node]? = some n ∧ label ∈ Pad.labels n.outputs
  | _, _ => False

/-- If a pad of one graph stands for something, a pad of another stands for that and nothing
else. The nodes of the one are numbered from `base` in the other. -/
def Pad.Keeps (g g' : Graph) (base : Nat) (pad pad' : Pad) : Prop :=
  ∀ r, g.Denotes pad r → ∃ r', g'.Denotes pad' r' ∧ r.Same base r' ∧
    ∀ r'', g'.Denotes pad' r'' → r'' = r'

/-- What the nodes of one graph read is kept, in order, by the nodes of another from `base` on. -/
def Graph.KeepsReads (g g' : Graph) (base : Nat) : Prop :=
  ∀ (k : Nat) (n : Node), g.nodes[k]? = some n →
    ∃ n' : Node, g'.nodes[base + k]? = some n' ∧
      List.Forall₂ (Pad.Keeps g g' base) n.inputs n'.inputs

/-- What leaves one graph is kept by what leaves another. -/
def Graph.KeepsOut (g g' : Graph) (base : Nat) (out out' : Option Pad) : Prop :=
  ∀ pad, out = some pad → ∃ pad', out' = some pad' ∧ pad.Keeps g g' base pad'

/-- In the union every pad stands for what it stood for. -/
structure Graph.KeepsReferents (video audio g : Graph) : Prop where
  video_reads : video.KeepsReads g 0
  video_out : video.KeepsOut g 0 video.videoOut g.videoOut
  audio_reads : audio.KeepsReads g video.nodes.length
  audio_out : audio.KeepsOut g video.nodes.length audio.audioOut g.audioOut

theorem MediaInput.Same.refl (m : MediaInput) : m.Same m := by
  simp [MediaInput.Same, Path.same]

theorem MediaInput.Same.symm {a b : MediaInput} (h : a.Same b) : b.Same a := by
  obtain ⟨hpath, hoptions⟩ := h
  simp only [Path.same, Bool.and_eq_true, beq_iff_eq] at hpath
  refine ⟨?_, hoptions.symm⟩
  simp [Path.same, hpath.1, hpath.2]

/-- At most one node declares a label. -/
theorem Node.eq_of_mem_labels {nodes : List Node} (h : (Pad.labels (declares nodes)).Nodup)
    {k k' : Nat} {n n' : Node} (hk : nodes[k]? = some n) (hk' : nodes[k']? = some n')
    {label : String} (hlabel : label ∈ Pad.labels n.outputs)
    (hlabel' : label ∈ Pad.labels n'.outputs) : k = k' := by
  have hflat : Pad.labels (declares nodes) = nodes.flatMap fun n => Pad.labels n.outputs := by
    rw [declares, Pad.labels, List.filterMap_flatMap]
    rfl
  rw [hflat, List.nodup_flatMap] at h
  obtain ⟨hlt, rfl⟩ := List.getElem?_eq_some_iff.mp hk
  obtain ⟨hlt', rfl⟩ := List.getElem?_eq_some_iff.mp hk'
  have hdisjoint := List.pairwise_iff_getElem.mp h.2
  rcases Nat.lt_trichotomy k k' with hk | hk | hk
  · exact absurd hlabel' (hdisjoint k k' hlt hlt' hk hlabel)
  · exact hk
  · exact absurd hlabel (hdisjoint k' k hlt' hlt hk hlabel')

theorem Graph.denotes_source {g : Graph} {input : Nat} {kind : Stream} {r : Referent} :
    g.Denotes (.source input kind) r ↔
      ∃ media, g.inputs[input]? = some media ∧ r = .stream media kind := by
  cases r with
  | stream media k => simp [Denotes, eq_comm]
  | output node l => simp [Denotes]

theorem Graph.denotes_link {g : Graph} {label : String} {kind : Stream} {r : Referent} :
    g.Denotes (.link label kind) r ↔ ∃ (node : Nat) (n : Node), g.nodes[node]? = some n ∧
      label ∈ Pad.labels n.outputs ∧ r = .output node label := by
  cases r with
  | stream media k => simp [Denotes]
  | output node l =>
      simp only [Denotes, Referent.output.injEq]
      constructor
      · rintro ⟨rfl, n, hn, hmem⟩
        exact ⟨node, n, hn, hmem, rfl, rfl⟩
      · rintro ⟨node', n, hn, hmem, rfl, rfl⟩
        exact ⟨rfl, n, hn, hmem⟩

/-- A pad stands for at most one thing. -/
theorem Graph.Denotes.unique {g : Graph} (h : (Pad.labels (Node.declares g.nodes)).Nodup)
    {pad : Pad} {r r' : Referent} (hr : g.Denotes pad r) (hr' : g.Denotes pad r') : r' = r := by
  cases pad with
  | source input kind =>
      obtain ⟨media, hmedia, rfl⟩ := denotes_source.mp hr
      obtain ⟨media', hmedia', rfl⟩ := denotes_source.mp hr'
      rw [Option.some.inj (hmedia.symm.trans hmedia')]
  | link label kind =>
      obtain ⟨node, n, hn, hmem, rfl⟩ := denotes_link.mp hr
      obtain ⟨node', n', hn', hmem', rfl⟩ := denotes_link.mp hr'
      rw [Node.eq_of_mem_labels h hn hn' hmem hmem']

/-- A declared label stands for an output. -/
theorem Graph.denotes_of_mem_labels {g : Graph} {label : String} (kind : Stream)
    (h : label ∈ Pad.labels (Node.declares g.nodes)) : ∃ r, g.Denotes (.link label kind) r := by
  obtain ⟨k, hk⟩ := Pad.mem_labels.mp h
  obtain ⟨n, hn, hmem⟩ := List.mem_flatMap.mp hk
  obtain ⟨node, hnode⟩ := List.mem_iff_getElem?.mp hn
  exact ⟨.output node label, rfl, n, hnode, Pad.mem_labels.mpr ⟨k, hmem⟩⟩

/-- In a well-wired graph, every pad that is read or leaves stands for something. -/
theorem Graph.WellWired.denotes {g : Graph} (h : g.WellWired) {pad : Pad}
    (hpad : pad ∈ Node.reads g.nodes ++ g.terminals) : ∃ r, g.Denotes pad r := by
  cases pad with
  | source input kind =>
      have hlt : input < g.inputs.length := by
        rcases List.mem_append.mp hpad with hread | hterminal
        · obtain ⟨n, hn, hmem⟩ := List.mem_flatMap.mp hread
          exact h.linked.source_exists n hn input kind hmem
        · exact (h.terminal_source input kind hterminal).1
      exact ⟨.stream g.inputs[input] kind, List.getElem?_eq_getElem hlt, rfl⟩
  | link label kind =>
      refine denotes_of_mem_labels kind ?_
      rcases List.mem_append.mp hpad with hread | hterminal
      · exact h.linked.mem_labels_declares (Pad.mem_labels.mpr ⟨kind, hread⟩)
      · exact (h.terminal_link label kind hterminal).1

/-- Where labels are declared once, a pad that stands for the same thing stands for it alone. -/
theorem Pad.keeps_of_same {g g' : Graph} {base : Nat} {pad pad' : Pad}
    (h : (Pad.labels (Node.declares g'.nodes)).Nodup)
    (hsame : ∀ r, g.Denotes pad r → ∃ r', g'.Denotes pad' r' ∧ r.Same base r') :
    pad.Keeps g g' base pad' := by
  intro r hr
  obtain ⟨r', hr', hrr'⟩ := hsame r hr
  exact ⟨r', hr', hrr', fun r'' hr'' => Graph.Denotes.unique h hr' hr''⟩

/-! ## What the pads of the union stand for -/

namespace Program

variable {video audio : Graph}

theorem merge_eq_ok_iff {durationMs : Nat} {p : Program} :
    merge video audio durationMs = .ok p ↔
      sameSource video audio ∧ (union video audio).check = .ok () ∧
        p = { graph := union video audio, durationMs } := by
  rw [merge]
  by_cases hsame : sameSource video audio
  · cases hcheck : (union video audio).check <;>
      simp [hsame, hcheck, Graph.checked, bind, Except.bind, pure, Except.pure, eq_comm]
  · simp [hsame, bind, Except.bind, throw, throwThe, MonadExceptOf.throw]

/-- A source of the one graph comes with a source of the other, and the two are the same. -/
theorem sameSource_head (h : sameSource video audio) {media : MediaInput}
    (hmedia : audio.inputs[0]? = some media) :
    ∃ found, video.inputs[0]? = some found ∧ media.Same found := by
  rw [sameSource, List.head?_eq_getElem?, List.head?_eq_getElem?, hmedia] at h
  split at h
  case h_1 v a hv ha =>
    obtain rfl := Option.some.inj ha
    rw [Bool.and_eq_true, beq_iff_eq] at h
    exact ⟨v, hv, MediaInput.Same.symm h⟩
  case h_2 hv ha => cases ha
  case h_3 => cases h

theorem union_nodes_left {k : Nat} {n : Node} (hn : video.nodes[k]? = some n) :
    (union video audio).nodes[k]? = some n := by
  rw [union, List.getElem?_append_left (List.getElem?_eq_some_iff.mp hn).1, hn]

theorem union_nodes_right {k : Nat} {n : Node} (hn : audio.nodes[k]? = some n) :
    (union video audio).nodes[video.nodes.length + k]? =
      some (shiftNode video.nodes.length (video.inputs.length - 1) n) := by
  rw [union, List.getElem?_append_right (Nat.le_add_right _ _), Nat.add_sub_cancel_left,
    List.getElem?_map, hn]
  rfl

/-- A further input of the audio graph is found at its new number. -/
theorem union_inputs_right (hv : video.inputs ≠ []) {i : Nat} (hi : 0 < i) :
    (union video audio).inputs[i + (video.inputs.length - 1)]? = audio.inputs[i]? := by
  have hpos : 0 < video.inputs.length := List.length_pos_iff.mpr hv
  rw [union, List.getElem?_append_right (by omega), List.getElem?_drop]
  congr 1
  omega

/-- In the union, the video graph's pads stand for what they stood for. -/
theorem keeps_video (h : (Pad.labels (Node.declares (union video audio).nodes)).Nodup)
    (pad : Pad) : pad.Keeps video (union video audio) 0 pad := by
  refine Pad.keeps_of_same h fun r hr => ?_
  cases pad with
  | source input kind =>
      obtain ⟨media, hmedia, rfl⟩ := Graph.denotes_source.mp hr
      refine ⟨.stream media kind, ⟨?_, rfl⟩, MediaInput.Same.refl media, rfl⟩
      rw [union, List.getElem?_append_left (List.getElem?_eq_some_iff.mp hmedia).1, hmedia]
  | link label kind =>
      obtain ⟨node, n, hn, hmem, rfl⟩ := Graph.denotes_link.mp hr
      exact ⟨.output node label, ⟨rfl, n, union_nodes_left hn, hmem⟩,
        (Nat.zero_add node).symm, rfl⟩

/-- In the union, the audio graph's renumbered pads stand for what they stood for. -/
theorem keeps_audio (h : (Pad.labels (Node.declares (union video audio).nodes)).Nodup)
    (hsource : sameSource video audio) (pad : Pad) :
    pad.Keeps audio (union video audio) video.nodes.length
      (renumber (video.inputs.length - 1) pad) := by
  refine Pad.keeps_of_same h fun r hr => ?_
  cases pad with
  | source input kind =>
      obtain ⟨media, hmedia, rfl⟩ := Graph.denotes_source.mp hr
      have hlt : input < audio.inputs.length := (List.getElem?_eq_some_iff.mp hmedia).1
      have hfirst := List.getElem?_eq_getElem (Nat.zero_lt_of_lt hlt)
      obtain ⟨found, hfound, hsame⟩ := sameSource_head hsource hfirst
      have hv : video.inputs ≠ [] := by
        rintro hnil
        simp [hnil] at hfound
      by_cases hi : input = 0
      · subst hi
        obtain rfl := Option.some.inj (hfirst.symm.trans hmedia)
        refine ⟨.stream found kind, ⟨?_, rfl⟩, hsame, rfl⟩
        simp only [if_pos]
        rw [union, List.getElem?_append_left (List.length_pos_iff.mpr hv), hfound]
      · refine ⟨.stream media kind, ⟨?_, rfl⟩, MediaInput.Same.refl media, rfl⟩
        simp only [if_neg hi]
        rw [union_inputs_right hv (Nat.pos_of_ne_zero hi), hmedia]
  | link label kind =>
      obtain ⟨node, n, hn, hmem, rfl⟩ := Graph.denotes_link.mp hr
      exact ⟨.output (video.nodes.length + node) label,
        ⟨rfl, _, union_nodes_right hn, hmem⟩, rfl, rfl⟩

theorem keepsReads_video (h : (Pad.labels (Node.declares (union video audio).nodes)).Nodup) :
    video.KeepsReads (union video audio) 0 := by
  intro k n hn
  refine ⟨n, by simpa using union_nodes_left hn, ?_⟩
  exact List.forall₂_same.mpr fun pad _ => keeps_video h pad

theorem keepsReads_audio (h : (Pad.labels (Node.declares (union video audio).nodes)).Nodup)
    (hsource : sameSource video audio) :
    audio.KeepsReads (union video audio) video.nodes.length := by
  intro k n hn
  refine ⟨_, union_nodes_right hn, ?_⟩
  rw [shiftNode, List.forall₂_map_right_iff]
  exact List.forall₂_same.mpr fun pad _ => keeps_audio h hsource pad

theorem keepsOut_video (h : (Pad.labels (Node.declares (union video audio).nodes)).Nodup) :
    video.KeepsOut (union video audio) 0 video.videoOut (union video audio).videoOut :=
  fun pad hpad => ⟨pad, hpad, keeps_video h pad⟩

/-- The number of an input stays as it is. -/
theorem renumber_eq_self {offset : Nat} {pad : Pad}
    (h : ∀ input kind, pad = .source input kind → input = 0 ∨ offset = 0) :
    renumber offset pad = pad := by
  cases pad with
  | source input kind =>
      have hor := h input kind rfl
      simp only [renumber, Pad.source.injEq, and_true]
      split <;> omega
  | link label kind => rfl

/-- The pad that leaves the audio graph leaves the union with its old number. It stands for what
it stood for exactly if it has no other number to get, or if the input that has the number in the
union happens to be the same. -/
theorem keepsOut_audio_iff (h : (Pad.labels (Node.declares (union video audio).nodes)).Nodup)
    (hsource : sameSource video audio) :
    audio.KeepsOut (union video audio) video.nodes.length audio.audioOut
        (union video audio).audioOut ↔
      ∀ input kind media, audio.audioOut = some (.source input kind) → 0 < input →
        1 < video.inputs.length → audio.inputs[input]? = some media →
          ∃ found, (union video audio).inputs[input]? = some found ∧ media.Same found := by
  constructor
  · intro hkeeps input kind media hout _ _ hmedia
    obtain ⟨pad, hpad, hkeep⟩ := hkeeps _ hout
    obtain rfl := Option.some.inj (hout.symm.trans hpad)
    obtain ⟨r, hr, hsame, -⟩ := hkeep (.stream media kind) ⟨hmedia, rfl⟩
    obtain ⟨found, hfound, rfl⟩ := Graph.denotes_source.mp hr
    exact ⟨found, hfound, hsame.1⟩
  · intro hcond pad hpad
    refine ⟨pad, hpad, ?_⟩
    by_cases hmoved : ∃ input kind, pad = .source input kind ∧ 0 < input ∧
        1 < video.inputs.length
    · obtain ⟨input, kind, rfl, hpos, hmany⟩ := hmoved
      refine Pad.keeps_of_same h fun r hr => ?_
      obtain ⟨media, hmedia, rfl⟩ := Graph.denotes_source.mp hr
      obtain ⟨found, hfound, hsame⟩ := hcond input kind media hpad hpos hmany hmedia
      exact ⟨.stream found kind, ⟨hfound, rfl⟩, hsame, rfl⟩
    · have hkeep := keeps_audio h hsource pad
      rwa [renumber_eq_self] at hkeep
      rintro input kind rfl
      by_contra hnot
      exact hmoved ⟨input, kind, rfl, by omega, by omega⟩

/-- What each half reads stands for what it stood for before, and what leaves it does, too, but for
a further input of the audio graph. -/
theorem keeps_of_merge {durationMs : Nat} {p : Program}
    (h : merge video audio durationMs = .ok p) :
    video.KeepsReads p.graph 0 ∧ video.KeepsOut p.graph 0 video.videoOut p.graph.videoOut ∧
      audio.KeepsReads p.graph video.nodes.length ∧
      (video.KeepsReferents audio p.graph ↔
        ∀ input kind media, audio.audioOut = some (.source input kind) → 0 < input →
          1 < video.inputs.length → audio.inputs[input]? = some media →
            ∃ found, (video.inputs ++ audio.inputs.drop 1)[input]? = some found ∧
              media.Same found) := by
  obtain ⟨hsource, hcheck, rfl⟩ := merge_eq_ok_iff.mp h
  have honce := (Graph.linked_of_check hcheck).1.declared_once
  have hvideo := keepsReads_video honce
  have hvideoOut := keepsOut_video honce
  have haudio := keepsReads_audio honce hsource
  refine ⟨hvideo, hvideoOut, haudio, Iff.trans ?_ (keepsOut_audio_iff honce hsource)⟩
  exact ⟨Graph.KeepsReferents.audio_out, fun hout => ⟨hvideo, hvideoOut, haudio, hout⟩⟩

/-- In the program of two graphs, each pad stands for something, and for what it stood for before,
if that was something. The exception is a pad that leaves the audio graph and is one of its
further inputs: it keeps its number, though the video graph's further inputs come first. -/
theorem keepsReferents_of_merge {durationMs : Nat} {p : Program}
    (h : merge video audio durationMs = .ok p) :
    (∀ pad ∈ Node.reads p.graph.nodes ++ p.graph.terminals, ∃ r, p.graph.Denotes pad r) ∧
      video.KeepsReads p.graph 0 ∧ video.KeepsOut p.graph 0 video.videoOut p.graph.videoOut ∧
      audio.KeepsReads p.graph video.nodes.length ∧
      (video.KeepsReferents audio p.graph ↔
        ∀ input kind media, audio.audioOut = some (.source input kind) → 0 < input →
          1 < video.inputs.length → audio.inputs[input]? = some media →
            ∃ found, (video.inputs ++ audio.inputs.drop 1)[input]? = some found ∧
              media.Same found) := by
  have hcheck : p.graph.check = .ok () := by
    obtain ⟨-, hcheck, rfl⟩ := merge_eq_ok_iff.mp h
    exact hcheck
  exact ⟨fun pad => (Graph.wellWired_of_check hcheck).denotes, keeps_of_merge h⟩

/-- Music instead of the sound of the source. -/
def replaced : Graph where
  inputs := [{ path := "/media/in.mp4" }, { path := "/media/music.mp3" }]
  nodes := []
  audioOut := some (.source 1 .audio)

/-- Without stickers the music stays the music. -/
theorem keepsReferents_of_replaced :
    let untouched : Graph :=
      { inputs := [{ path := "/media//in.mp4" }], nodes := [], videoOut := some (.source 0 .video) }
    ∃ p, merge untouched replaced 4000 = .ok p ∧ untouched.KeepsReferents replaced p.graph := by
  intro untouched
  have hmerge : merge untouched replaced 4000 =
      .ok { graph := union untouched replaced, durationMs := 4000 } :=
    merge_eq_ok_iff.mpr ⟨by decide +kernel, by decide +kernel, rfl⟩
  refine ⟨_, hmerge, (keepsReferents_of_merge hmerge).2.2.2.2.mpr ?_⟩
  intro input kind media _ _ hmany
  exact absurd hmany (by decide)

/-- A picture with a sticker on it. -/
def stickered : Graph where
  inputs := [{ path := "/media/in.mp4" }, { path := "/media/s.png" }]
  nodes := [{ id := 0, stage := .overlay, filters := [{ name := "overlay" }]
              inputs := [.source 0 .video, .source 1 .video], outputs := [.link "v0" .video] }]
  videoOut := some (.link "v0" .video)

/-- The music leaves the program as the sound of the sticker. -/
theorem not_keepsReferents_of_replaced :
    ∃ p, merge stickered replaced 4000 = .ok p ∧
      p.graph.audioOut = some (.source 1 .audio) ∧
      replaced.Denotes (.source 1 .audio) (.stream { path := "/media/music.mp3" } .audio) ∧
      p.graph.Denotes (.source 1 .audio) (.stream { path := "/media/s.png" } .audio) ∧
      ¬ stickered.KeepsReferents replaced p.graph := by
  have hmerge : merge stickered replaced 4000 =
      .ok { graph := union stickered replaced, durationMs := 4000 } :=
    merge_eq_ok_iff.mpr ⟨by decide +kernel, by decide +kernel, rfl⟩
  refine ⟨_, hmerge, rfl, ⟨rfl, rfl⟩, ⟨rfl, rfl⟩, ?_⟩
  intro h
  obtain ⟨pad, hpad, hkeep⟩ := h.audio_out _ rfl
  obtain rfl := Option.some.inj hpad
  obtain ⟨r, hr, hsame, -⟩ := hkeep (.stream { path := "/media/music.mp3" } .audio) ⟨rfl, rfl⟩
  obtain ⟨found, hfound, rfl⟩ := Graph.denotes_source.mp hr
  obtain rfl := Option.some.inj hfound
  exact absurd hsame.1 (by decide +kernel)

/-! ## When the union is well wired -/

/-- Two graphs for picture and sound that have nothing in common but the source. -/
structure Separate (video audio : Graph) : Prop where
  source : audio.inputs ≠ [] → video.inputs ≠ []
  video_reads : ∀ pad ∈ Node.reads video.nodes, pad.kind = .video
  audio_reads : ∀ pad ∈ Node.reads audio.nodes, pad.kind = .audio
  labels : (Pad.labels (Node.declares video.nodes)).Disjoint
    (Pad.labels (Node.declares audio.nodes))
  no_sound : video.audioOut = none
  no_picture : audio.videoOut = none
  sound : ∃ label, audio.audioOut = some (.link label .audio)

/-- An input's stream with its new number. -/
def renumberStream (offset : Nat) (stream : Nat × Stream) : Nat × Stream :=
  (if stream.1 = 0 then 0 else stream.1 + offset, stream.2)

theorem renumberStream_injective (offset : Nat) : Function.Injective (renumberStream offset) := by
  rintro ⟨i, k⟩ ⟨i', k'⟩ h
  obtain ⟨hi, hk⟩ := Prod.mk.inj h
  refine Prod.ext ?_ hk
  simp only at hi ⊢
  split at hi <;> split at hi <;> omega

theorem sources_map_renumber (offset : Nat) (pads : List Pad) :
    Pad.sources (pads.map (renumber offset)) =
      (Pad.sources pads).map (renumberStream offset) := by
  rw [Pad.sources, Pad.sources, List.filterMap_map, List.map_filterMap]
  congr 1
  funext pad
  cases pad <;> rfl

theorem labels_map_renumber (offset : Nat) (pads : List Pad) :
    Pad.labels (pads.map (renumber offset)) = Pad.labels pads := by
  rw [Pad.labels, Pad.labels, List.filterMap_map]
  congr 1
  funext pad
  cases pad <;> rfl

theorem reads_map_shiftNode (base offset : Nat) (nodes : List Node) :
    Node.reads (nodes.map (shiftNode base offset)) =
      (Node.reads nodes).map (renumber offset) := by
  rw [Node.reads, Node.reads, List.flatMap_map, List.map_flatMap]
  rfl

theorem declares_map_shiftNode (base offset : Nat) (nodes : List Node) :
    Node.declares (nodes.map (shiftNode base offset)) = Node.declares nodes := by
  rw [Node.declares, Node.declares, List.flatMap_map]
  rfl

theorem reads_union : Node.reads (union video audio).nodes = Node.reads video.nodes ++
    (Node.reads audio.nodes).map (renumber (video.inputs.length - 1)) := by
  rw [union, Node.reads_append, reads_map_shiftNode]

theorem declares_union : Node.declares (union video audio).nodes =
    Node.declares video.nodes ++ Node.declares audio.nodes := by
  rw [union, Node.declares_append, declares_map_shiftNode]

theorem labels_reads_union : Pad.labels (Node.reads (union video audio).nodes) =
    Pad.labels (Node.reads video.nodes) ++ Pad.labels (Node.reads audio.nodes) := by
  rw [reads_union, Pad.labels_append, labels_map_renumber]

theorem labels_declares_union : Pad.labels (Node.declares (union video audio).nodes) =
    Pad.labels (Node.declares video.nodes) ++ Pad.labels (Node.declares audio.nodes) := by
  rw [declares_union, Pad.labels_append]

theorem length_inputs_union :
    (union video audio).inputs.length = video.inputs.length + (audio.inputs.length - 1) := by
  simp [union]

/-- A node of the union is one of the video graph or a shifted one of the audio graph. -/
theorem getElem?_union {k : Nat} {n : Node} (h : (union video audio).nodes[k]? = some n) :
    video.nodes[k]? = some n ∨
      ∃ j m, k = video.nodes.length + j ∧ audio.nodes[j]? = some m ∧
        n = shiftNode video.nodes.length (video.inputs.length - 1) m := by
  rw [union, List.getElem?_append] at h
  split at h
  · exact .inl h
  · rw [List.getElem?_map, Option.map_eq_some_iff] at h
    obtain ⟨m, hm, rfl⟩ := h
    exact .inr ⟨_, m, by omega, hm, rfl⟩

namespace Separate

variable (h : Separate video audio)

include h

theorem linked (hv : Node.Linked video.inputs.length video.nodes)
    (ha : Node.Linked audio.inputs.length audio.nodes) :
    Node.Linked (union video audio).inputs.length (union video audio).nodes where
  numbered := by
    intro k n hn
    rcases getElem?_union hn with hn | ⟨j, m, rfl, hm, rfl⟩
    · exact hv.numbered k n hn
    · rw [shiftNode, ha.numbered j m hm, Nat.add_comm]
  labelled := by
    intro n hn
    rcases List.mem_append.mp hn with hn | hn
    · exact hv.labelled n hn
    · obtain ⟨m, hm, rfl⟩ := List.mem_map.mp hn
      exact ha.labelled m hm
  declared_once := by
    rw [labels_declares_union]
    exact hv.declared_once.append ha.declared_once h.labels
  source_exists := by
    intro n hn input kind hpad
    rw [length_inputs_union]
    rcases List.mem_append.mp hn with hn | hn
    · have := hv.source_exists n hn input kind hpad
      omega
    · obtain ⟨m, hm, rfl⟩ := List.mem_map.mp hn
      obtain ⟨pad, hmem, heq⟩ := List.mem_map.mp hpad
      cases pad with
      | source i k =>
          have hlt := ha.source_exists m hm i k hmem
          have hpos : 0 < video.inputs.length := List.length_pos_iff.mpr
            (h.source (List.length_pos_iff.mp (Nat.zero_lt_of_lt hlt)))
          have hi := (Pad.source.inj heq).1
          split at hi <;> omega
      | link label k => cases heq
  source_once := by
    rw [reads_union, Pad.sources_append, sources_map_renumber]
    refine hv.source_once.append (ha.source_once.map (renumberStream_injective _)) ?_
    rintro ⟨i, k⟩ hvideo hrenumbered
    obtain ⟨⟨i', k'⟩, haudio, heq⟩ := List.mem_map.mp hrenumbered
    obtain rfl : k = .video := h.video_reads _ (Pad.mem_sources.mp hvideo)
    obtain rfl : k' = .audio := h.audio_reads _ (Pad.mem_sources.mp haudio)
    cases (Prod.mk.inj heq).2
  link_earlier := by
    intro k n hn label kind hpad
    rcases getElem?_union hn with hn | ⟨i, m, rfl, hm, rfl⟩
    · obtain ⟨j, m, hlt, hm, hout⟩ := hv.link_earlier k n hn label kind hpad
      exact ⟨j, m, hlt, union_nodes_left hm, hout⟩
    · obtain ⟨pad, hmem, heq⟩ := List.mem_map.mp hpad
      obtain rfl : pad = .link label kind := by cases pad <;> simp_all [renumber]
      obtain ⟨j, m', hlt, hm', hout⟩ := ha.link_earlier i m hm label kind hmem
      exact ⟨_, _, Nat.add_lt_add_left hlt _, union_nodes_right hm', hout⟩
  link_once := by
    rw [labels_reads_union]
    refine hv.link_once.append ha.link_once fun label hvideo haudio => ?_
    exact h.labels (hv.mem_labels_declares hvideo) (ha.mem_labels_declares haudio)

/-- The video graph has the only picture that leaves the union, and the audio graph the only
sound. -/
theorem terminals_union : (union video audio).terminals = video.terminals ++ audio.terminals := by
  simp [Graph.terminals, union, h.no_sound, h.no_picture]

/-- An output that leaves one of the graphs is not read in the other one either. -/
theorem terminal_link (hv : video.WellWired) (ha : audio.WellWired) {label : String}
    {kind : Stream} (hmem : .link label kind ∈ (union video audio).terminals) :
    label ∈ Pad.labels (Node.declares (union video audio).nodes) ∧
      label ∉ Pad.labels (Node.reads (union video audio).nodes) := by
  rw [h.terminals_union, List.mem_append] at hmem
  rw [labels_declares_union, labels_reads_union]
  rcases hmem with hmem | hmem
  · obtain ⟨hdeclared, hread⟩ := hv.terminal_link label kind hmem
    refine ⟨List.mem_append_left _ hdeclared, fun hnot => ?_⟩
    rcases List.mem_append.mp hnot with hnot | hnot
    · exact hread hnot
    · exact h.labels hdeclared (ha.linked.mem_labels_declares hnot)
  · obtain ⟨hdeclared, hread⟩ := ha.terminal_link label kind hmem
    refine ⟨List.mem_append_right _ hdeclared, fun hnot => ?_⟩
    rcases List.mem_append.mp hnot with hnot | hnot
    · exact h.labels (hv.linked.mem_labels_declares hnot) hdeclared
    · exact hread hnot

/-- Only the picture can leave as it came in, and the audio graph reads no picture. -/
theorem terminal_source (hv : video.WellWired) {input : Nat} {kind : Stream}
    (hmem : .source input kind ∈ (union video audio).terminals) :
    input < (union video audio).inputs.length ∧
      .source input kind ∉ Node.reads (union video audio).nodes := by
  obtain ⟨sound, hsound⟩ := h.sound
  have hpicture : .source input kind ∈ video.terminals := by
    rw [h.terminals_union, List.mem_append] at hmem
    simpa [Graph.terminals, h.no_picture, hsound] using hmem
  obtain rfl : kind = .video := by
    refine hv.video_kind (.source input kind) ?_
    simpa [Graph.terminals, h.no_sound] using hpicture
  obtain ⟨hlt, hread⟩ := hv.terminal_source input .video hpicture
  rw [length_inputs_union, reads_union, List.mem_append]
  refine ⟨Nat.lt_of_lt_of_le hlt (Nat.le_add_right _ _), fun hnot => hnot.elim hread ?_⟩
  intro hnot
  obtain ⟨pad, hpad, heq⟩ := List.mem_map.mp hnot
  have hkind := h.audio_reads pad hpad
  cases pad <;> simp_all [renumber]

/-- The union of two such graphs is well wired if they are. -/
theorem wellWired (hv : video.WellWired) (ha : audio.WellWired) :
    (union video audio).WellWired where
  linked := h.linked hv.linked ha.linked
  filtered := by
    intro n hn
    rcases List.mem_append.mp hn with hn | hn
    · exact hv.filtered n hn
    · obtain ⟨m, hm, rfl⟩ := List.mem_map.mp hn
      exact ha.filtered m hm
  terminal := by
    obtain ⟨sound, hsound⟩ := h.sound
    exact .inr (by simp [union, hsound])
  video_kind := hv.video_kind
  audio_kind := ha.audio_kind
  terminal_link := fun _ _ hmem => h.terminal_link hv ha hmem
  terminal_source := fun _ _ hmem => h.terminal_source hv hmem
  connected := by
    intro label hlabel
    rw [labels_declares_union, List.mem_append] at hlabel
    rw [labels_reads_union, h.terminals_union, Pad.labels_append, List.mem_append,
      List.mem_append]
    rcases hlabel with hlabel | hlabel
    · have := hv.connected label hlabel
      tauto
    · have := ha.connected label hlabel
      tauto

end Separate

end Program

end Montage
