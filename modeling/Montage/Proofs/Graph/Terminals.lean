import Montage.Proofs.Graph.Session

/-! # What leaves a graph

The check compares the kind that a node reads an output as with the kind it was declared with. Of
a pad that leaves the graph it looks at the label only, so that an output may leave as what it is
not, and even twice. Here is when that happens; it does not happen to what a builder made. -/

namespace Montage

/-! ## Pads that stand for one stream -/

/-- Two pads stand for one stream: of an input, or of the output with a label, whatever kind that
is taken as. -/
def Pad.Coincide : Pad → Pad → Prop
  | .source input kind, .source input' kind' => input = input' ∧ kind = kind'
  | .link label _, .link label' _ => label = label'
  | _, _ => False

instance : DecidableRel Pad.Coincide
  | .source .., .source .. => inferInstanceAs (Decidable (_ ∧ _))
  | .link .., .link .. => inferInstanceAs (Decidable (_ = _))
  | .source .., .link .. => .isFalse id
  | .link .., .source .. => .isFalse id

/-- Every pad that a node reads or that leaves the graph, in order. -/
def Graph.consumed (g : Graph) : List Pad := Node.reads g.nodes ++ g.terminals

/-- Every output that leaves the graph is declared with the kind it leaves as, and no stream is
taken twice, be it by nodes or by leaving the graph. -/
structure Graph.SoundEnds (g : Graph) : Prop where
  picture : ∀ label kind, g.videoOut = some (.link label kind) →
    ∃ n ∈ g.nodes, .link label .video ∈ n.outputs
  sound : ∀ label kind, g.audioOut = some (.link label kind) →
    ∃ n ∈ g.nodes, .link label .audio ∈ n.outputs
  apart : ∀ video audio, g.videoOut = some video → g.audioOut = some audio →
    ¬ video.Coincide audio
  once : g.consumed.Pairwise fun pad pad' => ¬ pad.Coincide pad'

namespace Pad

/-- No two of some pads stand for one stream if their streams of inputs and their labels differ. -/
theorem pairwise_not_coincide {pads : List Pad} (hs : (sources pads).Nodup)
    (hl : (labels pads).Nodup) : pads.Pairwise fun pad pad' => ¬ pad.Coincide pad' := by
  induction pads with
  | nil => exact .nil
  | cons pad pads ih =>
      cases pad with
      | source input kind =>
          rw [sources_cons_source, List.nodup_cons, mem_sources] at hs
          refine .cons (fun pad' hpad' hsame => ?_) (ih hs.2 hl)
          cases pad' with
          | source input' kind' =>
              obtain ⟨rfl, rfl⟩ := hsame
              exact hs.1 hpad'
          | link label kind' => exact hsame
      | link label kind =>
          rw [labels_cons_link, List.nodup_cons, mem_labels, not_exists] at hl
          refine .cons (fun pad' hpad' hsame => ?_) (ih hs hl.2)
          cases pad' with
          | source input kind' => exact hsame
          | link label' kind' =>
              obtain rfl : label = label' := hsame
              exact hl.1 kind' hpad'

end Pad

namespace Graph

/-- No output leaves the graph as what it is not. -/
def TypedEnds (g : Graph) : Prop :=
  ∀ label kind declared, .link label kind ∈ g.terminals →
    .link label declared ∈ Node.declares g.nodes → declared = kind

theorem mem_terminals {g : Graph} {pad : Pad} :
    pad ∈ g.terminals ↔ g.videoOut = some pad ∨ g.audioOut = some pad := by
  rw [terminals, List.mem_append, Option.mem_toList, Option.mem_toList]

namespace WellWired

variable {g : Graph}

/-- An output that leaves the graph as what it is has been declared so. -/
theorem declared_of_typedEnds (h : g.WellWired) (hends : g.TypedEnds) {label : String}
    {kind : Stream} (hterminal : .link label kind ∈ g.terminals) :
    ∃ n ∈ g.nodes, .link label kind ∈ n.outputs := by
  obtain ⟨declared, hdeclared⟩ := Pad.mem_labels.mp (h.terminal_link label kind hterminal).1
  obtain rfl := hends label kind declared hterminal hdeclared
  exact List.mem_flatMap.mp hdeclared

/-- The pads that leave a graph as what they are stand for two streams. -/
theorem terminals_apart (h : g.WellWired) (hends : g.TypedEnds) {video audio : Pad}
    (hvideo : g.videoOut = some video) (haudio : g.audioOut = some audio) :
    ¬ video.Coincide audio := by
  have hpicture := h.video_kind video hvideo
  have hsound := h.audio_kind audio haudio
  have hv : video ∈ g.terminals := mem_terminals.mpr (.inl hvideo)
  have ha : audio ∈ g.terminals := mem_terminals.mpr (.inr haudio)
  intro hsame
  cases video with
  | source input kind =>
      cases audio with
      | source input' kind' =>
          obtain ⟨-, rfl⟩ := hsame
          cases hpicture.symm.trans hsound
      | link label kind' => exact hsame
  | link label kind =>
      cases audio with
      | source input kind' => exact hsame
      | link label' kind' =>
          obtain rfl : label = label' := hsame
          obtain ⟨declared, hdeclared⟩ := Pad.mem_labels.mp (h.terminal_link label kind hv).1
          obtain rfl := hends label kind declared hv hdeclared
          obtain rfl := hends label kind' declared ha hdeclared
          cases hpicture.symm.trans hsound

/-- What a node reads does not leave the graph. -/
theorem not_coincide_terminal (h : g.WellWired) {pad terminal : Pad}
    (hpad : pad ∈ Node.reads g.nodes) (hterminal : terminal ∈ g.terminals) :
    ¬ pad.Coincide terminal := by
  intro hsame
  cases pad with
  | source input kind =>
      cases terminal with
      | source input' kind' =>
          obtain ⟨rfl, rfl⟩ := hsame
          exact (h.terminal_source input kind hterminal).2 hpad
      | link label kind' => exact hsame
  | link label kind =>
      cases terminal with
      | source input kind' => exact hsame
      | link label' kind' =>
          obtain rfl : label = label' := hsame
          exact (h.terminal_link label kind' hterminal).2 (Pad.mem_labels.mpr ⟨kind, hpad⟩)

/-- Nothing is taken twice if what leaves the graph leaves it as what it is. -/
theorem consumed_once (h : g.WellWired) (hends : g.TypedEnds) :
    g.consumed.Pairwise fun pad pad' => ¬ pad.Coincide pad' := by
  have hreads := Pad.pairwise_not_coincide h.linked.source_once h.linked.link_once
  refine List.pairwise_append.mpr ⟨hreads, ?_, fun pad hpad terminal hterminal =>
    h.not_coincide_terminal hpad hterminal⟩
  rw [terminals]
  cases hvideo : g.videoOut with
  | none => cases g.audioOut <;> simp
  | some video =>
      cases haudio : g.audioOut with
      | none => simp
      | some audio => simpa using h.terminals_apart hends hvideo haudio

theorem soundEnds (h : g.WellWired) (hends : g.TypedEnds) : g.SoundEnds where
  picture := by
    intro label kind hvideo
    obtain rfl : kind = .video := h.video_kind _ hvideo
    exact h.declared_of_typedEnds hends (mem_terminals.mpr (.inl hvideo))
  sound := by
    intro label kind haudio
    obtain rfl : kind = .audio := h.audio_kind _ haudio
    exact h.declared_of_typedEnds hends (mem_terminals.mpr (.inr haudio))
  apart := fun _ _ => h.terminals_apart hends
  once := h.consumed_once hends

/-- A label is declared with one kind. -/
theorem declared_kind_unique (h : g.WellWired) {label : String} {kind kind' : Stream}
    (hpad : .link label kind ∈ Node.declares g.nodes)
    (hpad' : .link label kind' ∈ Node.declares g.nodes) : kind = kind' := by
  have hlookup := (Wiring.lookup_declared [] h.linked.declared_once).mpr hpad
  have hlookup' := (Wiring.lookup_declared [] h.linked.declared_once).mpr hpad'
  exact Option.some.inj (hlookup.symm.trans hlookup')

theorem typedEnds (h : g.WellWired) (hsound : g.SoundEnds) : g.TypedEnds := by
  intro label kind declared hterminal hdeclared
  rcases mem_terminals.mp hterminal with hvideo | haudio
  · obtain rfl : kind = .video := h.video_kind _ hvideo
    obtain ⟨n, hn, hout⟩ := hsound.picture label _ hvideo
    exact h.declared_kind_unique hdeclared (List.mem_flatMap.mpr ⟨n, hn, hout⟩)
  · obtain rfl : kind = .audio := h.audio_kind _ haudio
    obtain ⟨n, hn, hout⟩ := hsound.sound label _ haudio
    exact h.declared_kind_unique hdeclared (List.mem_flatMap.mpr ⟨n, hn, hout⟩)

end WellWired

end Graph

/-! ## What a builder made -/

namespace Builder

/-- What is held leaves as what it was declared as. -/
theorem Balanced.typedEnds {b : Builder} {video audio : Option Pad} {rest : List Pad}
    (h : b.Balanced (video.toList ++ audio.toList ++ rest)) :
    (b.finish video audio).TypedEnds := by
  intro label kind declared hterminal hdeclared
  have hlink := h.link_declared (List.mem_append_left rest hterminal)
  obtain ⟨k, n, -, heq⟩ := h.fresh _ hlink
  obtain ⟨rfl, rfl⟩ := Pad.link.inj heq
  obtain ⟨k', n', -, heq'⟩ := h.fresh _ hdeclared
  obtain ⟨hlabel, rfl⟩ := Pad.link.inj heq'
  exact (label_inj.mp hlabel).1.symm

theorem Session.typedEnds_of_complete? {source : MediaInput} {calls : List Call}
    {video audio : Option Pad} {g : Graph} {lost : List Pad}
    (h : complete? source calls video audio = some (g, lost)) : g.TypedEnds := by
  obtain ⟨s, hrun, hfinish⟩ := Option.bind_eq_some_iff.mp h
  obtain ⟨hheld, -, -, rfl⟩ := finish?_eq_some hfinish
  exact ((run?_balanced (Balanced.new source) hrun).perm hheld).typedEnds

end Builder

/-! ## What the check lets through -/

/-- The ends of a graph that passes the check are sound exactly if no output leaves the graph as
what it is not, which the check does not see. They always are if a builder made the graph. -/
theorem Graph.soundEnds_iff_of_check {g : Graph} (h : g.check = .ok ()) :
    (g.SoundEnds ↔ g.TypedEnds) ∧
      ∀ source calls video audio lost,
        Builder.Session.complete? source calls video audio = some (g, lost) → g.SoundEnds := by
  have hwired := wellWired_of_check h
  refine ⟨⟨hwired.typedEnds, hwired.soundEnds⟩, ?_⟩
  intro source calls video audio lost hcomplete
  exact hwired.soundEnds (Builder.Session.typedEnds_of_complete? hcomplete)

/-- Silence, and what leaves the graph as its picture and as its sound. -/
def Graph.silence (video audio : Option Pad) : Graph where
  inputs := [{ path := "/media/in.mp4" }]
  nodes := [{ id := 0, stage := .primary, filters := [{ name := "anullsrc" }], inputs := []
              outputs := [.link "a0" .audio] }]
  videoOut := video
  audioOut := audio

/-- A builder lets silence leave as sound only, here beside the picture of the source. -/
theorem Graph.soundEnds_silence :
    let g := silence (some (.source 0 .video)) (some (.link "a0" .audio))
    g.check = .ok () ∧
      Builder.Session.complete? { path := "/media/in.mp4" }
        [.source .video 0, .generator .audio .primary [{ name := "anullsrc" }]]
        g.videoOut g.audioOut = some (g, []) ∧
      g.SoundEnds ∧ g.TypedEnds := by
  intro g
  have hcheck : g.check = .ok () := by decide +kernel
  have hcomplete : Builder.Session.complete? { path := "/media/in.mp4" }
      [.source .video 0, .generator .audio .primary [{ name := "anullsrc" }]]
      g.videoOut g.audioOut = some (g, []) := rfl
  have hsound := (soundEnds_iff_of_check hcheck).2 _ _ _ _ _ hcomplete
  exact ⟨hcheck, hcomplete, hsound, (soundEnds_iff_of_check hcheck).1.mp hsound⟩

/-- The same silence leaves as picture and as sound. -/
theorem Graph.not_soundEnds_silence :
    let g := silence (some (.link "a0" .video)) (some (.link "a0" .audio))
    g.check = .ok () ∧ (∀ n ∈ g.nodes, .link "a0" .video ∉ n.outputs) ∧
      (Pad.link "a0" .video).Coincide (.link "a0" .audio) ∧ ¬ g.SoundEnds := by
  refine ⟨by decide +kernel, by decide, rfl, fun h => ?_⟩
  exact h.apart _ _ rfl rfl rfl

end Montage
