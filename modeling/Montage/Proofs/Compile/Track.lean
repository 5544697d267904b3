import Montage.Proofs.Graph.Building

/-! # Tracks

A track is a builder all of whose pads have one kind, none of whose chains is empty and whose
input 0 is a given source. The compilation of a clip carries one pad from stage to stage, which is
the only pad held and the only output of the last node. -/

namespace Montage

/-- What every step of a run keeps, the run keeps. -/
theorem Outcome.foldlM_induction {σ α : Type} {P : σ → Prop} {step : σ → α → Outcome σ}
    {xs : List α} (hstep : ∀ s x s', x ∈ xs → P s → step s x = .ok s' → P s') {s s' : σ} (h : P s)
    (hrun : xs.foldlM step s = .ok s') : P s' := by
  induction xs generalizing s with
  | nil =>
      cases hrun
      exact h
  | cons x xs ih =>
      rw [List.foldlM_cons] at hrun
      obtain ⟨next, hfirst, hrest⟩ := bind_eq_ok_iff.mp hrun
      exact ih (fun s x s' hx => hstep s x s' (List.mem_cons_of_mem _ hx))
        (hstep s x next List.mem_cons_self h hfirst) hrest

/-- What the steps of a run add one after the other, the run adds in order. -/
theorem Outcome.foldlM_adds {σ α β : Type} (Adds : σ → List β → σ → Prop)
    (hrefl : ∀ s, Adds s [] s)
    (htrans : ∀ {s s₁ s' : σ} {before after : List β}, Adds s before s₁ → Adds s₁ after s' →
      Adds s (before ++ after) s')
    {step : σ → α → Outcome σ} (f : α → β)
    (hstep : ∀ s x s', step s x = .ok s' → Adds s [f x] s') {xs : List α} {s s' : σ}
    (hrun : xs.foldlM step s = .ok s') : Adds s (xs.map f) s' := by
  induction xs generalizing s with
  | nil =>
      cases hrun
      exact hrefl _
  | cons x xs ih =>
      rw [List.foldlM_cons] at hrun
      obtain ⟨next, hfirst, hrest⟩ := bind_eq_ok_iff.mp hrun
      exact htrans (hstep s x next hfirst) (ih hrest)

namespace Builder

/-- All pads given out have one kind, every node has filters and input 0 is the source. -/
structure Track (kind : Stream) (source : MediaInput) (b : Builder) (held : List Pad) : Prop where
  balanced : b.Balanced held
  filtered : ∀ n ∈ b.nodes, n.filters ≠ []
  kinds : ∀ pad ∈ b.given, pad.kind = kind
  source : b.inputs.head? = some source

/-- One pad is held, the only output of the last node. -/
structure Ends (kind : Stream) (source : MediaInput) (b : Builder) (pad : Pad) : Prop where
  track : b.Track kind source [pad]
  last : ∃ n, b.nodes.getLast? = some n ∧ n.outputs = [pad]

namespace Track

variable {kind : Stream} {media : MediaInput} {b : Builder} {held : List Pad}

theorem new (kind : Stream) (media : MediaInput) : (Builder.new media).Track kind media [] where
  balanced := Balanced.new media
  filtered := by simp [Builder.new]
  kinds := by simp [given, Builder.new]
  source := rfl

theorem perm {held' : List Pad} (h : b.Track kind media held) (hperm : held.Perm held') :
    b.Track kind media held' :=
  { h with balanced := h.balanced.perm hperm }

theorem addInput (h : b.Track kind media held) (input : MediaInput) :
    (b.addInput input).1.Track kind media held where
  balanced := h.balanced.addInput input
  filtered := h.filtered
  kinds := h.kinds
  source := by
    rw [Builder.addInput, List.head?_append, h.source]
    rfl

/-- A stream that nobody took yet can be taken. -/
theorem take (h : b.Track kind media held) (input : Nat) (hinput : input < b.inputs.length)
    (hfree : (input, kind) ∉ b.taken) :
    ∃ b' pad, b.take kind input = .ok (b', pad) ∧ b'.Track kind media (pad :: held) := by
  refine ⟨_, _, take_eq_ok_iff.mpr ⟨hinput, hfree, rfl, rfl⟩,
    h.balanced.taken_cons hinput hfree, h.filtered, ?_, h.source⟩
  intro pad hpad
  rw [given, List.map_cons, List.cons_append, List.mem_cons] at hpad
  rcases hpad with rfl | hpad
  · rfl
  · exact h.kinds pad hpad

/-- The stream of an input that was just added can be taken. -/
theorem take_addInput (h : b.Track kind media held) (input : MediaInput) :
    ∃ b' pad, (b.addInput input).1.take kind b.inputs.length = .ok (b', pad) ∧
      b'.Track kind media (pad :: held) := by
  refine (h.addInput input).take b.inputs.length (by simp [Builder.addInput]) fun hmem => ?_
  exact Nat.lt_irrefl _ (h.balanced.taken_exists _ kind hmem)

theorem fanOut (pads : List Pad) (h : b.Track kind media (pads ++ held)) (stage : Stage)
    (filters : List Filter) (hf : filters ≠ []) (outputs : Nat) :
    (b.fanOut kind stage pads filters outputs).1.Track kind media
      ((b.fanOut kind stage pads filters outputs).2 ++ held) where
  balanced := h.balanced.fanOut pads kind stage filters outputs
  filtered := by
    intro n hn
    rw [fanOut_nodes, List.mem_append, List.mem_singleton] at hn
    rcases hn with hn | rfl
    · exact h.filtered n hn
    · exact hf
  kinds := by
    intro pad hpad
    rw [given, fanOut_taken, fanOut_nodes, Node.declares_append, ← List.append_assoc,
      List.mem_append] at hpad
    rcases hpad with hpad | hpad
    · exact h.kinds pad hpad
    · rw [Node.declares_singleton] at hpad
      have hmade : pad ∈ (b.fanOut kind stage pads filters outputs).2 := hpad
      obtain ⟨i, -, rfl⟩ := mem_fanOut.mp hmade
      rfl
  source := by
    rw [fanOut_inputs]
    exact h.source

theorem node (pads : List Pad) (h : b.Track kind media (pads ++ held)) (stage : Stage)
    (filters : List Filter) (hf : filters ≠ []) :
    (b.node kind stage pads filters).1.Track kind media
      ((b.node kind stage pads filters).2 :: held) := by
  have hfan := h.fanOut pads stage filters hf 1
  rwa [fanOut_one] at hfan

/-- All pads that are read have the kind of the track. -/
theorem kind_reads (h : b.Track kind media held) {pad : Pad} (hpad : pad ∈ Node.reads b.nodes) :
    pad.kind = kind :=
  h.kinds pad (h.balanced.balance.mem_iff.mpr (List.mem_append_left _ hpad))

/-- All labels have the form of the kind of the track. -/
theorem label_declares (h : b.Track kind media held) {l : String}
    (hl : l ∈ Pad.labels (Node.declares b.nodes)) : ∃ n, l = label kind n := by
  obtain ⟨k, hpad⟩ := Pad.mem_labels.mp hl
  obtain ⟨k', n, -, heq⟩ := h.balanced.fresh _ hpad
  obtain ⟨rfl, rfl⟩ := Pad.link.inj heq
  obtain rfl : k = kind := h.kinds _ (List.mem_append_right _ hpad)
  exact ⟨n, rfl⟩

/-- A node that reads all that is held ends the track. -/
theorem ends {pads : List Pad} (h : b.Track kind media pads) (stage : Stage)
    (filters : List Filter) (hf : filters ≠ []) :
    (b.node kind stage pads filters).1.Ends kind media (b.node kind stage pads filters).2 where
  track := by
    rw [← List.append_nil pads] at h
    exact h.node pads stage filters hf
  last := ⟨_, List.getLast?_concat, rfl⟩

end Track

namespace Ends

variable {kind : Stream} {media : MediaInput} {b : Builder} {pad : Pad}

theorem kind_eq (h : b.Ends kind media pad) : pad.kind = kind :=
  h.track.kinds pad (h.track.balanced.mem_given_of_held List.mem_cons_self)

/-- The pad at the end is an output. -/
theorem eq_link (h : b.Ends kind media pad) : ∃ l, pad = .link l kind := by
  obtain ⟨n, hn, hout⟩ := h.last
  obtain ⟨l, k, rfl⟩ := h.track.balanced.linked.labelled n (List.mem_of_getLast? hn) pad
    (by simp [hout])
  obtain rfl : k = kind := h.kind_eq
  exact ⟨l, rfl⟩

/-- A track whose last pad leaves the graph passes the check. -/
theorem check_finish {video audio : Option Pad} (h : b.Ends kind media pad)
    (hterminals : video.toList ++ audio.toList = [pad])
    (hvideo : ∀ p, video = some p → p.kind = .video)
    (haudio : ∀ p, audio = some p → p.kind = .audio) :
    (b.finish video audio).check = .ok () := by
  have hbalanced : b.Balanced (video.toList ++ audio.toList ++ []) := by
    rw [hterminals]
    exact h.track.balanced
  rw [hbalanced.check_finish hvideo haudio, verdict_eq_ok_iff]
  refine ⟨?_, ?_, rfl⟩
  · simpa using h.track.filtered
  · by_contra hnone
    rw [not_or, not_not, not_not] at hnone
    simp [hnone] at hterminals

theorem check_video (h : b.Ends .video media pad) :
    (b.finish (some pad) none).check = .ok () :=
  h.check_finish rfl (by simpa using h.kind_eq) (by simp)

theorem check_audio (h : b.Ends .audio media pad) :
    (b.finish none (some pad)).check = .ok () :=
  h.check_finish rfl (by simp) (by simpa using h.kind_eq)

/-- Stages in a row, each of which keeps the track. -/
theorem foldlM {α : Type} (stage : Builder × Pad → α → Outcome (Builder × Pad)) (layers : List α)
    (hstage : ∀ b pad, b.Ends kind media pad → ∀ layer ∈ layers,
      ∃ b' pad', stage (b, pad) layer = .ok (b', pad') ∧ b'.Ends kind media pad')
    (h : b.Ends kind media pad) :
    ∃ b' pad', layers.foldlM stage (b, pad) = .ok (b', pad') ∧ b'.Ends kind media pad' := by
  induction layers generalizing b pad with
  | nil => exact ⟨b, pad, rfl, h⟩
  | cons layer layers ih =>
      obtain ⟨b₁, pad₁, hfirst, hends⟩ := hstage b pad h layer List.mem_cons_self
      obtain ⟨b₂, pad₂, hrest, hends⟩ := ih
        (fun b pad h layer hlayer => hstage b pad h layer (List.mem_cons_of_mem _ hlayer)) hends
      refine ⟨b₂, pad₂, ?_, hends⟩
      rw [List.foldlM_cons, hfirst]
      exact hrest

end Ends

end Builder

end Montage
