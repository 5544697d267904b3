import Montage.Proofs.Compile.Arguments
import Montage.Proofs.Compile.Chains

/-! # Programs that are read back

Every chain of the compilation is read back, and so is every pad that a builder gives out. So the
program of a clip, whatever its files are called, is what its text says. -/

namespace Montage

open Grammar
open Montage.Filter (withArgs)

/-! ## Pads and chains -/

/-- Every pad that a builder gives out is read back. -/
theorem Builder.Balanced.padReadable {b : Builder} {held : List Pad} (h : b.Balanced held)
    {pad : Pad} (hpad : pad ∈ b.given) : PadReadable pad := by
  rcases List.mem_append.mp hpad with htaken | hdeclared
  · obtain ⟨⟨input, kind⟩, -, rfl⟩ := List.mem_map.mp htaken
    exact padReadable_source input kind
  · obtain ⟨kind, n, -, rfl⟩ := h.fresh pad hdeclared
    exact padReadable_label kind n

/-- So are the nodes of a track whose chains are. -/
theorem Builder.Ends.nodeReadable {kind : Stream} {media : MediaInput} {b : Builder} {pad : Pad}
    {chain : List Filter → Nat → Nat → Prop} (h : b.Ends kind media pad)
    (hchain : ∀ {filters inputs outputs}, chain filters inputs outputs → AllReadable filters)
    (hformed : ∀ n ∈ b.nodes, n.FormedBy chain) : ∀ n ∈ b.nodes, NodeReadable n := by
  intro n hn
  exact {
    filters_ne := h.track.filtered n hn
    filters := hchain (hformed n hn)
    inputs := fun pad hpad =>
      h.track.balanced.padReadable (h.track.balanced.mem_given_of_inputs hn hpad)
    outputs := fun pad hpad =>
      h.track.balanced.padReadable (Balanced.mem_given_of_outputs hn hpad) }

namespace Video

theorem Chain.readable {clip : Clip} {assets : Assets} {filters : List Filter}
    {inputs outputs : Nat} (h : Chain clip assets filters inputs outputs) :
    AllReadable filters := by
  cases h with
  | split => exact .single (readable_withArgs (by decide) (closed_nat outputs))
  | crop w width height => exact readable_cropScale w width height
  | stack => exact .single (readable_stack inputs)
  | tempo => exact .single (readable_tempo clip.speed)
  | motion zoom => exact readable_zoom zoom _ _
  | cutaway _ r => exact readable_cutawayFilters _ r
  | overCutaway _ r => exact .single (readable_cutaway r _)
  | sticker r => exact readable_stickerFilters r
  | overSticker _ r => exact .single (readable_sticker r _)
  | grade hgrade => exact readable_grade hgrade
  | subtitles => exact .single (readable_subtitle _ _)
  | mark _ width => exact readable_watermarkFilters width _
  | overMark _ margin => exact .single (readable_corner _ margin)

/-- The picture of any clip is read back. -/
theorem build_readable {clip : Clip} {probe : Probe} {subjects : List Region} {assets : Assets}
    {g : Graph} (h : build clip probe subjects assets = .ok g) :
    ∀ n ∈ g.nodes, NodeReadable n := by
  obtain ⟨b, pad, rfl, hends⟩ := ends_of_build h
  exact hends.nodeReadable Chain.readable (build_formed h)

end Video

namespace Audio

theorem Chain.readable {clip : Clip} {filters : List Filter} {inputs outputs : Nat}
    (h : Chain clip filters inputs outputs) : AllReadable filters := by
  cases h with
  | source volume => exact readable_primary volume clip.speed
  | silence => exact readable_silence clip.durationSeconds
  | enhance =>
      exact .cons (readable_withArgs (by decide) rfl) (.cons (readable_withArgs (by decide) rfl)
        (.single (readable_withArgs (by decide) rfl)))
  | music => exact readable_musicFilters clip _
  | flat => exact .single readable_mixFlat
  | duck => exact .single (readable_withArgs (by decide) rfl)
  | copies => exact .single (readable_withArgs (by decide) (closed_nat outputs))
  | delay onset => exact readable_delay onset
  | mix => exact .single (readable_mix _)

/-- The sound of any clip is read back. -/
theorem build_readable {clip : Clip} {probe : Probe} {soundPath : Option String} {g : Graph}
    (h : build clip probe soundPath = .ok g) : ∀ n ∈ g.nodes, NodeReadable n := by
  obtain ⟨b, pad, hbuild, hends⟩ := build_ends clip probe soundPath
  obtain rfl := Except.ok.inj (h.symm.trans hbuild)
  exact hends.nodeReadable Chain.readable (build_formed h)

end Audio

/-! ## The program -/

namespace Program

theorem readable_shiftNode {n : Node} (h : NodeReadable n) (base offset : Nat) :
    NodeReadable (shiftNode base offset n) where
  filters_ne := h.filters_ne
  filters := h.filters
  inputs := by
    intro pad hpad
    obtain ⟨pad, hmem, rfl⟩ := List.mem_map.mp hpad
    cases pad with
    | source input kind => exact padReadable_source _ kind
    | link label kind => exact h.inputs _ hmem
  outputs := h.outputs

/-- A program has nodes, and each of them is read back. -/
theorem nodes_readable {clip : Clip} {probe : Probe} {subjects : List Region} {assets : Assets}
    {p : Program} (h : compile clip probe subjects assets = .ok p) :
    p.graph.nodes ≠ [] ∧ ∀ n ∈ p.graph.nodes, NodeReadable n := by
  obtain ⟨video, audio, hvideo, haudio, hunion⟩ := compile_eq_ok h
  obtain ⟨b, pad, hbuild, hends⟩ := Audio.build_ends clip probe assets.soundEffectPath
  rw [haudio] at hbuild
  obtain rfl := Except.ok.inj hbuild
  rw [hunion]
  refine ⟨?_, ?_⟩
  · obtain ⟨n, hlast, -⟩ := hends.last
    have hmem : n ∈ b.nodes := List.mem_of_getLast? hlast
    simp [union, Builder.finish, List.ne_nil_of_mem hmem]
  · refine List.forall_mem_append.mpr ⟨Video.build_readable hvideo, fun n hn => ?_⟩
    obtain ⟨n, hmem, rfl⟩ := List.mem_map.mp hn
    exact readable_shiftNode (Audio.build_readable haudio n hmem) _ _

/-- The program of a clip is what its text says, whatever paths are in it: read back, the text has
the nodes of the program in their order, each with its pads and with its filters as they are. -/
theorem read?_filterText_of_compile {clip : Clip} {probe : Probe} {subjects : List Region}
    {assets : Assets} {p : Program} (h : compile clip probe subjects assets = .ok p) :
    read? p.graph.filterText = some (p.graph.nodes.map Node.written) := by
  obtain ⟨hne, hreadable⟩ := nodes_readable h
  exact read?_filterText hne hreadable

/-- Three seconds with captions from a file whose name has a quote, brackets and separators. -/
theorem read?_filterText_of_captions :
    let e : Edit :=
      { sourcePath := "/media/in.mp4", trimStartMs := 0, trimEndMs := 3000, canvas := .portrait,
        autoZoom := true, cutaways := [{ path := "/media/b.mp4", startMs := 0, endMs := 2000 }] }
    let probe : Probe :=
      { width := 1920, height := 1080, durationMs := none, hasAudio := true, probed := true }
    let assets : Assets := { subtitlePath := some "/tmp/it's [1],2;3.ass" }
    ∃ clip p, Clip.ofEdit e = .ok clip ∧ compile clip probe [] assets = .ok p ∧
      withArgs "subtitles" "filename='/tmp/it'\\\\\\''s [1],2;3.ass'" ∈
        p.graph.nodes.flatMap Node.filters ∧
      read? p.graph.filterText = some (p.graph.nodes.map Node.written) := by
  intro e probe assets
  have hrun : (do
      let p ← compile (← Clip.ofEdit e) probe [] assets
      return decide (withArgs "subtitles" "filename='/tmp/it'\\\\\\''s [1],2;3.ass'" ∈
        p.graph.nodes.flatMap Node.filters) : Outcome Bool) = .ok true := by
    decide +kernel
  obtain ⟨clip, hclip, hrun⟩ := bind_eq_ok_iff.mp hrun
  obtain ⟨p, hp, hmem⟩ := bind_eq_ok_iff.mp hrun
  exact ⟨clip, p, hclip, hp, of_decide_eq_true (Except.ok.inj hmem), read?_filterText_of_compile hp⟩

end Program

end Montage
