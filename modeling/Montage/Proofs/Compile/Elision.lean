import Montage.Proofs.Compile.Stages
import Montage.Proofs.Graph.Bypass

/-! # Stages that leave no trace

The grade and the captions come after the layers and before the watermark. A picture without one of
them is the picture with it, less the one node, and no other stage notices. -/

namespace Montage.Video

open Builder (LeavesOut)

variable {clip clip' : Clip} {probe : Probe} {subjects : List Region} {assets assets' : Assets}

/-! ## Before the grade -/

theorem stage_of_mem_optional {present : Bool} {stage : Stage} {step : Step}
    (h : step ∈ Step.optional present stage) : step.stage = stage := by
  cases present with
  | true => rw [List.mem_singleton.mp h]; rfl
  | false => cases h

/-- Up to its layers a picture has neither grade nor captions. -/
theorem stage_of_layered {s : Builder × Pad} (h : layered clip probe subjects assets = .ok s) :
    ∀ n ∈ s.1.nodes, n.stage ≠ .color ∧ n.stage ≠ .subtitle := by
  obtain ⟨⟨b₀, source⟩, htake, h⟩ := bind_eq_ok_iff.mp h
  obtain ⟨⟨b₁, framed⟩, hframe, hlayers⟩ := bind_eq_ok_iff.mp h
  obtain ⟨-, hnodes₀, rfl⟩ := Builder.take_eq_ok htake
  obtain ⟨-, frames, hnodes₁, hframed⟩ := frame_eq_some (Outcome.ofOption_eq_ok_iff.mp hframe)
  obtain ⟨nodes, hnodes, hdrawn⟩ := (((draws_tempo clip b₁ framed).trans
    (draws_motion clip assets.autoZoomMax _ _)).trans (draws_layers hlayers)).nodes
  intro n hn
  rw [hnodes, hnodes₁, hnodes₀] at hn
  have hstage : n.stage = .frame ∨ n.stage = .tempo ∨ n.stage = .motion ∨ n.stage = .overlay := by
    rcases List.mem_append.mp hn with hn | hn
    · exact .inl (hframed.stage_eq n hn)
    · obtain ⟨step, hstep, hstage⟩ := List.mem_map.mp (hdrawn.stage_mem hn)
      rw [← hstage]
      rcases List.mem_append.mp hstep with hstep | hlayer
      · rcases List.mem_append.mp hstep with htempo | hmotion
        · exact .inr (.inl (stage_of_mem_optional htempo))
        · exact .inr (.inr (.inl (stage_of_mem_optional hmotion)))
      · refine .inr (.inr (.inr ?_))
        rcases List.mem_append.mp hlayer with hlayer | hlayer <;>
          obtain ⟨layer, -, rfl⟩ := List.mem_map.mp hlayer <;> rfl
  rcases hstage with h | h | h | h <;> rw [h] <;> decide

/-! ## After the layers -/

section LeavesOut

variable {base : Builder} {stage : Stage} {filters : List Filter} {input : Pad}
  {s s' t : Builder × Pad}

theorem leavesOut_subtitles (assets : Assets) (hstage : .subtitle ≠ stage)
    (h : base.LeavesOut stage filters input s s') :
    base.LeavesOut stage filters input (subtitles assets s.1 s.2) (subtitles assets s'.1 s'.2) := by
  unfold subtitles
  split
  · exact h.filter hstage _
  · exact h

theorem leavesOut_watermark (clip : Clip) (hstage : .watermark ≠ stage)
    (h : base.LeavesOut stage filters input s s') (ht : watermark clip s.1 s.2 = .ok t) :
    ∃ t', watermark clip s'.1 s'.2 = .ok t' ∧ base.LeavesOut stage filters input t t' := by
  unfold watermark at ht ⊢
  split
  case h_1 hmark =>
    rw [hmark] at ht
    cases ht
    exact ⟨s', rfl, h⟩
  case h_2 mark hmark =>
    rw [hmark] at ht
    obtain ⟨⟨b, logo⟩, htake, ht⟩ := bind_eq_ok_iff.mp ht
    cases ht
    obtain ⟨b', htake', hcomposite⟩ := h.composite hstage _ _ htake
    exact ⟨_, bind_eq_ok_iff.mpr ⟨(b', logo), htake', rfl⟩, hcomposite⟩

end LeavesOut

/-! ## One node less -/

/-- One compilation ends like another one, except that the graph lacks the only node of a stage:
what read its output reads its input, and the numbers after it close up. -/
structure Elides (stage : Stage) (whole part : Outcome Graph) : Prop where
  only : ∀ g, whole = .ok g → ∃ n gap, g.stageNodes stage = [n] ∧ n.gap? = some gap
  part_eq : part = whole.map (Graph.without stage)

/-- The graph of a picture passes the check as it is. -/
theorem compile_of_dressed {s t : Builder × Pad}
    (hs : layered clip probe subjects assets = .ok s) (ht : dressed clip assets s = .ok t) :
    compile clip probe subjects assets = .ok (t.1.finish (some t.2) none) := by
  have hbuild : build clip probe subjects assets = .ok (t.1.finish (some t.2) none) := by
    rw [build_eq]
    exact bind_eq_ok_iff.mpr ⟨s, hs, bind_eq_ok_iff.mpr ⟨t, ht, rfl⟩⟩
  obtain ⟨_, heq, hends⟩ := dressed_ends clip assets (ends_of_layered hs)
  cases heq.symm.trans ht
  exact bind_eq_ok_iff.mpr ⟨_, hbuild, Graph.ofExcept_checked hends.check_video⟩

/-- It is enough to leave the node out of what comes after the layers. -/
theorem elides_of_dressed {stage : Stage}
    (hlayered : layered clip' probe subjects assets' = layered clip probe subjects assets)
    (hdressed : ∀ s t, layered clip probe subjects assets = .ok s → dressed clip assets s = .ok t →
      ∃ (base : Builder) (filters : List Filter) (input : Pad) (t' : Builder × Pad),
        dressed clip' assets' s = .ok t' ∧ base.LeavesOut stage filters input t t') :
    Elides stage (compile clip probe subjects assets) (compile clip' probe subjects assets') := by
  cases hrun : layered clip probe subjects assets with
  | error failure =>
      -- what fails here fails before the stage, in both compilations alike
      rw [compile, compile, build_eq, build_eq, hlayered, hrun]
      refine ⟨fun g hg => ?_, rfl⟩
      cases hg
  | ok s =>
      obtain ⟨t, ht, -⟩ := dressed_ends clip assets (ends_of_layered hrun)
      obtain ⟨base, filters, input, t', ht', hleaves⟩ := hdressed s t hrun ht
      obtain ⟨⟨n, honly, hgap⟩, hwithout⟩ := hleaves.finish
      rw [compile_of_dressed hrun ht, compile_of_dressed (hlayered.trans hrun) ht']
      refine ⟨fun g hg => ?_, by rw [← hwithout]; rfl⟩
      cases hg
      exact ⟨n, _, honly, hgap⟩

/-- A neutral grade takes one node away. -/
theorem elides_color (clip : Clip) (probe : Probe) (subjects : List Region) (assets : Assets)
    (hgrade : ¬ clip.grade.isNeutral) {neutral : Grade} (hneutral : neutral.isNeutral) :
    Elides .color (compile clip probe subjects assets)
      (compile { clip with grade := neutral } probe subjects assets) := by
  refine elides_of_dressed rfl fun s t hrun ht => ?_
  have hends := ends_of_layered hrun
  have hstages := stage_of_layered hrun
  obtain ⟨filters, hfilters⟩ : ∃ filters, gradeFilters? clip.grade = some filters :=
    ⟨_, if_neg hgrade⟩
  have hwhole : color clip s.1 s.2 = s.1.node .video .color [s.2] filters := by
    rw [color, hfilters]
  have hpart : color { clip with grade := neutral } s.1 s.2 = s := by
    rw [color, gradeFilters?, if_pos hneutral]
  -- the two compilations part here, and from here on they take the same steps
  have hstart := LeavesOut.start hends.track.balanced (fun n hn => (hstages n hn).1) filters s.2
  rw [dressed, hwhole] at ht
  obtain ⟨t', ht', hleaves⟩ := leavesOut_watermark clip (by decide)
    (leavesOut_subtitles assets (by decide) hstart) ht
  refine ⟨s.1, filters, s.2, t', ?_, hleaves⟩
  rw [dressed, hpart]
  exact ht'

/-- Without a caption file there is one node less. -/
theorem elides_subtitles (clip : Clip) (probe : Probe) (subjects : List Region) {assets : Assets}
    {path : String} (hpath : assets.subtitlePath = some path) :
    Elides .subtitle (compile clip probe subjects assets)
      (compile clip probe subjects { assets with subtitlePath := none }) := by
  refine elides_of_dressed rfl fun s t hrun ht => ?_
  have hends := ends_of_layered hrun
  have hstages := stage_of_layered hrun
  have hgraded := color_ends clip hends
  have hbefore : ∀ n ∈ (color clip s.1 s.2).1.nodes, n.stage ≠ .subtitle := by
    obtain ⟨nodes, hnodes, hdrawn⟩ := (draws_color clip s.1 s.2).nodes
    intro n hn
    rcases List.mem_append.mp (hnodes ▸ hn) with hn | hn
    · exact (hstages n hn).2
    · obtain ⟨step, hstep, hstage⟩ := List.mem_map.mp (hdrawn.stage_mem hn)
      rw [← hstage, stage_of_mem_optional hstep]
      decide
  have hstart := LeavesOut.start hgraded.track.balanced hbefore
    [subtitleFilter path assets.fontsDir] (color clip s.1 s.2).2
  have hwhole : subtitles assets (color clip s.1 s.2).1 (color clip s.1 s.2).2 =
      (color clip s.1 s.2).1.node .video .subtitle [(color clip s.1 s.2).2]
        [subtitleFilter path assets.fontsDir] := by
    rw [subtitles, hpath]
  dsimp only [dressed] at ht
  rw [hwhole] at ht
  obtain ⟨t', ht', hleaves⟩ := leavesOut_watermark clip (by decide) hstart ht
  exact ⟨_, _, _, t', ht', hleaves⟩

/-- The picture of an accepted edit can be made with an image for each sticker. Its grade and its
captions are one node each, and the picture without them is what is left when this node is taken out
and the graph closes up. -/
theorem elided_ofEdit {e : Edit} {clip : Clip} (hclip : Clip.ofEdit e = .ok clip) (probe : Probe)
    (subjects : List Region) (assets : Assets) :
    (subjects.length < 2147483648 → assets.stickerPaths.length = clip.stickers.length →
      ∃ g, compile clip probe subjects assets = .ok g) ∧
    (¬ clip.grade.isNeutral → ∀ neutral : Grade, neutral.isNeutral →
      Elides .color (compile clip probe subjects assets)
        (compile { clip with grade := neutral } probe subjects assets)) ∧
    ∀ path, assets.subtitlePath = some path →
      Elides .subtitle (compile clip probe subjects assets)
        (compile clip probe subjects { assets with subtitlePath := none }) := by
  refine ⟨fun hsubjects hcount => ?_, fun hgrade neutral hneutral => ?_, fun path hpath => ?_⟩
  · obtain ⟨b, pad, hcompile, -⟩ :=
      compile_ends (placeable_ofEdit hclip) probe hsubjects hcount
    exact ⟨_, hcompile⟩
  · exact elides_color clip probe subjects assets hgrade hneutral
  · exact elides_subtitles clip probe subjects hpath

/-- A caption and a logo over a warm picture of two speakers, with a map between them. -/
theorem elided_ofEdit_of_warm :
    let e : Edit :=
      { sourcePath := "/media/debate.mp4", trimStartMs := 0, trimEndMs := 8000
        canvas := .portrait, grade := { temperature := 0.5 }, subjectFraming := true
        subjectCount := 2, watermark := some { path := "/media/logo.png" }
        cutaways := [{ path := "/media/map.mp4", startMs := 2000, endMs := 4000 }] }
    let probe : Probe := ⟨1920, 1080, some 10000, true, true⟩
    let subjects : List Region := [⟨480, 540, 0.9, .vision⟩, ⟨1440, 540, 0.8, .vision⟩]
    let assets : Assets := { subtitlePath := some "/tmp/c.ass" }
    ∃ clip g, Clip.ofEdit e = .ok clip ∧ compile clip probe subjects assets = .ok g ∧
      compile { clip with grade := {} } probe subjects assets = .ok (g.without .color) ∧
      compile clip probe subjects { assets with subtitlePath := none } =
        .ok (g.without .subtitle) ∧
      (g.stageNodes .watermark).map Node.inputs =
        [[.source 2 .video], [.link "v8" .video, .link "v9" .video]] ∧
      ((g.without .subtitle).stageNodes .watermark).map Node.inputs =
        [[.source 2 .video], [.link "v7" .video, .link "v8" .video]] := by
  intro e probe subjects assets
  have hrun : (do
      let clip ← Clip.ofEdit e
      let g ← compile clip probe subjects assets
      return (clip.grade.isNeutral, (g.stageNodes .watermark).map Node.inputs,
        ((g.without .subtitle).stageNodes .watermark).map Node.inputs) :
          Outcome (Bool × List (List Pad) × List (List Pad))) =
      .ok (false, [[.source 2 .video], [.link "v8" .video, .link "v9" .video]],
        [[.source 2 .video], [.link "v7" .video, .link "v8" .video]]) := by
    decide +kernel
  obtain ⟨clip, hclip, hrun⟩ := bind_eq_ok_iff.mp hrun
  obtain ⟨g, hg, hfacts⟩ := bind_eq_ok_iff.mp hrun
  obtain ⟨hgrade, hreads⟩ := Prod.mk.inj (Except.ok.inj hfacts)
  obtain ⟨hwhole, hpart⟩ := Prod.mk.inj hreads
  obtain ⟨-, hcolor, hsubtitle⟩ := elided_ofEdit hclip probe subjects assets
  have hcolor := (hcolor (by simp [hgrade]) {} (by decide +kernel)).part_eq
  have hsubtitle := (hsubtitle "/tmp/c.ass" rfl).part_eq
  rw [hg] at hcolor hsubtitle
  exact ⟨clip, g, hclip, hg, hcolor, hsubtitle, hwhole, hpart⟩

end Montage.Video
