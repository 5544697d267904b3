import Montage.Compile.Video
import Montage.Proofs.Clip.Translation
import Montage.Proofs.Compile.Track

/-! # The picture is well wired

Each stage of the picture takes a track that ends in its pad to another one. Only the number of
sticker images can make a stage fail. -/

namespace Montage.Video

open Builder (Track Ends)

variable {media : MediaInput} {b : Builder} {pad : Pad}

/-! ## Framing -/

theorem length_bandHeights (height n : Nat) : (bandHeights height n).length = max n 1 := by
  simp only [bandHeights, List.length_append, List.length_replicate, List.length_singleton]
  omega

theorem length_of_bandHeights? {height n : Nat} {heights : List Nat}
    (h : bandHeights? height n = some heights) : heights.length = max n 1 := by
  simp only [bandHeights?, Option.ite_none_left_eq_some] at h
  obtain ⟨-, h⟩ := h
  split at h
  case isTrue =>
    cases h
    exact length_bandHeights height n
  case isFalse =>
    rw [Limits.guardList, Option.ite_none_right_eq_some] at h
    obtain ⟨-, h⟩ := h
    cases h
    simp only [List.length_append, List.length_replicate, List.length_singleton]
    omega

/-- Equal bands are together no higher than the canvas, or than two for each of them. -/
theorem band_mul_le (height n : Nat) :
    max (evenFloor (height / n)) 2 * (n - 1) ≤ max height (2 * n) := by
  have heven := evenFloor_le (height / n)
  rcases Nat.le_total (evenFloor (height / n)) 2 with hle | hle
  · rw [Nat.max_eq_right hle]
    omega
  · rw [Nat.max_eq_left hle]
    calc evenFloor (height / n) * (n - 1)
        ≤ height / n * n := Nat.mul_le_mul heven (Nat.sub_le n 1)
      _ ≤ height := Nat.div_mul_le_self height n
      _ ≤ max height (2 * n) := Nat.le_max_left _ _

/-- There are heights for any number of bands that can be counted with 31 bits. -/
theorem bandHeights?_eq_some {height n : Nat} (hheight : height < heightLimit)
    (hn : n < 2147483648) : bandHeights? height n = some (bandHeights height n) := by
  rw [heightLimit] at hheight
  have hshare : max n 1 % heightLimit = max n 1 := Nat.mod_eq_of_lt (by
    rw [heightLimit]
    omega)
  have hband := band_mul_le height (max n 1)
  have hfits : ¬ (max n 1 = 0 ∨
      heightLimit ≤ max (evenFloor (height / max n 1)) 2 * (max n 1 - 1)) := by
    rw [heightLimit]
    omega
  simp only [bandHeights?, hshare, if_neg hfits, if_true]

theorem subjectWindow?_isSome (probe : Probe) (subject : Region) (width height : Nat) :
    ∃ w, subjectWindow? probe subject width height = some w := by
  obtain ⟨w, hw⟩ := CropWindow.largest?_isSome probe.width probe.height
    (.ofNat width / .ofNat height)
  obtain ⟨w', hw'⟩ := CropWindow.centeredOn?_isSome w subject.centerX w.center.2 probe.width
    probe.height
  exact ⟨w', by rw [subjectWindow?, hw]; exact hw'⟩

theorem wholeWindow?_isSome (clip : Clip) (probe : Probe) (subjects : List Region) :
    ∃ w, wholeWindow? clip probe subjects = some w := by
  unfold wholeWindow?
  split
  · exact subjectWindow?_isSome probe _ _ _
  · exact CropWindow.largest?_isSome _ _ _

/-- Each branch becomes a band and none is dropped. -/
theorem bands_track (probe : Probe) (width : Nat) {held : List Pad}
    {branches : List (Pad × Region × Nat)}
    (h : b.Track .video media (branches.map Prod.fst ++ held)) :
    ∃ b' pads, bands probe width b branches = some (b', pads) ∧
      b'.Track .video media (pads ++ held) := by
  induction branches generalizing b held with
  | nil => exact ⟨b, [], rfl, h⟩
  | cons head rest ih =>
      obtain ⟨branch, subject, height⟩ := head
      obtain ⟨window, hwindow⟩ := subjectWindow?_isSome probe subject width height
      have hnode := Track.node [branch] h .frame (cropScale window width height)
        (by simp [cropScale])
      obtain ⟨b', pads, hrest, htrack⟩ := ih (hnode.perm List.perm_middle.symm)
      refine ⟨b', _ :: pads, ?_, htrack.perm List.perm_middle⟩
      simp [bands, hwindow, hrest]

/-- The framing has a window for every subject, wherever its centre is. Only the heights of several
bands can be missing. -/
theorem frame_ends_of_heights (clip : Clip) (probe : Probe) {subjects : List Region}
    (hheights : clip.subjectFraming ∧ 1 < subjects.length →
      ∃ heights, bandHeights? clip.canvas.height subjects.length = some heights)
    (h : b.Track .video media [pad]) :
    ∃ b' pad', frame clip probe subjects b pad = some (b', pad') ∧
      b'.Ends .video media pad' := by
  unfold frame
  dsimp only
  split
  case isTrue hmany =>
    obtain ⟨heights, hheights⟩ := hheights hmany
    have hsplit := Track.fanOut [pad] (List.append_nil [pad] ▸ h) .frame
      [.withArgs "split" (toString subjects.length)] (by simp) subjects.length
    have hcount := length_of_bandHeights? hheights
    have hlength : (b.fanOut .video .frame [pad] [.withArgs "split" (toString subjects.length)]
        subjects.length).2.length ≤ (subjects.zip heights).length := by
      rw [Builder.length_fanOut, List.length_zip]
      omega
    rw [← List.map_fst_zip hlength] at hsplit
    obtain ⟨b', pads, hbands, htrack⟩ := bands_track probe clip.canvas.width hsplit
    rw [List.append_nil] at htrack
    refine ⟨_, _, ?_, htrack.ends .frame
      [.withArgs "vstack" s!"inputs={subjects.length}"] (by simp)⟩
    simp only [hheights, Option.bind_eq_bind, Option.bind_some, hbands]
    rfl
  case isFalse =>
    obtain ⟨window, hwindow⟩ := wholeWindow?_isSome clip probe subjects
    rw [hwindow]
    exact ⟨_, _, rfl, h.ends .frame _ (by simp [cropScale])⟩

theorem frame_ends (clip : Clip) (probe : Probe) {subjects : List Region}
    (hsubjects : subjects.length < 2147483648) (h : b.Track .video media [pad]) :
    ∃ b' pad', frame clip probe subjects b pad = some (b', pad') ∧
      b'.Ends .video media pad' := by
  have hheight : clip.canvas.height < heightLimit := by
    cases clip.canvas <;> decide
  exact frame_ends_of_heights clip probe (fun _ => ⟨_, bandHeights?_eq_some hheight hsubjects⟩) h

theorem ends_of_frame {clip : Clip} {probe : Probe} {subjects : List Region} {b' : Builder}
    {pad' : Pad} (h : b.Track .video media [pad])
    (hframe : frame clip probe subjects b pad = some (b', pad')) : b'.Ends .video media pad' := by
  have hheights (hmany : clip.subjectFraming ∧ 1 < subjects.length) :
      ∃ heights, bandHeights? clip.canvas.height subjects.length = some heights := by
    rw [frame] at hframe
    dsimp only at hframe
    rw [if_pos hmany] at hframe
    obtain ⟨heights, hheights, -⟩ := Option.bind_eq_some_iff.mp hframe
    exact ⟨heights, hheights⟩
  obtain ⟨_, _, heq, hends⟩ := frame_ends_of_heights clip probe hheights h
  cases heq.symm.trans hframe
  exact hends

/-! ## Stages with one node at most -/

theorem tempo_ends (clip : Clip) (h : b.Ends .video media pad) :
    (tempo clip b pad).1.Ends .video media (tempo clip b pad).2 := by
  rw [tempo]
  split
  · exact h.track.ends .tempo _ (by simp)
  · exact h

theorem motion_ends (clip : Clip) (autoZoomMax : Binary64) (h : b.Ends .video media pad) :
    (motion clip autoZoomMax b pad).1.Ends .video media (motion clip autoZoomMax b pad).2 := by
  rw [motion]
  split
  · exact h.track.ends .motion _ (by simp [Zoom.filters])
  · exact h

/-- A grade that is not neutral has a filter. -/
theorem gradeFilters?_ne_nil {g : Grade} {filters : List Filter}
    (h : gradeFilters? g = some filters) : filters ≠ [] := by
  rw [gradeFilters?] at h
  split at h
  case isTrue => cases h
  case isFalse hneutral =>
    rintro rfl
    have habsent {c : Bool} {f : Filter} (hc : (if c then [f] else []) = []) : c = false := by
      simpa using hc
    obtain ⟨h, hvignette⟩ := List.append_eq_nil_iff.mp (Option.some.inj h)
    obtain ⟨h, htemperature⟩ := List.append_eq_nil_iff.mp h
    obtain ⟨hexposure, hhue⟩ := List.append_eq_nil_iff.mp h
    refine hneutral ?_
    rw [Grade.isNeutral, habsent hexposure, habsent hhue, habsent htemperature,
      habsent hvignette]
    rfl

theorem color_ends (clip : Clip) (h : b.Ends .video media pad) :
    (color clip b pad).1.Ends .video media (color clip b pad).2 := by
  unfold color
  split
  case h_1 filters hfilters => exact h.track.ends .color _ (gradeFilters?_ne_nil hfilters)
  case h_2 => exact h

theorem subtitles_ends (assets : Assets) (h : b.Ends .video media pad) :
    (subtitles assets b pad).1.Ends .video media (subtitles assets b pad).2 := by
  unfold subtitles
  split
  · exact h.track.ends .subtitle _ (by simp)
  · exact h

/-! ## Layers -/

/-- A further input can be prepared and put over the picture. -/
theorem composite_ends (h : b.Ends .video media pad) (input : MediaInput) :
    ∃ b' stream, (b.addInput input).1.take .video b.inputs.length = .ok (b', stream) ∧
      ∀ stage filters composite, filters ≠ [] → composite ≠ [] →
        let (b'', prepared) := b'.node .video stage [stream] filters
        (b''.node .video stage [pad, prepared] composite).1.Ends .video media
          (b''.node .video stage [pad, prepared] composite).2 := by
  obtain ⟨b', stream, htake, htrack⟩ := h.track.take_addInput input
  refine ⟨b', stream, htake, fun stage filters composite hfilters hcomposite => ?_⟩
  have hprepared := Track.node [stream] htrack stage filters hfilters
  exact (hprepared.perm (List.Perm.swap _ _ _)).ends stage composite hcomposite

theorem cutaway_ends (clip : Clip) (layer : ClipCutaway) (h : b.Ends .video media pad)
    (hrect : ∃ rect, layer.placement.toPixels? clip.canvas.width clip.canvas.height = some rect) :
    ∃ b' pad', cutaway clip b pad layer = .ok (b', pad') ∧ b'.Ends .video media pad' := by
  obtain ⟨rect, hrect⟩ := hrect
  obtain ⟨b', stream, htake, hends⟩ := composite_ends h
    (.trimmed layer.path layer.offsetMs layer.window.duration)
  simp only [Builder.addInput] at htake
  simp only [cutaway, Builder.addInput, hrect, Outcome.ofOption, htake, bind, Except.bind]
  exact ⟨_, _, rfl, hends .overlay _ _ (by simp [cutawayFilters]) (by simp)⟩

theorem sticker_ends (clip : Clip) (layer : ClipSticker) (path : String)
    (h : b.Ends .video media pad)
    (hrect : ∃ rect, layer.placement.toPixels? clip.canvas.width clip.canvas.height = some rect) :
    ∃ b' pad', sticker clip b pad layer path = .ok (b', pad') ∧ b'.Ends .video media pad' := by
  obtain ⟨rect, hrect⟩ := hrect
  obtain ⟨b', stream, htake, hends⟩ := composite_ends h (.loopedImage path clip.durationMs)
  simp only [Builder.addInput] at htake
  simp only [sticker, Builder.addInput, hrect, Outcome.ofOption, htake, bind, Except.bind]
  exact ⟨_, _, rfl, hends .overlay _ _ (by simp) (by simp)⟩

theorem watermark_ends (clip : Clip) (h : b.Ends .video media pad) :
    ∃ b' pad', watermark clip b pad = .ok (b', pad') ∧ b'.Ends .video media pad' := by
  unfold watermark
  split
  case h_1 => exact ⟨b, pad, rfl, h⟩
  case h_2 mark _ =>
    obtain ⟨b', stream, htake, hends⟩ := composite_ends h { path := mark.path }
    simp only [Builder.addInput] at htake
    simp only [Builder.addInput, htake, bind, Except.bind]
    exact ⟨_, _, rfl, hends .watermark _ _ (by simp) (by simp)⟩

/-- Every layer has pixels on the canvas of the clip. -/
structure Placeable (clip : Clip) : Prop where
  cutaways : ∀ layer ∈ clip.cutaways, ∃ rect,
    layer.placement.toPixels? clip.canvas.width clip.canvas.height = some rect
  stickers : ∀ layer ∈ clip.stickers, ∃ rect,
    layer.placement.toPixels? clip.canvas.width clip.canvas.height = some rect

/-- The layers of an accepted edit lie on the canvas. -/
theorem placeable_ofEdit {e : Edit} {clip : Clip} (hclip : Clip.ofEdit e = .ok clip) :
    Placeable clip where
  cutaways _ hlayer := Clip.cutaway_toPixels? hclip hlayer _ _
  stickers _ hlayer := Clip.sticker_toPixels? hclip hlayer _ _

theorem layers_ends {clip : Clip} (hclip : Placeable clip) {stickerPaths : List String}
    (hcount : stickerPaths.length = clip.stickers.length) (h : b.Ends .video media pad) :
    ∃ b' pad', layers clip stickerPaths b pad = .ok (b', pad') ∧
      b'.Ends .video media pad' := by
  obtain ⟨b₁, pad₁, hcutaways, hends⟩ := Ends.foldlM
    (fun s (layer : ClipCutaway) => cutaway clip s.1 s.2 layer) clip.cutaways
    (fun b pad h layer hlayer => cutaway_ends clip layer h (hclip.cutaways layer hlayer)) h
  have hzip {image : ClipSticker × String} (himage : image ∈ clip.stickers.zip stickerPaths) :
      image.1 ∈ clip.stickers := by
    obtain ⟨layer, path⟩ := image
    exact (List.of_mem_zip himage).1
  obtain ⟨b₂, pad₂, hstickers, hends⟩ := Ends.foldlM
    (fun s (image : ClipSticker × String) => sticker clip s.1 s.2 image.1 image.2)
    (clip.stickers.zip stickerPaths)
    (fun b pad h image hlayer =>
      sticker_ends clip image.1 image.2 h (hclip.stickers image.1 (hzip hlayer))) hends
  refine ⟨b₂, pad₂, ?_, hends⟩
  simp only [layers, hcutaways, hcount, bind, Except.bind, ne_eq, not_true, if_false]
  exact hstickers

/-- The cutaways are drawn first, then the stickers. -/
theorem layers_eq_ok {clip : Clip} {stickerPaths : List String} {s' : Builder × Pad}
    (h : layers clip stickerPaths b pad = .ok s') :
    ∃ s₁, clip.cutaways.foldlM (fun s layer => cutaway clip s.1 s.2 layer) (b, pad) = .ok s₁ ∧
      (clip.stickers.zip stickerPaths).foldlM
        (fun s image => sticker clip s.1 s.2 image.1 image.2) s₁ = .ok s' := by
  obtain ⟨s₁, hcutaways, h⟩ := bind_eq_ok_iff.mp h
  dsimp only at h
  split at h
  case isTrue => cases h
  case isFalse => exact ⟨s₁, hcutaways, h⟩

/-- What each layer keeps, the layers keep. -/
theorem layers_induction {clip : Clip} {stickerPaths : List String} {P : Builder × Pad → Prop}
    (hcutaway : ∀ s s', ∀ layer ∈ clip.cutaways, P s → cutaway clip s.1 s.2 layer = .ok s' → P s')
    (hsticker : ∀ s s', ∀ layer ∈ clip.stickers, ∀ path, P s →
      sticker clip s.1 s.2 layer path = .ok s' → P s')
    {s s' : Builder × Pad} (h : P s) (hlayers : layers clip stickerPaths s.1 s.2 = .ok s') :
    P s' := by
  obtain ⟨s₁, hcutaways, hstickers⟩ := layers_eq_ok hlayers
  have hafter : P s₁ :=
    Outcome.foldlM_induction (fun s layer s' hlayer => hcutaway s s' layer hlayer) h hcutaways
  exact Outcome.foldlM_induction (fun s image s' himage =>
    hsticker s s' image.1 (List.of_mem_zip himage).1 image.2) hafter hstickers

theorem ends_of_layers {clip : Clip} {stickerPaths : List String} {b' : Builder} {pad' : Pad}
    (h : b.Ends .video media pad) (hlayers : layers clip stickerPaths b pad = .ok (b', pad')) :
    b'.Ends .video media pad' := by
  let P (s : Builder × Pad) : Prop := s.1.Ends .video media s.2
  have hafter : P (b', pad') :=
    layers_induction (P := P) (s := (b, pad)) ?cutaway ?sticker h hlayers
  case cutaway =>
    intro s s' layer _ hs hcutaway
    obtain ⟨rect, hrect, -⟩ := bind_eq_ok_iff.mp hcutaway
    obtain ⟨_, _, heq, hends⟩ :=
      cutaway_ends clip layer hs ⟨rect, Outcome.ofOption_eq_ok_iff.mp hrect⟩
    cases heq.symm.trans hcutaway
    exact hends
  case sticker =>
    intro s s' layer _ path hs hsticker
    obtain ⟨rect, hrect, -⟩ := bind_eq_ok_iff.mp hsticker
    obtain ⟨_, _, heq, hends⟩ :=
      sticker_ends clip layer path hs ⟨rect, Outcome.ofOption_eq_ok_iff.mp hrect⟩
    cases heq.symm.trans hsticker
    exact hends
  exact hafter

/-- With too few or too many images there is no picture, and the fault says so. -/
theorem layers_of_ne {clip : Clip} (hclip : Placeable clip) {stickerPaths : List String}
    (hcount : stickerPaths.length ≠ clip.stickers.length) (h : b.Ends .video media pad) :
    layers clip stickerPaths b pad =
      .fail (.graph (imageCountText clip.stickers.length stickerPaths.length)) := by
  obtain ⟨b₁, pad₁, hcutaways, -⟩ := Ends.foldlM
    (fun s (layer : ClipCutaway) => cutaway clip s.1 s.2 layer) clip.cutaways
    (fun b pad h layer hlayer => cutaway_ends clip layer h (hclip.cutaways layer hlayer)) h
  simp only [layers, hcutaways, bind, Except.bind, if_pos hcount]

/-! ## The whole picture -/

/-- The picture up to its layers. -/
def layered (clip : Clip) (probe : Probe) (subjects : List Region) (assets : Assets) :
    Outcome (Builder × Pad) := do
  let (b, source) ← (Builder.new clip.sourceInput).take .video 0
  let (b, pad) ← Outcome.ofOption (frame clip probe subjects b source)
  let (b, pad) := tempo clip b pad
  let (b, pad) := motion clip assets.autoZoomMax b pad
  layers clip assets.stickerPaths b pad

/-- What comes after the layers. -/
def dressed (clip : Clip) (assets : Assets) (s : Builder × Pad) : Outcome (Builder × Pad) :=
  let graded := color clip s.1 s.2
  let captioned := subtitles assets graded.1 graded.2
  watermark clip captioned.1 captioned.2

theorem build_eq (clip : Clip) (probe : Probe) (subjects : List Region) (assets : Assets) :
    build clip probe subjects assets = (do
      let s ← layered clip probe subjects assets
      let s ← dressed clip assets s
      return s.1.finish (some s.2) none) := by
  simp [build, layered, dressed, bind_assoc]

theorem ends_of_layered {clip : Clip} {probe : Probe} {subjects : List Region} {assets : Assets}
    {s : Builder × Pad} (h : layered clip probe subjects assets = .ok s) :
    s.1.Ends .video clip.sourceInput s.2 := by
  obtain ⟨⟨b₀, source⟩, htake, h⟩ := bind_eq_ok_iff.mp h
  obtain ⟨⟨b₁, framed⟩, hframe, hlayers⟩ := bind_eq_ok_iff.mp h
  obtain ⟨_, _, heq, htrack⟩ := (Track.new .video clip.sourceInput).take 0
    (by simp [Builder.new]) (by simp [Builder.new])
  cases heq.symm.trans htake
  have hends := ends_of_frame htrack (Outcome.ofOption_eq_ok_iff.mp hframe)
  exact ends_of_layers (motion_ends clip _ (tempo_ends clip hends)) hlayers

theorem dressed_ends (clip : Clip) (assets : Assets) {media : MediaInput} {s : Builder × Pad}
    (h : s.1.Ends .video media s.2) :
    ∃ t, dressed clip assets s = .ok t ∧ t.1.Ends .video media t.2 := by
  obtain ⟨b, pad, hmark, hends⟩ :=
    watermark_ends clip (subtitles_ends assets (color_ends clip h))
  exact ⟨(b, pad), hmark, hends⟩

/-- Every picture is the end of a track. -/
theorem ends_of_build {clip : Clip} {probe : Probe} {subjects : List Region} {assets : Assets}
    {g : Graph} (h : build clip probe subjects assets = .ok g) :
    ∃ (b : Builder) (pad : Pad), g = b.finish (some pad) none ∧
      b.Ends .video clip.sourceInput pad := by
  rw [build_eq] at h
  obtain ⟨s, hlayered, h⟩ := bind_eq_ok_iff.mp h
  obtain ⟨t, hdressed, h⟩ := bind_eq_ok_iff.mp h
  obtain ⟨_, heq, hends⟩ := dressed_ends clip assets (ends_of_layered hlayered)
  cases heq.symm.trans hdressed
  cases h
  exact ⟨_, _, rfl, hends⟩

theorem build_ends {clip : Clip} (hclip : Placeable clip) (probe : Probe)
    {subjects : List Region} (hsubjects : subjects.length < 2147483648) {assets : Assets} :
    (assets.stickerPaths.length = clip.stickers.length →
      ∃ (b : Builder) (pad : Pad),
        build clip probe subjects assets = .ok (b.finish (some pad) none) ∧
          b.Ends .video clip.sourceInput pad) ∧
    (assets.stickerPaths.length ≠ clip.stickers.length →
      build clip probe subjects assets =
        .fail (.graph (imageCountText clip.stickers.length assets.stickerPaths.length))) := by
  obtain ⟨b₀, source, hsource, htrack⟩ := (Track.new .video clip.sourceInput).take 0
    (by simp [Builder.new]) (by simp [Builder.new])
  obtain ⟨b₁, pad₁, hframe, hends⟩ := frame_ends clip probe hsubjects htrack
  have hmotion := motion_ends clip assets.autoZoomMax (tempo_ends clip hends)
  constructor
  · intro hcount
    obtain ⟨b₂, pad₂, hlayers, hends⟩ := layers_ends hclip hcount hmotion
    obtain ⟨b₃, pad₃, hmark, hends⟩ :=
      watermark_ends clip (subtitles_ends assets (color_ends clip hends))
    refine ⟨b₃, pad₃, ?_, hends⟩
    simp [build, hsource, hframe, hlayers, hmark, Outcome.ofOption, bind, Except.bind, pure,
      Except.pure]
  · intro hcount
    have hlayers := layers_of_ne hclip hcount hmotion
    simp [build, hsource, hframe, hlayers, Outcome.ofOption, Outcome.fail, bind, Except.bind]

end Montage.Video
