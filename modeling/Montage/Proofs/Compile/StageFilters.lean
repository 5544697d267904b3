import Montage.Proofs.Compile.Stages
import Montage.Proofs.Compile.Voices

/-! # The filters of a stage

What a stage does to its stream stands in the filters of its nodes. The tempo and the zoom of the
picture have a node each, unless they change nothing, and so has the sound of the source. -/

namespace Montage

open Montage.Filter (withArgs)

/-- The filters of a stage among some nodes, in order. -/
def Node.stageFilters (nodes : List Node) (stage : Stage) : List Filter :=
  (nodes.filter fun n => n.stage = stage).flatMap (·.filters)

/-- The filters of a stage, in order. -/
def Graph.stageFilters (g : Graph) (stage : Stage) : List Filter := Node.stageFilters g.nodes stage

namespace Node

theorem stageFilters_append (nodes nodes' : List Node) (stage : Stage) :
    stageFilters (nodes ++ nodes') stage =
      stageFilters nodes stage ++ stageFilters nodes' stage := by
  rw [stageFilters, List.filter_append, List.flatMap_append, ← stageFilters, ← stageFilters]

/-- Nodes of other stages have no filters of this one. -/
theorem stageFilters_eq_nil {nodes : List Node} {stages : List Stage}
    (h : ∀ n ∈ nodes, n.stage ∈ stages) {stage : Stage} (hstage : stage ∉ stages) :
    stageFilters nodes stage = [] := by
  have hnone : (nodes.filter fun n => n.stage = stage) = [] := by
    rw [List.filter_eq_nil_iff]
    intro n hn heq
    exact hstage (of_decide_eq_true heq ▸ h n hn)
  rw [stageFilters, hnone, List.flatMap_nil]

theorem stageFilters_singleton (n : Node) : stageFilters [n] n.stage = n.filters := by
  simp [stageFilters]

/-- Renumbering keeps the filters. -/
theorem stageFilters_shift (base offset : Nat) (nodes : List Node) (stage : Stage) :
    stageFilters (nodes.map (Program.shiftNode base offset)) stage = stageFilters nodes stage := by
  rw [stageFilters, List.filter_map, List.flatMap_map]
  rfl

end Node

/-! ## The picture -/

namespace Video

/-- The filters that change the tempo of the picture. -/
def tempoFilters (clip : Clip) : List Filter :=
  if unitStep.lt (clip.speed - 1).abs then
    [withArgs "setpts" s!"(PTS-STARTPTS)/{Decimal.fixed 6 clip.speed}"]
  else []

/-- The filters that zoom the picture. -/
def motionFilters (clip : Clip) (autoZoomMax : Binary64) : List Filter :=
  match Zoom.expr? clip autoZoomMax with
  | some zoom => Zoom.filters zoom.text clip.canvas.width clip.canvas.height
  | none => []

/-- The stages that steps after the zoom have. -/
def lateStages : List Stage := [.overlay, .color, .subtitle, .watermark]

variable {clip : Clip} {assets : Assets}

theorem tempo_nodes (clip : Clip) (b : Builder) (pad : Pad) :
    ∃ nodes, (tempo clip b pad).1.nodes = b.nodes ++ nodes ∧ (∀ n ∈ nodes, n.stage ∈ [.tempo]) ∧
      Node.stageFilters nodes .tempo = tempoFilters clip := by
  rw [tempo, tempoFilters]
  split
  · exact ⟨_, rfl, List.forall_mem_singleton.mpr (by simp), Node.stageFilters_singleton _⟩
  · exact ⟨[], (List.append_nil _).symm, by simp, rfl⟩

theorem motion_nodes (clip : Clip) (autoZoomMax : Binary64) (b : Builder) (pad : Pad) :
    ∃ nodes, (motion clip autoZoomMax b pad).1.nodes = b.nodes ++ nodes ∧
      (∀ n ∈ nodes, n.stage ∈ [.motion]) ∧
      Node.stageFilters nodes .motion = motionFilters clip autoZoomMax := by
  rw [motion, motionFilters]
  cases Zoom.expr? clip autoZoomMax with
  | some zoom =>
      exact ⟨_, rfl, List.forall_mem_singleton.mpr (by simp), Node.stageFilters_singleton _⟩
  | none => exact ⟨[], (List.append_nil _).symm, by simp, rfl⟩

theorem Draws.late_nodes {b b' : Builder} {pad pad' : Pad} {steps : List Step}
    (h : Draws b pad steps b' pad') (hlate : ∀ step ∈ steps, step.stage ∈ lateStages) :
    ∃ nodes, b'.nodes = b.nodes ++ nodes ∧ ∀ n ∈ nodes, n.stage ∈ lateStages := by
  obtain ⟨nodes, hnodes, hdrawn⟩ := h.nodes
  refine ⟨nodes, hnodes, fun n hn => ?_⟩
  obtain ⟨step, hstep, heq⟩ := List.mem_map.mp (hdrawn.stage_mem hn)
  exact heq ▸ hlate step hstep

/-- The steps after the zoom. -/
def lateSteps (clip : Clip) (assets : Assets) : List Step :=
  (clip.cutaways.map (fun layer => .overlay .overlay (cutawayInput layer) layer.window) ++
      (clip.stickers.zip assets.stickerPaths).map fun image =>
        .overlay .overlay (.loopedImage image.2 clip.durationMs) image.1.window) ++
    Step.optional (!clip.grade.isNeutral) .color ++
    Step.optional assets.subtitlePath.isSome .subtitle ++
    clip.watermark.toList.map (fun mark => .overlay .watermark { path := mark.path } none)

theorem stage_of_lateSteps (clip : Clip) (assets : Assets) :
    ∀ step ∈ lateSteps clip assets, step.stage ∈ lateStages := by
  have hoptional (present : Bool) {stage : Stage} (h : stage ∈ lateStages) :
      ∀ step ∈ Step.optional present stage, step.stage ∈ lateStages := by
    cases present with
    | true => exact List.forall_mem_singleton.mpr h
    | false => simp [Step.optional]
  simp only [lateSteps, List.forall_mem_append, List.forall_mem_map]
  refine ⟨⟨⟨⟨fun _ _ => ?_, fun _ _ => ?_⟩, hoptional _ ?_⟩, hoptional _ ?_⟩, fun _ _ => ?_⟩ <;>
    simp [Step.stage, lateStages]

/-- A picture is its frames, the change of tempo, the zoom, and what comes over it. -/
theorem nodes_of_build {probe : Probe} {subjects : List Region} {g : Graph}
    (h : build clip probe subjects assets = .ok g) :
    ∃ frames tempos motions late, g.nodes = frames ++ tempos ++ motions ++ late ∧
      (∀ n ∈ frames, n.stage ∈ [.frame]) ∧ (∀ n ∈ tempos, n.stage ∈ [.tempo]) ∧
      (∀ n ∈ motions, n.stage ∈ [.motion]) ∧ (∀ n ∈ late, n.stage ∈ lateStages) ∧
      Node.stageFilters tempos .tempo = tempoFilters clip ∧
      Node.stageFilters motions .motion = motionFilters clip assets.autoZoomMax := by
  obtain ⟨⟨b₀, source⟩, htake, h⟩ := bind_eq_ok_iff.mp h
  obtain ⟨⟨b₁, framed⟩, hframe, h⟩ := bind_eq_ok_iff.mp h
  obtain ⟨⟨b₂, pad₂⟩, hlayers, h⟩ := bind_eq_ok_iff.mp h
  obtain ⟨⟨b₃, out⟩, hmark, h⟩ := bind_eq_ok_iff.mp h
  cases h
  obtain ⟨-, hnodes₀, rfl⟩ := Builder.take_eq_ok htake
  obtain ⟨-, frames, hnodes₁, hframed⟩ := frame_eq_some (Outcome.ofOption_eq_ok_iff.mp hframe)
  obtain ⟨tempos, htempos, htempo, htempoFilters⟩ := tempo_nodes clip b₁ framed
  let zoomed := motion clip assets.autoZoomMax (tempo clip b₁ framed).1 (tempo clip b₁ framed).2
  obtain ⟨motions, hmotions, hmotion, hmotionFilters⟩ :=
    motion_nodes clip assets.autoZoomMax (tempo clip b₁ framed).1 (tempo clip b₁ framed).2
  have hdraws : Draws zoomed.1 zoomed.2 (lateSteps clip assets) b₃ out :=
    (((draws_layers hlayers).trans (draws_color clip b₂ pad₂)).trans
      (draws_subtitles assets _ _)).trans (draws_watermark hmark)
  obtain ⟨late, hlate, hstages⟩ := hdraws.late_nodes (stage_of_lateSteps clip assets)
  refine ⟨frames, tempos, motions, late, ?_,
    fun n hn => List.mem_singleton.mpr (hframed.stage_eq n hn), htempo, hmotion, hstages,
    htempoFilters, hmotionFilters⟩
  calc b₃.nodes = b₀.nodes ++ frames ++ tempos ++ motions ++ late := by
        rw [hlate, hmotions, htempos, hnodes₁]
    _ = frames ++ tempos ++ motions ++ late := by
        rw [hnodes₀]
        rfl

/-- The filters of the stages that work on the whole picture; the sound has none. -/
theorem stageFilters_of_build {probe : Probe} {subjects : List Region} {g : Graph}
    (h : build clip probe subjects assets = .ok g) :
    g.stageFilters .tempo = tempoFilters clip ∧
      g.stageFilters .motion = motionFilters clip assets.autoZoomMax ∧
      g.stageFilters .primary = [] := by
  obtain ⟨frames, tempos, motions, late, hnodes, hframe, htempo, hmotion, hlate, htempos,
    hmotions⟩ := nodes_of_build h
  simp only [Graph.stageFilters, hnodes, Node.stageFilters_append]
  refine ⟨?_, ?_, ?_⟩
  · rw [Node.stageFilters_eq_nil hframe (by decide), htempos,
      Node.stageFilters_eq_nil hmotion (by decide), Node.stageFilters_eq_nil hlate (by decide)]
    simp
  · rw [Node.stageFilters_eq_nil hframe (by decide), Node.stageFilters_eq_nil htempo (by decide),
      hmotions, Node.stageFilters_eq_nil hlate (by decide)]
    simp
  · rw [Node.stageFilters_eq_nil hframe (by decide), Node.stageFilters_eq_nil htempo (by decide),
      Node.stageFilters_eq_nil hmotion (by decide), Node.stageFilters_eq_nil hlate (by decide)]
    rfl

end Video

/-! ## The sound -/

namespace Audio

/-- The filters of the source's sound, or silence. -/
def primaryFilters (clip : Clip) (probe : Probe) : List Filter :=
  if probe.hasAudio then
    [withArgs "volume" (Decimal.fixed 3 (if clip.mute then 0 else clip.volume))] ++
      (Tempo.factors clip.speed).map (fun f => withArgs "atempo" (Decimal.fixed 6 f)) ++
      [sampleFormat]
  else silence clip

/-- The stages of the sound after the first one. -/
def laterStages : List Stage := [.enhance, .music, .mix, .sfx]

theorem primary_nodes {clip : Clip} {probe : Probe} {media : MediaInput} {b : Builder} {pad : Pad}
    (h : primary clip probe (Builder.new media) = .ok (b, pad)) :
    (∀ n ∈ b.nodes, n.stage ∈ [.primary]) ∧
      Node.stageFilters b.nodes .primary = primaryFilters clip probe := by
  rw [primary] at h
  split at h
  case isTrue haudio =>
    rw [primaryFilters, if_pos haudio]
    obtain ⟨⟨b₁, source⟩, htake, h⟩ := bind_eq_ok_iff.mp h
    obtain ⟨-, -, rfl, rfl⟩ := Builder.take_eq_ok_iff.mp htake
    cases h
    exact ⟨List.forall_mem_singleton.mpr (by simp), Node.stageFilters_singleton _⟩
  case isFalse haudio =>
    rw [primaryFilters, if_neg haudio]
    cases h
    exact ⟨List.forall_mem_singleton.mpr (by simp), Node.stageFilters_singleton _⟩

/-- The filters of the source's sound are those of the first node. -/
theorem stageFilters_of_build {clip : Clip} {probe : Probe} {soundPath : Option String} {g : Graph}
    (h : build clip probe soundPath = .ok g) :
    g.stageFilters .primary = primaryFilters clip probe ∧
      ∀ n ∈ g.nodes, n.stage ∈ .primary :: laterStages := by
  obtain ⟨⟨b₁, pad₁⟩, hprimary, h⟩ := bind_eq_ok_iff.mp h
  obtain ⟨⟨b₂, pad₂⟩, hmusic, h⟩ := bind_eq_ok_iff.mp h
  obtain ⟨⟨b₃, pad₃⟩, heffects, h⟩ := bind_eq_ok_iff.mp h
  cases h
  obtain ⟨hfirst, hfilters⟩ := primary_nodes hprimary
  obtain ⟨enhancing, henhance, henhanced⟩ := enhance_adds clip b₁ pad₁
  obtain ⟨scoring, scored, hscore, hscored⟩ := addMusic_adds hmusic
  obtain ⟨sounding, sounded, hsound, hsounded⟩ := addEffects_adds heffects
  have hnodes : b₃.nodes = b₁.nodes ++ (enhancing ++ scoring ++ sounding) :=
    ((henhance.trans hscore).trans hsound).nodes
  have hlater : ∀ n ∈ enhancing ++ scoring ++ sounding, n.stage ∈ laterStages := by
    simp only [List.forall_mem_append]
    refine ⟨⟨fun n hn => ?_, fun n hn => ?_⟩, fun n hn => ?_⟩
    · simp [henhanced n hn, laterStages]
    · rcases hscored.stage_mem.1 n hn with heq | heq <;> simp [heq, laterStages]
    · simp [hsounded.stage_mem.1 n hn, laterStages]
  constructor
  · change Node.stageFilters b₃.nodes .primary = _
    rw [hnodes, Node.stageFilters_append, hfilters, Node.stageFilters_eq_nil hlater (by decide),
      List.append_nil]
  · change ∀ n ∈ b₃.nodes, _
    rw [hnodes, List.forall_mem_append]
    refine ⟨fun n hn => ?_, fun n hn => List.mem_cons_of_mem _ (hlater n hn)⟩
    exact List.mem_cons.mpr (.inl (List.mem_singleton.mp (hfirst n hn)))

end Audio

/-! ## The program -/

/-- The filters of a program that change its tempo and its zoom, and those of the source's sound. -/
theorem Program.stageFilters_of_compile {clip : Clip} {probe : Probe} {subjects : List Region}
    {assets : Assets} {p : Program} (h : compile clip probe subjects assets = .ok p) :
    p.graph.stageFilters .tempo = Video.tempoFilters clip ∧
      p.graph.stageFilters .motion = Video.motionFilters clip assets.autoZoomMax ∧
      p.graph.stageFilters .primary = Audio.primaryFilters clip probe := by
  obtain ⟨video, audio, hvideo, haudio, hunion⟩ := compile_eq_ok h
  obtain ⟨htempo, hmotion, hnone⟩ := Video.stageFilters_of_build hvideo
  obtain ⟨hprimary, hstages⟩ := Audio.stageFilters_of_build haudio
  have hsplit (stage : Stage) : p.graph.stageFilters stage =
      video.stageFilters stage ++ audio.stageFilters stage := by
    rw [hunion, Graph.stageFilters, union, Node.stageFilters_append, Node.stageFilters_shift]
    rfl
  have hsilent {stage : Stage} (hstage : stage ∉ .primary :: Audio.laterStages) :
      audio.stageFilters stage = [] := Node.stageFilters_eq_nil hstages hstage
  refine ⟨?_, ?_, ?_⟩
  · rw [hsplit, htempo, hsilent (by decide), List.append_nil]
  · rw [hsplit, hmotion, hsilent (by decide), List.append_nil]
  · rw [hsplit, hnone, hprimary, List.nil_append]

end Montage
