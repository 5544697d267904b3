import Montage.Proofs.Compile.Program

/-! # The stages of the picture

After the framing, one pad is carried from stage to stage in a fixed order, and every stage that a
clip does not ask for is left out. A layer has two nodes: one prepares its own input, the other one
puts it over the running picture. -/

namespace Montage

/-- A node of a stage that reads some pads and declares one. -/
structure Node.Makes (n : Node) (stage : Stage) (inputs : List Pad) (output : Pad) : Prop where
  stage : n.stage = stage
  inputs : n.inputs = inputs
  outputs : n.outputs = [output]

theorem Node.Linked.declares_nodup {inputCount : Nat} {nodes : List Node}
    (h : Node.Linked inputCount nodes) : (Node.declares nodes).Nodup := by
  -- declared pads are links, so that their labels tell them apart
  refine Pad.nodup_of_once ?_ h.declared_once
  have hnone : Pad.sources (Node.declares nodes) = [] := by
    rw [Pad.sources, List.filterMap_eq_nil_iff]
    intro pad hpad
    obtain ⟨n, hn, hout⟩ := List.mem_flatMap.mp hpad
    obtain ⟨l, k, rfl⟩ := h.labelled n hn pad hout
    rfl
  rw [hnone]
  exact List.nodup_nil

/-- A stream that is taken is a pad of its input, and nothing else changes in the graph. -/
theorem Builder.take_eq_ok {b b' : Builder} {kind : Stream} {input : Nat} {pad : Pad}
    (h : b.take kind input = .ok (b', pad)) :
    b'.inputs = b.inputs ∧ b'.nodes = b.nodes ∧ pad = .source input kind := by
  obtain ⟨-, -, rfl, rfl⟩ := take_eq_ok_iff.mp h
  exact ⟨rfl, rfl, rfl⟩

namespace Video

open Montage.Filter (withArgs)
open List (Forall₂)

/-! ## What a clip asks for -/

/-- A step after the framing: a stage of one node, or a further input that is put over the picture,
in its window if it has one. -/
inductive Step where
  | filter (stage : Stage)
  | overlay (stage : Stage) (media : MediaInput) (window : Option Window)

def Step.media? : Step → Option MediaInput
  | filter _ => none
  | overlay _ media _ => some media

def Step.stage : Step → Stage
  | filter stage => stage
  | overlay stage _ _ => stage

/-- A stage of one node, if it is there. -/
def Step.optional (present : Bool) (stage : Stage) : List Step :=
  if present then [.filter stage] else []

/-- A cutaway reads its part of its own file. -/
def cutawayInput (layer : ClipCutaway) : MediaInput :=
  .trimmed layer.path layer.offsetMs layer.window.duration

/-- The steps that a clip asks for, in order. -/
def steps (clip : Clip) (assets : Assets) : List Step :=
  Step.optional (unitStep.lt (clip.speed - 1).abs) .tempo ++
    Step.optional (Zoom.expr? clip assets.autoZoomMax).isSome .motion ++
    (clip.cutaways.map (fun layer => .overlay .overlay (cutawayInput layer) layer.window) ++
      (clip.stickers.zip assets.stickerPaths).map fun image =>
        .overlay .overlay (.loopedImage image.2 clip.durationMs) image.1.window) ++
    Step.optional (!clip.grade.isNeutral) .color ++
    Step.optional assets.subtitlePath.isSome .subtitle ++
    clip.watermark.toList.map (fun mark => .overlay .watermark { path := mark.path } none)

/-- The further inputs of a clip: its cutaways, its sticker images and its watermark. -/
def furtherInputs (clip : Clip) (assets : Assets) : List MediaInput :=
  clip.cutaways.map cutawayInput ++
    assets.stickerPaths.map (fun path => .loopedImage path clip.durationMs) ++
    clip.watermark.toList.map fun mark => { path := mark.path }

theorem filterMap_media_optional (present : Bool) (stage : Stage) :
    (Step.optional present stage).filterMap Step.media? = [] := by
  cases present <;> rfl

theorem filterMap_media_steps {clip : Clip} {assets : Assets}
    (hcount : assets.stickerPaths.length = clip.stickers.length) :
    (steps clip assets).filterMap Step.media? = furtherInputs clip assets := by
  have hpaths : assets.stickerPaths.map (fun path => MediaInput.loopedImage path clip.durationMs) =
      (clip.stickers.zip assets.stickerPaths).map fun image =>
        .loopedImage image.2 clip.durationMs := by
    conv_lhs => rw [← List.map_snd_zip hcount.le, List.map_map]
    rfl
  simp only [steps, furtherInputs, List.filterMap_append, filterMap_media_optional,
    List.filterMap_map, List.nil_append, List.append_nil, hpaths]
  simp [Step.media?, Function.comp_def]

/-! ## How it is drawn -/

/-- A layer that is shown in its window only. -/
def Gates (filters : List Filter) (window : Option Window) : Prop :=
  ∀ w ∈ window, ∃ before after,
    filters = [withArgs "overlay" (before ++ enableText w ++ after)]

/-- Nodes that draw some steps one after the other. The first pad is what they start from, the last
one what they end in, and the number is that of the next further input. -/
inductive Drawn : Nat → Pad → List Step → List Node → Pad → Prop where
  | done (next : Nat) (pad : Pad) : Drawn next pad [] [] pad
  | filter {next : Nat} {pad middle out : Pad} {stage : Stage} {steps : List Step} {n : Node}
      {nodes : List Node} (hnode : n.Makes stage [pad] middle)
      (hrest : Drawn next middle steps nodes out) :
      Drawn next pad (.filter stage :: steps) (n :: nodes) out
  | overlay {next : Nat} {pad prepared middle out : Pad} {stage : Stage} {media : MediaInput}
      {window : Option Window} {steps : List Step} {prepare composite : Node} {nodes : List Node}
      (hprepare : prepare.Makes stage [.source next .video] prepared)
      (hcomposite : composite.Makes stage [pad, prepared] middle)
      (hgates : Gates composite.filters window) (hrest : Drawn (next + 1) middle steps nodes out) :
      Drawn next pad (.overlay stage media window :: steps) (prepare :: composite :: nodes) out

theorem Drawn.append {next : Nat} {pad middle out : Pad} {before after : List Step}
    {nodes nodes' : List Node} (h : Drawn next pad before nodes middle)
    (h' : Drawn (next + (before.filterMap Step.media?).length) middle after nodes' out) :
    Drawn next pad (before ++ after) (nodes ++ nodes') out := by
  induction h with
  | done next pad => exact h'
  | filter hnode _ ih => exact .filter hnode (ih h')
  | overlay hprepare hcomposite hgates _ ih =>
      refine .overlay hprepare hcomposite hgates (ih ?_)
      rwa [Nat.add_assoc, Nat.add_comm 1]

/-- A node belongs to one of the steps. -/
theorem Drawn.stage_mem {next : Nat} {pad out : Pad} {steps : List Step} {nodes : List Node}
    (h : Drawn next pad steps nodes out) {n : Node} (hn : n ∈ nodes) :
    n.stage ∈ steps.map Step.stage := by
  induction h with
  | done => cases hn
  | filter hnode _ ih =>
      rcases List.mem_cons.mp hn with rfl | hn
      · exact List.mem_cons.mpr (.inl hnode.stage)
      · exact List.mem_cons_of_mem _ (ih hn)
  | overlay hprepare hcomposite _ _ ih =>
      rcases List.mem_cons.mp hn with rfl | hn
      · exact List.mem_cons.mpr (.inl hprepare.stage)
      · rcases List.mem_cons.mp hn with rfl | hn
        · exact List.mem_cons.mpr (.inl hcomposite.stage)
        · exact List.mem_cons_of_mem _ (ih hn)

/-- The framing: a crop of the source, or a split of it, a crop for each subject and the stack of
them. -/
inductive Framed (clip : Clip) (subjects : List Region) : List Node → Pad → Prop where
  | whole {n : Node} {pad : Pad} (hone : ¬ (clip.subjectFraming ∧ 1 < subjects.length))
      (hcrop : n.Makes .frame [.source 0 .video] pad) (hname : n.hasFilter "crop") :
      Framed clip subjects [n] pad
  | stacked {split stack : Node} {bands : List Node} {pad : Pad}
      (hmany : clip.subjectFraming ∧ 1 < subjects.length)
      (hsplit : split.stage = .frame ∧ split.inputs = [.source 0 .video] ∧ split.hasFilter "split")
      (hbranches : split.outputs.length = subjects.length)
      (hbands : Forall₂ (fun branch n => (∃ band, n.Makes .frame [branch] band) ∧
        n.hasFilter "crop") split.outputs bands)
      (hstack : stack.Makes .frame (Node.declares bands) pad) (hname : stack.hasFilter "vstack") :
      Framed clip subjects (split :: bands ++ [stack]) pad

/-- A graph that frames the source and then draws what the clip asks for. Nothing of the framing is
left open but the pad it ends in. -/
structure Staged (clip : Clip) (subjects : List Region) (assets : Assets) (g : Graph)
    (frames nodes : List Node) (framed out : Pad) : Prop where
  order : g.nodes = frames ++ nodes
  framing : Framed clip subjects frames framed
  loose : ∀ pad ∈ Node.declares frames, pad ∉ Node.reads frames ↔ pad = framed
  drawing : Drawn 1 framed (steps clip assets) nodes out
  picture : g.videoOut = some out
  inputs : g.inputs = clip.sourceInput :: furtherInputs clip assets

/-! ## Steps of the builder -/

/-- A builder that draws some steps more, from one pad to another one. -/
structure Draws (b : Builder) (pad : Pad) (steps : List Step) (b' : Builder) (pad' : Pad) :
    Prop where
  inputs : b'.inputs = b.inputs ++ steps.filterMap Step.media?
  nodes : ∃ nodes, b'.nodes = b.nodes ++ nodes ∧ Drawn b.inputs.length pad steps nodes pad'

namespace Draws

variable {b b' b₁ : Builder} {pad pad' pad₁ : Pad}

theorem refl (b : Builder) (pad : Pad) : Draws b pad [] b pad where
  inputs := by simp
  nodes := ⟨[], by simp, .done _ pad⟩

theorem trans {before after : List Step} (h : Draws b pad before b₁ pad₁)
    (h' : Draws b₁ pad₁ after b' pad') : Draws b pad (before ++ after) b' pad' where
  inputs := by rw [h'.inputs, h.inputs, List.filterMap_append, List.append_assoc]
  nodes := by
    obtain ⟨nodes, hnodes, hdrawn⟩ := h.nodes
    obtain ⟨nodes', hnodes', hdrawn'⟩ := h'.nodes
    refine ⟨nodes ++ nodes', by rw [hnodes', hnodes, List.append_assoc], hdrawn.append ?_⟩
    rwa [h.inputs, List.length_append] at hdrawn'

theorem node (b : Builder) (pad : Pad) (stage : Stage) (filters : List Filter) :
    Draws b pad [.filter stage] (b.node .video stage [pad] filters).1
      (b.node .video stage [pad] filters).2 where
  inputs := by simp [Builder.node, Step.media?]
  nodes := ⟨_, rfl, .filter ⟨rfl, rfl, rfl⟩ (.done _ _)⟩

end Draws

/-- A builder that prepares the stream of a further input and puts it over the picture. -/
structure Composes (b : Builder) (media : MediaInput) (stage : Stage)
    (prepare composite : List Filter) (pad : Pad) (b' : Builder) (pad' : Pad) : Prop where
  inputs : b'.inputs = b.inputs ++ [media]
  nodes : ∃ prepareId compositeId prepared, b'.nodes = b.nodes ++
    [⟨prepareId, stage, prepare, [.source b.inputs.length .video], [prepared]⟩,
      ⟨compositeId, stage, composite, [pad, prepared], [pad']⟩]

namespace Composes

variable {b b₁ b' : Builder} {pad pad' stream : Pad} {media : MediaInput} {stage : Stage}
  {prepare composite : List Filter}

theorem of_take
    (htake : (b.addInput media).1.take .video b.inputs.length = .ok (b₁, stream)) :
    let (b₂, prepared) := b₁.node .video stage [stream] prepare
    Composes b media stage prepare composite pad
      (b₂.node .video stage [pad, prepared] composite).1
      (b₂.node .video stage [pad, prepared] composite).2 := by
  obtain ⟨hinputs, hnodes, rfl⟩ := Builder.take_eq_ok htake
  let ready := b₁.node .video stage [.source b.inputs.length .video] prepare
  refine ⟨?_, b₁.nodes.length, ready.1.nodes.length, ready.2, ?_⟩
  · simp [Builder.node, hinputs, Builder.addInput]
  · simp [ready, Builder.node, hnodes, Builder.addInput]

theorem draws (h : Composes b media stage prepare composite pad b' pad')
    {window : Option Window} (hgates : Gates composite window) :
    Draws b pad [.overlay stage media window] b' pad' := by
  obtain ⟨hinputs, _, _, _, hnodes⟩ := h
  exact ⟨hinputs, _, hnodes, .overlay ⟨rfl, rfl, rfl⟩ ⟨rfl, rfl, rfl⟩ hgates (.done _ _)⟩

end Composes

/-! ## Stages of the picture -/

section Stages

variable {b b' : Builder} {pad pad' : Pad}

theorem draws_tempo (clip : Clip) (b : Builder) (pad : Pad) :
    Draws b pad (Step.optional (unitStep.lt (clip.speed - 1).abs) .tempo) (tempo clip b pad).1
      (tempo clip b pad).2 := by
  rw [tempo]
  cases unitStep.lt (clip.speed - 1).abs with
  | true => exact .node b pad .tempo _
  | false => exact .refl b pad

theorem draws_motion (clip : Clip) (autoZoomMax : Binary64) (b : Builder) (pad : Pad) :
    Draws b pad (Step.optional (Zoom.expr? clip autoZoomMax).isSome .motion)
      (motion clip autoZoomMax b pad).1 (motion clip autoZoomMax b pad).2 := by
  rw [motion]
  cases Zoom.expr? clip autoZoomMax with
  | none => exact .refl b pad
  | some zoom => exact .node b pad .motion _

theorem draws_color (clip : Clip) (b : Builder) (pad : Pad) :
    Draws b pad (Step.optional (!clip.grade.isNeutral) .color) (color clip b pad).1
      (color clip b pad).2 := by
  rw [color, gradeFilters?]
  cases clip.grade.isNeutral with
  | true => exact .refl b pad
  | false => exact .node b pad .color _

theorem draws_subtitles (assets : Assets) (b : Builder) (pad : Pad) :
    Draws b pad (Step.optional assets.subtitlePath.isSome .subtitle) (subtitles assets b pad).1
      (subtitles assets b pad).2 := by
  rw [subtitles]
  cases assets.subtitlePath with
  | none => exact .refl b pad
  | some path => exact .node b pad .subtitle _

theorem composes_of_cutaway {clip : Clip} {layer : ClipCutaway}
    (h : cutaway clip b pad layer = .ok (b', pad')) :
    ∃ r : PixelRect, Composes b (cutawayInput layer) .overlay (cutawayFilters layer r)
      [withArgs "overlay" s!"x={r.x}:y={r.y}:{enableText layer.window}:eof_action=pass"]
      pad b' pad' := by
  obtain ⟨r, -, h⟩ := bind_eq_ok_iff.mp h
  obtain ⟨⟨b₁, stream⟩, htake, h⟩ := bind_eq_ok_iff.mp h
  cases h
  exact ⟨r, .of_take htake⟩

/-- The filters that prepare a sticker. -/
def stickerFilters (r : PixelRect) : List Filter :=
  [withArgs "scale" s!"{r.width}:{r.height}:force_original_aspect_ratio=decrease",
   withArgs "format" "rgba"]

theorem composes_of_sticker {clip : Clip} {layer : ClipSticker} {path : String}
    (h : sticker clip b pad layer path = .ok (b', pad')) :
    ∃ r : PixelRect, Composes b (.loopedImage path clip.durationMs) .overlay (stickerFilters r)
      [withArgs "overlay"
        s!"x='{r.x}+({r.width}-w)/2':y='{r.y}+({r.height}-h)/2':{enableText layer.window}"]
      pad b' pad' := by
  obtain ⟨r, -, h⟩ := bind_eq_ok_iff.mp h
  obtain ⟨⟨b₁, stream⟩, htake, h⟩ := bind_eq_ok_iff.mp h
  cases h
  exact ⟨r, .of_take htake⟩

theorem draws_cutaway {clip : Clip} {layer : ClipCutaway}
    (h : cutaway clip b pad layer = .ok (b', pad')) :
    Draws b pad [.overlay .overlay (cutawayInput layer) layer.window] b' pad' := by
  obtain ⟨r, hcomposes⟩ := composes_of_cutaway h
  refine hcomposes.draws ?_
  rintro w hw
  cases hw
  exact ⟨_, _, rfl⟩

theorem draws_sticker {clip : Clip} {layer : ClipSticker} {path : String}
    (h : sticker clip b pad layer path = .ok (b', pad')) :
    Draws b pad [.overlay .overlay (.loopedImage path clip.durationMs) layer.window] b' pad' := by
  obtain ⟨r, hcomposes⟩ := composes_of_sticker h
  refine hcomposes.draws ?_
  rintro w hw
  cases hw
  exact ⟨_, "", by rw [String.append_empty]; rfl⟩

theorem composes_of_watermark {clip : Clip} {mark : Watermark} (hmark : clip.watermark = some mark)
    (h : watermark clip b pad = .ok (b', pad')) :
    ∃ width margin : Nat, Composes b { path := mark.path } .watermark
      [withArgs "scale" s!"{width}:-2", withArgs "format" "rgba",
        withArgs "colorchannelmixer" s!"aa={Decimal.fixed 3 mark.opacity}"]
      [withArgs "overlay" (cornerText mark.corner margin)] pad b' pad' := by
  rw [watermark, hmark] at h
  obtain ⟨⟨b₁, stream⟩, htake, h⟩ := bind_eq_ok_iff.mp h
  cases h
  exact ⟨_, _, .of_take htake⟩

theorem draws_watermark {clip : Clip} (h : watermark clip b pad = .ok (b', pad')) :
    Draws b pad (clip.watermark.toList.map fun mark =>
      .overlay .watermark { path := mark.path } none) b' pad' := by
  cases hmark : clip.watermark with
  | none =>
      rw [watermark, hmark] at h
      cases h
      exact .refl _ _
  | some mark =>
      obtain ⟨_, _, hcomposes⟩ := composes_of_watermark hmark h
      exact hcomposes.draws nofun

theorem draws_layers {clip : Clip} {stickerPaths : List String}
    (h : layers clip stickerPaths b pad = .ok (b', pad')) :
    Draws b pad (clip.cutaways.map (fun layer =>
        .overlay .overlay (cutawayInput layer) layer.window) ++
      (clip.stickers.zip stickerPaths).map fun image =>
        .overlay .overlay (.loopedImage image.2 clip.durationMs) image.1.window) b' pad' := by
  obtain ⟨s₁, hcutaways, hstickers⟩ := layers_eq_ok h
  let Adds (s : Builder × Pad) (steps : List Step) (s' : Builder × Pad) : Prop :=
    Draws s.1 s.2 steps s'.1 s'.2
  have hrefl (s : Builder × Pad) : Adds s [] s := .refl s.1 s.2
  refine Draws.trans (Outcome.foldlM_adds Adds hrefl .trans _ ?cutaway hcutaways)
    (Outcome.foldlM_adds Adds hrefl .trans _ ?sticker hstickers)
  case cutaway => exact fun s layer s' h => draws_cutaway h
  case sticker => exact fun s image s' h => draws_sticker h

end Stages

/-! ## Framing -/

/-- A node that cuts the window of a subject out of a branch and scales it to the size of a band. -/
def Crops (probe : Probe) (width : Nat) (part : Pad × Region × Nat) (n : Node) : Prop :=
  ∃ window band, subjectWindow? probe part.2.1 width part.2.2 = some window ∧
    n.Makes .frame [part.1] band ∧ n.filters = cropScale window width part.2.2

/-- Each branch is cropped by one node, in order. -/
theorem bands_eq_some {probe : Probe} {width : Nat} {b b' : Builder} {pads : List Pad}
    {branches : List (Pad × Region × Nat)} (h : bands probe width b branches = some (b', pads)) :
    b'.inputs = b.inputs ∧ ∃ nodes, b'.nodes = b.nodes ++ nodes ∧ pads = Node.declares nodes ∧
      Forall₂ (Crops probe width) branches nodes := by
  induction branches generalizing b pads with
  | nil =>
      cases h
      exact ⟨rfl, [], by simp, rfl, .nil⟩
  | cons head rest ih =>
      obtain ⟨branch, subject, height⟩ := head
      obtain ⟨window, hwindow, h⟩ := Option.bind_eq_some_iff.mp h
      obtain ⟨⟨b₁, pads₁⟩, hrest, h⟩ := Option.bind_eq_some_iff.mp h
      cases h
      obtain ⟨hinputs, nodes, hnodes, rfl, hbands⟩ := ih hrest
      let crop : Node := ⟨b.nodes.length, .frame, cropScale window width height, [branch],
        [(b.node .video .frame [branch] (cropScale window width height)).2]⟩
      refine ⟨?_, crop :: nodes, ?_, rfl, .cons ⟨window, _, hwindow, ⟨rfl, rfl, rfl⟩, rfl⟩ hbands⟩
      · simp [hinputs]
      · simp [hnodes, Builder.node, crop]

/-- Nodes that show each subject in a band of its own: a split of the source, a crop for each
subject, in their order, and the stack of the bands. -/
structure Stacks (clip : Clip) (probe : Probe) (subjects : List Region) (source : Pad)
    (heights : List Nat) (split : Node) (bands : List Node) (stack : Node) (pad : Pad) : Prop where
  splits : split.stage = .frame ∧ split.inputs = [source] ∧
    split.filters = [withArgs "split" (toString subjects.length)]
  branches : split.outputs.length = subjects.length
  counted : bandHeights? clip.canvas.height subjects.length = some heights
  crops : Forall₂ (Crops probe clip.canvas.width) (split.outputs.zip (subjects.zip heights)) bands
  reads : stack.Makes .frame (Node.declares bands) pad
  joins : stack.filters = [withArgs "vstack" s!"inputs={subjects.length}"]

/-- Several subjects are framed by such nodes. -/
theorem stacks_of_frame {clip : Clip} {probe : Probe} {subjects : List Region} {b b' : Builder}
    {source pad : Pad} (hmany : clip.subjectFraming ∧ 1 < subjects.length)
    (h : frame clip probe subjects b source = some (b', pad)) :
    b'.inputs = b.inputs ∧ ∃ heights split bands stack,
      b'.nodes = b.nodes ++ (split :: bands ++ [stack]) ∧
        Stacks clip probe subjects source heights split bands stack pad := by
  rw [frame] at h
  dsimp only at h
  rw [if_pos hmany] at h
  obtain ⟨heights, hheights, h⟩ := Option.bind_eq_some_iff.mp h
  obtain ⟨⟨b₁, pads⟩, hbands, h⟩ := Option.bind_eq_some_iff.mp h
  cases h
  obtain ⟨hinputs, nodes, hnodes, rfl, hall⟩ := bands_eq_some hbands
  let split : Node := ⟨b.nodes.length, .frame, [withArgs "split" (toString subjects.length)],
    [source], (b.fanOut .video .frame [source]
      [withArgs "split" (toString subjects.length)] subjects.length).2⟩
  have hcount : (b.fanOut .video .frame [source] [withArgs "split" (toString subjects.length)]
      subjects.length).2.length = subjects.length :=
    Builder.length_fanOut
  have hsplit : b₁.nodes = b.nodes ++ split :: nodes := by
    rw [hnodes, Builder.fanOut_nodes, List.append_assoc]
    rfl
  let stack := b₁.node .video .frame (Node.declares nodes)
    [withArgs "vstack" s!"inputs={subjects.length}"]
  refine ⟨by simp [hinputs, Builder.fanOut_inputs], heights, split, nodes, ⟨b₁.nodes.length, .frame,
    [withArgs "vstack" s!"inputs={subjects.length}"], Node.declares nodes, [stack.2]⟩, ?_,
    ⟨rfl, rfl, rfl⟩, hcount, hheights, hall, ⟨rfl, rfl, rfl⟩, rfl⟩
  rw [← List.append_assoc, ← hsplit]
  rfl

theorem Stacks.framed {clip : Clip} {probe : Probe} {subjects : List Region}
    {heights : List Nat} {split stack : Node} {bands : List Node} {pad : Pad}
    (h : Stacks clip probe subjects (.source 0 .video) heights split bands stack pad)
    (hmany : clip.subjectFraming ∧ 1 < subjects.length) :
    Framed clip subjects (split :: bands ++ [stack]) pad := by
  -- there is a height for each subject
  have hlength : split.outputs.length ≤ (subjects.zip heights).length := by
    rw [List.length_zip, length_of_bandHeights? h.counted, h.branches]
    omega
  have hall : Forall₂ (fun branch n => (∃ band, n.Makes .frame [branch] band) ∧ n.hasFilter "crop")
      split.outputs bands := by
    rw [← List.map_fst_zip hlength, List.forall₂_map_left_iff]
    refine h.crops.imp fun part n hcrops => ?_
    obtain ⟨window, band, -, hmakes, hfilters⟩ := hcrops
    exact ⟨⟨band, hmakes⟩, by rw [Node.hasFilter, hfilters]; rfl⟩
  refine .stacked hmany ⟨h.splits.1, h.splits.2.1, ?_⟩ h.branches hall h.reads ?_
  · rw [Node.hasFilter, h.splits.2.2]
    rfl
  · rw [Node.hasFilter, h.joins]
    rfl

/-- The framing reads the source and ends in one pad. -/
theorem frame_eq_some {clip : Clip} {probe : Probe} {subjects : List Region} {b b' : Builder}
    {pad : Pad} (h : frame clip probe subjects b (.source 0 .video) = some (b', pad)) :
    b'.inputs = b.inputs ∧
      ∃ nodes, b'.nodes = b.nodes ++ nodes ∧ Framed clip subjects nodes pad := by
  by_cases hmany : clip.subjectFraming ∧ 1 < subjects.length
  · obtain ⟨hinputs, heights, split, bands, stack, hnodes, hstacks⟩ := stacks_of_frame hmany h
    exact ⟨hinputs, _, hnodes, hstacks.framed hmany⟩
  · rw [frame] at h
    dsimp only at h
    rw [if_neg hmany] at h
    obtain ⟨window, -, h⟩ := Option.bind_eq_some_iff.mp h
    cases h
    exact ⟨by simp, _, rfl, .whole hmany ⟨rfl, rfl, rfl⟩ rfl⟩

theorem reads_of_bands {branches : List Pad} {nodes : List Node}
    (h : Forall₂ (fun branch n => (∃ band, n.Makes .frame [branch] band) ∧ n.hasFilter "crop")
      branches nodes) : Node.reads nodes = branches := by
  induction h with
  | nil => rfl
  | cons hcrop _ ih =>
      obtain ⟨⟨band, hcrop⟩, -⟩ := hcrop
      rw [Node.reads, List.flatMap_cons, hcrop.inputs, ← Node.reads, ih]
      rfl

theorem stage_of_bands {branches : List Pad} {nodes : List Node}
    (h : Forall₂ (fun branch n => (∃ band, n.Makes .frame [branch] band) ∧ n.hasFilter "crop")
      branches nodes) : ∀ n ∈ nodes, n.stage = .frame := by
  induction h with
  | nil => simp
  | cons hcrop _ ih =>
      obtain ⟨⟨band, hcrop⟩, -⟩ := hcrop
      exact List.forall_mem_cons.mpr ⟨hcrop.stage, ih⟩

theorem Framed.stage_eq {clip : Clip} {subjects : List Region} {frames : List Node} {framed : Pad}
    (h : Framed clip subjects frames framed) : ∀ n ∈ frames, n.stage = .frame := by
  cases h with
  | whole hone hcrop hname => exact List.forall_mem_singleton.mpr hcrop.stage
  | stacked hmany hsplit hbranches hbands hstack hname =>
      rw [List.forall_mem_append, List.forall_mem_cons, List.forall_mem_singleton]
      exact ⟨⟨hsplit.1, stage_of_bands hbands⟩, hstack.stage⟩

/-- The framing reads the source and, but for the pad it ends in, what it declares itself. -/
theorem Framed.pads {clip : Clip} {subjects : List Region} {frames : List Node} {framed : Pad}
    (h : Framed clip subjects frames framed) :
    ∃ inner, Node.declares frames = inner ++ [framed] ∧
      Node.reads frames = .source 0 .video :: inner := by
  cases h with
  | @whole n _ hone hcrop hname =>
      exact ⟨[], by rw [Node.declares_singleton, hcrop.outputs]; rfl,
        by rw [Node.reads_singleton, hcrop.inputs]⟩
  | @stacked split stack bands _ hmany hsplit hbranches hbands hstack hname =>
      have hreads := reads_of_bands hbands
      refine ⟨split.outputs ++ Node.declares bands, ?_, ?_⟩
      · simp [Node.declares, hstack.outputs]
      · rw [List.cons_append, ← List.singleton_append, Node.reads_append, Node.reads_append,
          Node.reads_singleton, Node.reads_singleton, hreads, hsplit.2.1, hstack.inputs]
        rfl

/-- In linked nodes the framing leaves nothing open but the pad it ends in. -/
theorem Framed.loose {clip : Clip} {subjects : List Region} {frames : List Node} {framed : Pad}
    (h : Framed clip subjects frames framed) {inputCount : Nat}
    (hlinked : Node.Linked inputCount frames) {pad : Pad} (hpad : pad ∈ Node.declares frames) :
    pad ∉ Node.reads frames ↔ pad = framed := by
  obtain ⟨inner, hdeclares, hreads⟩ := h.pads
  have honce := hlinked.declares_nodup
  rw [hdeclares, List.nodup_append] at honce
  rw [hdeclares, List.mem_append, List.mem_singleton] at hpad
  rw [hreads, List.mem_cons]
  constructor
  · intro hopen
    exact hpad.resolve_left fun hinner => hopen (.inr hinner)
  · rintro rfl
    rintro (hsource | hinner)
    · -- the framing ends in a link, not in the source
      obtain ⟨n, hn, hout⟩ := List.mem_flatMap.mp
        (hdeclares ▸ List.mem_append_right inner (List.mem_singleton_self pad))
      obtain ⟨l, k, rfl⟩ := hlinked.labelled n hn pad hout
      cases hsource
    · exact honce.2.2 pad hinner pad (List.mem_singleton_self pad) rfl

/-! ## The whole picture -/

/-- The picture of a clip: it is framed, then its steps are drawn, in a graph whose inputs are the
source and the further inputs, in the order of the steps. -/
theorem staged_of_compile {clip : Clip} {probe : Probe} {subjects : List Region} {assets : Assets}
    (hcount : assets.stickerPaths.length = clip.stickers.length) {g : Graph}
    (h : compile clip probe subjects assets = .ok g) :
    ∃ frames nodes framed out, Staged clip subjects assets g frames nodes framed out := by
  obtain ⟨g', hbuild, hchecked⟩ := bind_eq_ok_iff.mp h
  obtain ⟨hcheck, rfl⟩ := Graph.ofExcept_checked_eq_ok hchecked
  obtain ⟨⟨b₀, source⟩, htake, hbuild⟩ := bind_eq_ok_iff.mp hbuild
  obtain ⟨⟨b₁, framed⟩, hframe, hbuild⟩ := bind_eq_ok_iff.mp hbuild
  obtain ⟨⟨b₂, pad₂⟩, hlayers, hbuild⟩ := bind_eq_ok_iff.mp hbuild
  obtain ⟨⟨b₃, out⟩, hmark, hbuild⟩ := bind_eq_ok_iff.mp hbuild
  cases hbuild
  obtain ⟨hinputs₀, hnodes₀, rfl⟩ := Builder.take_eq_ok htake
  obtain ⟨hinputs₁, frames, hnodes₁, hframed⟩ :=
    frame_eq_some (Outcome.ofOption_eq_ok_iff.mp hframe)
  have hdraws : Draws b₁ framed (steps clip assets) b₃ out :=
    (((((draws_tempo clip b₁ framed).trans (draws_motion clip assets.autoZoomMax _ _)).trans
      (draws_layers hlayers)).trans (draws_color clip b₂ pad₂)).trans
      (draws_subtitles assets _ _)).trans (draws_watermark hmark)
  have hinputs : b₁.inputs = [clip.sourceInput] := hinputs₁.trans hinputs₀
  have hnodes : b₁.nodes = frames := by
    rw [hnodes₁, hnodes₀]
    rfl
  obtain ⟨nodes, hnodes₂, hdrawn⟩ := hdraws.nodes
  rw [hnodes] at hnodes₂
  rw [hinputs] at hdrawn
  have hlinked : Node.Linked b₃.inputs.length b₃.nodes := (Graph.linked_of_check hcheck).1
  rw [hnodes₂] at hlinked
  refine ⟨frames, nodes, framed, out, hnodes₂, hframed,
    fun pad hpad => hframed.loose hlinked.of_append hpad, hdrawn, rfl, ?_⟩
  calc b₃.inputs
      = b₁.inputs ++ (steps clip assets).filterMap Step.media? := hdraws.inputs
    _ = clip.sourceInput :: furtherInputs clip assets := by
        rw [hinputs, filterMap_media_steps hcount]
        rfl

/-- The picture of an accepted edit, whatever is known of its source and wherever its subjects are,
with an image for each sticker: there is one, the source is framed and then the steps that the clip
asks for are drawn, in their order. -/
theorem staged_ofEdit {e : Edit} {clip : Clip} (hclip : Clip.ofEdit e = .ok clip) (probe : Probe)
    (subjects : List Region) (assets : Assets)
    (hcount : assets.stickerPaths.length = clip.stickers.length) :
    (subjects.length < 2147483648 → ∃ g, compile clip probe subjects assets = .ok g) ∧
      ∀ g, compile clip probe subjects assets = .ok g →
        ∃ frames nodes framed out, Staged clip subjects assets g frames nodes framed out := by
  refine ⟨fun hsubjects => ?_, fun g hg => staged_of_compile hcount hg⟩
  have hplaceable : Placeable clip :=
    ⟨fun layer hlayer => Clip.cutaway_toPixels? hclip hlayer _ _,
      fun layer hlayer => Clip.sticker_toPixels? hclip hlayer _ _⟩
  obtain ⟨b, pad, hcompile, -⟩ := compile_ends hplaceable probe hsubjects hcount
  exact ⟨_, hcompile⟩

/-- Two speakers at double speed, one above the other, with every step there is. -/
theorem staged_ofEdit_of_debate :
    let e : Edit :=
      { sourcePath := "/media/debate.mp4", trimStartMs := 1000, trimEndMs := 9000,
        canvas := .portrait, speed := 2, grade := { contrast := 1.2 }, autoZoom := true,
        subjectFraming := true, subjectCount := 2,
        cutaways := [{ path := "/media/map.mp4", startMs := 2000, endMs := 4000 }],
        stickers := [⟨.file "/media/star.png", 3000, 5000, ⟨0.1, 0.1, 0.2, 0.2⟩⟩],
        watermark := some { path := "/media/logo.png" } }
    let probe : Probe := ⟨1920, 1080, some 10000, true, true⟩
    let subjects : List Region := [⟨480, 540, 0.9, .vision⟩, ⟨1440, 540, 0.8, .vision⟩]
    let assets : Assets := { subtitlePath := some "/tmp/c.ass", stickerPaths := ["/tmp/star.png"] }
    ∃ clip, Clip.ofEdit e = .ok clip ∧ (steps clip assets).length = 7 ∧
      (∃ g, compile clip probe subjects assets = .ok g) ∧
      ∀ g, compile clip probe subjects assets = .ok g →
        ∃ frames nodes framed out, Staged clip subjects assets g frames nodes framed out := by
  intro e probe subjects assets
  have hfacts : (Clip.ofEdit e).toOption.map
      (fun clip => (clip.stickers.length, (steps clip assets).length)) = some (1, 7) := by
    decide +kernel
  obtain ⟨clip, hclip, hcounts⟩ := Outcome.exists_of_map hfacts
  obtain ⟨hstickers, hsteps⟩ := Prod.mk.inj hcounts
  obtain ⟨hexists, hstaged⟩ := staged_ofEdit hclip probe subjects assets hstickers.symm
  exact ⟨clip, hclip, hsteps, hexists (by decide), hstaged⟩

end Video

end Montage
