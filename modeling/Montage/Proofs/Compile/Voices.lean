import Mathlib.Data.List.Sort
import Montage.Proofs.Clip.Layers
import Montage.Proofs.Compile.Stages
import Montage.Proofs.Graph.Flow

/-! # The voices of the sound

The sound of the source, or silence, is the first input of whatever is done to it up to the end.
Music and sound effects come in from the side: they are further inputs of a mix, or push what they
are mixed with. -/

namespace Montage

/-! ## Steps of the builder -/

/-- The node that a fan-out emits. -/
def Builder.emitted (b : Builder) (kind : Stream) (stage : Stage) (inputs : List Pad)
    (filters : List Filter) (outputs : Nat) : Node :=
  ⟨b.nodes.length, stage, filters, inputs, (b.fanOut kind stage inputs filters outputs).2⟩

namespace Audio

open Montage.Filter (withArgs)
open List (Forall₂)

/-- A builder that goes on from one pad to another one. `way` are the nodes between them, `nodes`
all that are new; streams that are taken are those of new inputs. -/
structure Adds (b b' : Builder) (pad pad' : Pad) (nodes way : List Node) : Prop where
  nodes : b'.nodes = b.nodes ++ nodes
  trail : ∀ {rest}, Node.Trail b.nodes pad rest → Node.Trail b'.nodes pad' (way ++ rest)
  inputs : b.inputs.length ≤ b'.inputs.length
  taken : ∀ stream ∈ b'.taken, stream ∈ b.taken ∨ b.inputs.length ≤ stream.1

namespace Adds

variable {b b₁ b' : Builder} {pad pad₁ pad' : Pad} {nodes nodes' way way' : List Node}

theorem refl (b : Builder) (pad : Pad) : Adds b b pad pad [] [] where
  nodes := (List.append_nil _).symm
  trail := id
  inputs := Nat.le_refl _
  taken := fun _ => .inl

theorem trans (h : Adds b b₁ pad pad₁ nodes way) (h' : Adds b₁ b' pad₁ pad' nodes' way') :
    Adds b b' pad pad' (nodes ++ nodes') (way' ++ way) where
  nodes := by rw [h'.nodes, h.nodes, List.append_assoc]
  trail := by
    intro rest hrest
    rw [List.append_assoc]
    exact h'.trail (h.trail hrest)
  inputs := h.inputs.trans h'.inputs
  taken := by
    intro stream hstream
    rcases h'.taken stream hstream with hstream | hle
    · exact h.taken stream hstream
    · exact .inr (h.inputs.trans hle)

/-- A further input is on no way. -/
theorem input (b : Builder) (pad : Pad) (media : MediaInput) {b' : Builder} {stream : Pad}
    (h : (b.addInput media).1.take .audio (b.addInput media).2 = .ok (b', stream)) :
    Adds b b' pad pad [] [] ∧ stream = .source b.inputs.length .audio := by
  obtain ⟨-, -, rfl, rfl⟩ := Builder.take_eq_ok_iff.mp h
  refine ⟨⟨(List.append_nil _).symm, id, by simp [Builder.addInput], ?_⟩, rfl⟩
  intro stream hstream
  rcases List.mem_cons.mp hstream with rfl | hstream
  · exact .inr (Nat.le_refl _)
  · exact .inl hstream

/-- A node beside the way. -/
theorem aside (b : Builder) (pad : Pad) (stage : Stage) (inputs : List Pad)
    (filters : List Filter) (outputs : Nat) :
    Adds b (b.fanOut .audio stage inputs filters outputs).1 pad pad
      [b.emitted .audio stage inputs filters outputs] [] where
  nodes := rfl
  trail := fun hrest => hrest.mono (List.subset_append_left _ _)
  inputs := Nat.le_refl _
  taken := fun _ => .inl

/-- A node on the way: the pad is its first input, and the way goes on from one of its outputs. -/
theorem through (b : Builder) (pad : Pad) (stage : Stage) (others : List Pad)
    (filters : List Filter) (outputs : Nat)
    (hpad' : pad' ∈ (b.fanOut .audio stage (pad :: others) filters outputs).2) :
    Adds b (b.fanOut .audio stage (pad :: others) filters outputs).1 pad pad'
      [b.emitted .audio stage (pad :: others) filters outputs]
      [b.emitted .audio stage (pad :: others) filters outputs] where
  nodes := rfl
  trail := by
    intro rest hrest
    have hmem : b.emitted .audio stage (pad :: others) filters outputs ∈
        (b.fanOut .audio stage (pad :: others) filters outputs).1.nodes :=
      List.mem_append_right _ (List.mem_singleton_self _)
    exact .through hmem hpad' rfl (hrest.mono (List.subset_append_left _ _))
  inputs := Nat.le_refl _
  taken := fun _ => .inl

end Adds

/-! ## What each stage adds -/

/-- Silence as long as the clip. -/
def silence (clip : Clip) : List Filter :=
  [withArgs "anullsrc" "r=48000:cl=stereo",
   withArgs "atrim" s!"duration={Decimal.fixed 3 clip.durationSeconds}"]

/-- The node of the source's sound: it reads the source if that has sound, and is silence else. -/
structure Primary (clip : Clip) (probe : Probe) (n : Node) : Prop where
  stage : n.stage = .primary
  sounding : probe.hasAudio = true → n.inputs = [.source 0 .audio]
  silent : probe.hasAudio = false → n.inputs = [] ∧ n.filters = silence clip

/-- Music that the sound pushes down: of the two copies of the sound, one is heard and the other
one is compared with the music. -/
structure Ducked (pad : Pad) (split compressor mix : Node) : Prop where
  stages : split.stage = .mix ∧ compressor.stage = .mix ∧ mix.stage = .mix
  filters : split.hasFilter "asplit" ∧ compressor.hasFilter "sidechaincompress" ∧
    mix.hasFilter "amix"
  reads : split.inputs = [pad]
  crossed : ∃ main reference music quiet, main ≠ reference ∧ split.outputs = [main, reference] ∧
    compressor.inputs = [music, reference] ∧ compressor.outputs = [quiet] ∧
    mix.inputs = [main, quiet]

/-- The nodes of the music. -/
inductive Scored (clip : Clip) (pad : Pad) : List Node → List Node → Prop where
  | silent (hnone : clip.music = none) : Scored clip pad [] []
  | flat {prepare mix : Node} (hflat : clip.ducking = false) (hprepare : prepare.stage = .music)
      (hmix : mix.stage = .mix) : Scored clip pad [prepare, mix] [mix]
  | ducked {prepare split compressor mix : Node} (hprepare : prepare.stage = .music)
      (hducked : Ducked pad split compressor mix) :
      Scored clip pad [prepare, split, compressor, mix] [mix, split]

/-- The copies of a sound: the sound itself if one is needed, else the outputs of a split of it. -/
inductive Copied (sound : Pad) : List Node → List Pad → Prop where
  | one : Copied sound [] [sound]
  | many {split : Node} (hstage : split.stage = .sfx) (hname : split.hasFilter "asplit")
      (hreads : split.inputs = [sound]) : Copied sound [split] split.outputs

/-- The filters that put a copy of the sound at an onset. -/
def delayFilters (onset : Nat) : List Filter :=
  [withArgs "adelay" s!"delays={onset}:all=1", sampleFormat]

/-- A node that puts a copy of the sound at an onset. -/
structure Delays (onset : Nat) (n : Node) : Prop where
  filters : n.filters = delayFilters onset
  makes : ∃ copy out, n.Makes .sfx [copy] out

/-- The sounds at some onsets: a copy of the sound for each, put there, and all of them mixed with
the sound so far. -/
structure Sounded (onsets : List Nat) (pad : Pad) (copies delays : List Node) (mix : Node) :
    Prop where
  copied : ∃ sound, Copied sound copies (Node.reads delays)
  delayed : Forall₂ Delays onsets delays
  stage : mix.stage = .sfx
  mixes : mix.hasFilter "amix"
  reads : mix.inputs = pad :: Node.declares delays

/-- The nodes of the sound effects. -/
inductive Effected (clip : Clip) (soundPath : Option String) (pad : Pad) :
    List Node → List Node → Prop where
  | silent (hnone : clip.soundEffects = false ∨ soundPath = none ∨ clip.onsets = []) :
      Effected clip soundPath pad [] []
  | sounded {copies delays : List Node} {mix : Node}
      (hsounded : Sounded clip.onsets pad copies delays mix) :
      Effected clip soundPath pad (copies ++ delays ++ [mix]) [mix]

section Stages

variable {b b' : Builder} {pad pad' : Pad}

theorem primary_eq_ok {clip : Clip} {probe : Probe} {media : MediaInput}
    (h : primary clip probe (Builder.new media) = .ok (b, pad)) :
    b.inputs = [media] ∧ b.taken = (if probe.hasAudio then [(0, .audio)] else []) ∧
      ∃ n, b.nodes = [n] ∧ n.outputs = [pad] ∧ Primary clip probe n := by
  rw [primary] at h
  cases haudio : probe.hasAudio with
  | true =>
      rw [haudio] at h
      obtain ⟨⟨b₁, source⟩, htake, h⟩ := bind_eq_ok_iff.mp h
      obtain ⟨-, -, rfl, rfl⟩ := Builder.take_eq_ok_iff.mp htake
      cases h
      exact ⟨rfl, rfl, _, rfl, rfl, rfl, fun _ => rfl, by simp [haudio]⟩
  | false =>
      rw [haudio] at h
      cases h
      exact ⟨rfl, rfl, _, rfl, rfl, rfl, by simp [haudio], fun _ => ⟨rfl, rfl⟩⟩

theorem enhance_adds (clip : Clip) (b : Builder) (pad : Pad) :
    ∃ nodes, Adds b (enhance clip b pad).1 pad (enhance clip b pad).2 nodes nodes ∧
      ∀ n ∈ nodes, n.stage = .enhance := by
  rw [enhance]
  split
  · refine ⟨_, .through b pad .enhance [] _ 1 (List.mem_singleton_self _), ?_⟩
    rw [List.forall_mem_singleton]
    rfl
  · exact ⟨[], .refl b pad, by simp⟩

theorem mixDucked_adds {prepared : Pad} (h : mixDucked b pad prepared = .ok (b', pad')) :
    ∃ split compressor mix, Adds b b' pad pad' [split, compressor, mix] [mix, split] ∧
      Ducked pad split compressor mix := by
  cases h
  let split := b.fanOut .audio .mix [pad] [withArgs "asplit" "2"] 2
  let main : Pad := .link (Builder.label .audio (b.nextLabel .audio + 0)) .audio
  let reference : Pad := .link (Builder.label .audio (b.nextLabel .audio + 1)) .audio
  let ducked := split.1.node .audio .mix [prepared, reference]
    [withArgs "sidechaincompress" "threshold=0.05:ratio=8:attack=20:release=300"]
  have hne : main ≠ reference := by
    intro heq
    have := (Builder.label_inj.mp (Pad.link.inj heq).1).2
    omega
  have hsplit : Adds b split.1 pad main _ _ :=
    .through b pad .mix [] [withArgs "asplit" "2"] 2 (List.mem_cons_self ..)
  have haside := Adds.aside split.1 main .mix [prepared, reference]
    [withArgs "sidechaincompress" "threshold=0.05:ratio=8:attack=20:release=300"] 1
  have hmix := Adds.through ducked.1 main .mix [ducked.2]
    [withArgs "amix" "inputs=2:duration=first:normalize=0"] 1 (List.mem_singleton_self _)
  exact ⟨_, _, _, (hsplit.trans haside).trans hmix, ⟨rfl, rfl, rfl⟩, ⟨rfl, rfl, rfl⟩, rfl,
    main, reference, prepared, ducked.2, hne, rfl, rfl, rfl, rfl⟩

theorem addMusic_adds {clip : Clip} (h : addMusic clip b pad = .ok (b', pad')) :
    ∃ nodes way, Adds b b' pad pad' nodes way ∧ Scored clip pad nodes way := by
  rw [addMusic] at h
  split at h
  case h_1 hnone =>
    cases h
    exact ⟨[], [], .refl _ _, .silent hnone⟩
  case h_2 music hmusic =>
    obtain ⟨⟨b₁, media⟩, htake, h⟩ := bind_eq_ok_iff.mp h
    obtain ⟨hinput, -⟩ := Adds.input b pad _ htake
    have hprepare := hinput.trans (.aside b₁ pad .music [media] (musicFilters clip music) 1)
    dsimp only at h
    split at h
    case isTrue hducking =>
      obtain ⟨split, compressor, mix, hadds, hducked⟩ := mixDucked_adds h
      exact ⟨_, _, hprepare.trans hadds, .ducked rfl hducked⟩
    case isFalse hflat =>
      cases h
      have hmix := Adds.through (b₁.node .audio .music [media] (musicFilters clip music)).1 pad
        .mix [(b₁.node .audio .music [media] (musicFilters clip music)).2]
        [withArgs "amix"
          s!"inputs=2:duration=first:weights='1 {Decimal.plain musicWeight}':normalize=0"] 1
        (List.mem_singleton_self _)
      exact ⟨_, _, hprepare.trans hmix, .flat (by simpa using hflat) rfl rfl⟩

theorem copies_adds (b : Builder) (pad sound : Pad) {n : Nat} (hn : n ≠ 0) :
    ∃ nodes, Adds b (copies b sound n).1 pad pad nodes [] ∧
      Copied sound nodes (copies b sound n).2 ∧ (copies b sound n).2.length = n := by
  rw [copies]
  split
  · refine ⟨_, .aside b pad .sfx [sound] _ n, .many rfl rfl rfl, Builder.length_fanOut⟩
  · refine ⟨[], .refl b pad, .one, ?_⟩
    change 1 = n
    omega

theorem delays_adds (b : Builder) (pad : Pad) (copies : List (Pad × Nat)) :
    ∃ nodes, Adds b (delays b copies).1 pad pad nodes [] ∧
      Forall₂ Delays (copies.map Prod.snd) nodes ∧
      Node.reads nodes = copies.map Prod.fst ∧ (delays b copies).2 = Node.declares nodes := by
  induction copies generalizing b with
  | nil => exact ⟨[], .refl b pad, .nil, rfl, rfl⟩
  | cons head rest ih =>
      obtain ⟨copy, onset⟩ := head
      obtain ⟨nodes, hadds, hdelays, hreads, hdeclares⟩ :=
        ih (b.node .audio .sfx [copy] (delayFilters onset)).1
      refine ⟨_ :: nodes, (Adds.aside b pad .sfx [copy] (delayFilters onset) 1).trans hadds,
        .cons ⟨rfl, copy, _, rfl, rfl, rfl⟩ hdelays, ?_, ?_⟩
      · rw [Node.reads, List.flatMap_cons, ← Node.reads, hreads]
        rfl
      · rw [Node.declares, List.flatMap_cons, ← Node.declares, ← hdeclares]
        rfl

theorem addEffects_adds {clip : Clip} {soundPath : Option String}
    (h : addEffects clip soundPath b pad = .ok (b', pad')) :
    ∃ nodes way, Adds b b' pad pad' nodes way ∧ Effected clip soundPath pad nodes way := by
  unfold addEffects at h
  split at h
  case h_2 hnone =>
    cases h
    refine ⟨[], [], .refl _ _, .silent ?_⟩
    by_contra hsounded
    simp only [not_or, Bool.not_eq_false, ← ne_eq, Option.ne_none_iff_exists'] at hsounded
    obtain ⟨heffects, ⟨path, hpath⟩, -⟩ := hsounded
    exact hnone path heffects hpath
  case h_1 path heffects =>
    dsimp only at h
    split at h
    case isTrue hnone =>
      cases h
      exact ⟨[], [], .refl _ _, .silent (.inr (.inr hnone))⟩
    case isFalse honsets =>
      obtain ⟨⟨b₁, sound⟩, htake, h⟩ := bind_eq_ok_iff.mp h
      cases h
      obtain ⟨hinput, -⟩ := Adds.input b pad _ htake
      have hcount : clip.onsets.length ≠ 0 := by simpa [List.length_eq_zero_iff] using honsets
      obtain ⟨split, hcopies, hcopied, hlength⟩ := copies_adds b₁ pad sound hcount
      let copied := copies b₁ sound clip.onsets.length
      let placed := delays copied.1 (copied.2.zip clip.onsets)
      obtain ⟨delayed, hdelays, hall, hreads, hdeclares⟩ :=
        delays_adds copied.1 pad (copied.2.zip clip.onsets)
      rw [List.map_snd_zip hlength.ge] at hall
      rw [List.map_fst_zip hlength.le] at hreads
      have hmix := Adds.through placed.1 pad .sfx placed.2
        [withArgs "amix" s!"inputs={clip.onsets.length + 1}:duration=first:normalize=0"] 1
        (List.mem_singleton_self _)
      refine ⟨_, _, ((hinput.trans hcopies).trans hdelays).trans hmix, .sounded
        ⟨⟨sound, hreads ▸ hcopied⟩, hall, rfl, rfl, ?_⟩⟩
      exact congrArg (List.cons pad) hdeclares

end Stages

/-! ## The stages of the nodes -/

section Stages

variable {clip : Clip} {soundPath : Option String} {pad : Pad} {nodes way : List Node}

theorem Scored.stage_mem (h : Scored clip pad nodes way) :
    (∀ n ∈ nodes, n.stage = .music ∨ n.stage = .mix) ∧ ∀ n ∈ way, n.stage = .mix := by
  cases h with
  | silent => simp
  | flat hflat hprepare hmix => simp [hprepare, hmix]
  | ducked hprepare hducked =>
      obtain ⟨hsplit, hcompressor, hmix⟩ := hducked.stages
      simp [hprepare, hsplit, hcompressor, hmix]

theorem Copied.stage_eq {sound : Pad} {copies : List Pad} (h : Copied sound nodes copies) :
    ∀ n ∈ nodes, n.stage = .sfx := by
  cases h with
  | one => simp
  | many hstage => exact List.forall_mem_singleton.mpr hstage

theorem delayed_spec {onsets : List Nat} (h : Forall₂ Delays onsets nodes) :
    (∀ n ∈ nodes, n.stage = .sfx) ∧ (Node.declares nodes).length = onsets.length := by
  induction h with
  | nil => simp
  | cons hdelays _ ih =>
      obtain ⟨copy, out, hmakes⟩ := hdelays.makes
      refine ⟨List.forall_mem_cons.mpr ⟨hmakes.stage, ih.1⟩, ?_⟩
      rw [Node.declares, List.flatMap_cons, ← Node.declares, hmakes.outputs, List.length_append,
        ih.2, List.length_singleton, List.length_cons, Nat.add_comm]

namespace Sounded

variable {onsets : List Nat} {copies delays : List Node} {mix : Node}

theorem stage_eq (h : Sounded onsets pad copies delays mix) :
    ∀ n ∈ copies ++ delays ++ [mix], n.stage = .sfx := by
  obtain ⟨sound, hcopied⟩ := h.copied
  rw [List.forall_mem_append, List.forall_mem_append, List.forall_mem_singleton]
  exact ⟨⟨hcopied.stage_eq, (delayed_spec h.delayed).1⟩, h.stage⟩

/-- Each sound adds one input to the mix. -/
theorem length_inputs (h : Sounded onsets pad copies delays mix) :
    mix.inputs.length = onsets.length + 1 := by
  rw [h.reads, List.length_cons, (delayed_spec h.delayed).2]

end Sounded

theorem Effected.stage_mem (h : Effected clip soundPath pad nodes way) :
    (∀ n ∈ nodes, n.stage = .sfx) ∧ ∀ n ∈ way, n.stage = .sfx ∧ n.hasFilter "amix" := by
  cases h with
  | silent => simp
  | sounded hsounded =>
      exact ⟨hsounded.stage_eq, List.forall_mem_singleton.mpr ⟨hsounded.stage, hsounded.mixes⟩⟩

end Stages

/-! ## The whole sound -/

/-- The sound of a clip: `primary` is where it springs up, and `way` what it passes through from
there to the end, the last node first. -/
structure Voiced (clip : Clip) (probe : Probe) (soundPath : Option String) (g : Graph)
    (primary : Node) (way : List Node) : Prop where
  trail : ∃ out, g.audioOut = some out ∧
    ∀ nodes, Node.Trail g.nodes out nodes ↔ nodes = way ++ [primary]
  stages : ∀ n ∈ way, n.stage = .enhance ∨ n.stage = .mix ∨ n.stage = .sfx ∧ n.hasFilter "amix"
  springs : Primary clip probe primary
  single : g.stageNodes .primary = [primary]
  source : (∃ n ∈ g.nodes, .source 0 .audio ∈ n.inputs) ↔ probe.hasAudio = true
  ducked : clip.music.isSome → clip.ducking = true → ∃ split compressor mix pad,
    g.stageNodes .mix = [split, compressor, mix] ∧ split ∈ way ∧ mix ∈ way ∧
      Ducked pad split compressor mix
  sounded : clip.soundEffects = true → soundPath.isSome → clip.onsets ≠ [] →
    ∃ copies delays mix pad, g.stageNodes .sfx = copies ++ delays ++ [mix] ∧
      way.head? = some mix ∧ mix.inputs.length = clip.onsets.length + 1 ∧
        Sounded clip.onsets pad copies delays mix

/-- Behind the first node there is the source's stream, or nothing. -/
theorem Primary.trail {clip : Clip} {probe : Probe} {primary : Node}
    (h : Primary clip probe primary) {nodes : List Node} {pad : Pad} (hn : primary ∈ nodes)
    (hpad : pad ∈ primary.outputs) : Node.Trail nodes pad [primary] := by
  cases haudio : probe.hasAudio with
  | true =>
      have hfirst : primary.inputs.head? = some (.source 0 .audio) := by
        rw [h.sounding haudio]
        rfl
      exact .through hn hpad hfirst (.source 0 .audio)
  | false => exact .spring hn hpad (h.silent haudio).1

/-- The stream of the source is read by the first node if it is read at all. -/
theorem Primary.source_iff {clip : Clip} {probe : Probe} {primary : Node}
    (h : Primary clip probe primary) {b : Builder} {held : List Pad} (hbalanced : b.Balanced held)
    (hn : primary ∈ b.nodes)
    (htaken : ∀ stream ∈ b.taken,
      stream ∈ (if probe.hasAudio then [(0, Stream.audio)] else []) ∨ 1 ≤ stream.1) :
    (∃ n ∈ b.nodes, .source 0 .audio ∈ n.inputs) ↔ probe.hasAudio = true := by
  constructor
  · rintro ⟨n, hn, hread⟩
    have hmem : ((0, .audio) : Nat × Stream) ∈ Pad.sources (Node.reads b.nodes) :=
      Pad.mem_sources.mpr (List.mem_flatMap.mpr ⟨n, hn, hread⟩)
    have hmem : ((0, .audio) : Nat × Stream) ∈ b.taken :=
      hbalanced.sources_perm.mem_iff.mpr (List.mem_append_left _ hmem)
    rcases htaken _ hmem with hfirst | hlater
    · by_contra hnone
      rw [if_neg hnone] at hfirst
      cases hfirst
    · exact absurd hlater (by decide)
  · intro haudio
    refine ⟨primary, hn, ?_⟩
    rw [h.sounding haudio]
    exact List.mem_singleton_self _

/-- The nodes of a sound, stage by stage, with those that are on the way. -/
structure Parts (clip : Clip) (probe : Probe) (soundPath : Option String) (primary : Node)
    (enhancing scoring scored sounding sounded : List Node) : Prop where
  springs : Primary clip probe primary
  enhanced : ∀ n ∈ enhancing, n.stage = .enhance
  scored : ∃ pad, Scored clip pad scoring scored
  sounded : ∃ pad, Effected clip soundPath pad sounding sounded

namespace Parts

variable {clip : Clip} {probe : Probe} {soundPath : Option String} {g : Graph} {primary : Node}
  {enhancing scoring scored sounding sounded : List Node}

theorem way_stages
    (h : Parts clip probe soundPath primary enhancing scoring scored sounding sounded) :
    ∀ n ∈ sounded ++ (scored ++ enhancing),
      n.stage = .enhance ∨ n.stage = .mix ∨ n.stage = .sfx ∧ n.hasFilter "amix" := by
  obtain ⟨pad, hscored⟩ := h.scored
  obtain ⟨pad', hsounded⟩ := h.sounded
  intro n hn
  rw [List.mem_append, List.mem_append] at hn
  rcases hn with hn | hn | hn
  · exact .inr (.inr (hsounded.stage_mem.2 n hn))
  · exact .inr (.inl (hscored.stage_mem.2 n hn))
  · exact .inl (h.enhanced n hn)

theorem stageNodes
    (h : Parts clip probe soundPath primary enhancing scoring scored sounding sounded)
    (hnodes : g.nodes = primary :: (enhancing ++ scoring ++ sounding)) :
    g.stageNodes .primary = [primary] ∧
      g.stageNodes .mix = scoring.filter (fun n => n.stage = .mix) ∧
      g.stageNodes .sfx = sounding := by
  obtain ⟨pad, hscored⟩ := h.scored
  obtain ⟨pad', hsounded⟩ := h.sounded
  have hother {nodes : List Node} {stage : Stage} (hne : ∀ n ∈ nodes, n.stage ≠ stage) :
      (nodes.filter fun n => n.stage = stage) = [] := by
    rw [List.filter_eq_nil_iff]
    intro n hn
    rw [decide_eq_true_eq]
    exact hne n hn
  have henhancing {stage : Stage} (hne : .enhance ≠ stage) :
      (enhancing.filter fun n => n.stage = stage) = [] :=
    hother fun n hn => (h.enhanced n hn).trans_ne hne
  have hscoring {stage : Stage} (hmusic : .music ≠ stage) (hmix : .mix ≠ stage) :
      (scoring.filter fun n => n.stage = stage) = [] := by
    refine hother fun n hn => ?_
    rcases hscored.stage_mem.1 n hn with heq | heq
    · exact heq.trans_ne hmusic
    · exact heq.trans_ne hmix
  have hsounding {stage : Stage} (hne : .sfx ≠ stage) :
      (sounding.filter fun n => n.stage = stage) = [] :=
    hother fun n hn => (hsounded.stage_mem.1 n hn).trans_ne hne
  have hall : (sounding.filter fun n => n.stage = .sfx) = sounding := by
    rw [List.filter_eq_self]
    intro n hn
    rw [decide_eq_true_eq]
    exact hsounded.stage_mem.1 n hn
  simp only [Graph.stageNodes, hnodes, List.filter_cons, List.filter_append, h.springs.stage]
  refine ⟨?_, ?_, ?_⟩
  · simp [henhancing, hscoring, hsounding]
  · simp [henhancing, hsounding]
  · simp [henhancing, hscoring, hall]

end Parts

theorem voiced_compile (clip : Clip) (probe : Probe) (soundPath : Option String) :
    ∃ g, compile clip probe soundPath = .ok g ∧
      ∃ primary way, Voiced clip probe soundPath g primary way := by
  obtain ⟨b₁, pad₁, hprimary, hends⟩ := primary_ends clip probe clip.sourceInput
  obtain ⟨b₂, pad₂, hmusic, hends⟩ := addMusic_ends clip (enhance_ends clip hends)
  obtain ⟨b₃, pad₃, heffects, hends⟩ := addEffects_ends clip soundPath hends
  have hcompile : compile clip probe soundPath = .ok (b₃.finish none (some pad₃)) := by
    have hbuild : build clip probe soundPath = .ok (b₃.finish none (some pad₃)) := by
      simp [build, hprimary, hmusic, heffects, bind, Except.bind, pure, Except.pure]
    rw [compile, hbuild]
    exact Graph.ofExcept_checked hends.check_audio
  refine ⟨_, hcompile, ?_⟩
  obtain ⟨hinputs, htaken, primary, hfirst, houtputs, hspec⟩ := primary_eq_ok hprimary
  obtain ⟨enhancing, henhance, henhanced⟩ := enhance_adds clip b₁ pad₁
  obtain ⟨scoring, scored, hscore, hscored⟩ := addMusic_adds hmusic
  obtain ⟨sounding, sounded, hsound, hsounded⟩ := addEffects_adds heffects
  have hadds := (henhance.trans hscore).trans hsound
  have hparts : Parts clip probe soundPath primary enhancing scoring scored sounding sounded :=
    ⟨hspec, henhanced, ⟨_, hscored⟩, ⟨_, hsounded⟩⟩
  have hnodes : b₃.nodes = primary :: (enhancing ++ scoring ++ sounding) := by
    rw [hadds.nodes, hfirst]
    rfl
  obtain ⟨hsingle, hmixes, heffected⟩ := hparts.stageNodes (g := b₃.finish none (some pad₃)) hnodes
  refine ⟨primary, sounded ++ (scored ++ enhancing), ?trail, hparts.way_stages, hspec, hsingle,
    ?source, ?ducked, ?sounded⟩
  case trail =>
    have hstart : Node.Trail b₁.nodes pad₁ [primary] :=
      hspec.trail (hfirst ▸ List.mem_singleton_self _) (houtputs ▸ List.mem_singleton_self _)
    have htrail := hadds.trail hstart
    refine ⟨pad₃, rfl, fun nodes => ⟨fun h => h.unique hends.track.balanced.linked htrail, ?_⟩⟩
    rintro rfl
    exact htrail
  case source =>
    refine hspec.source_iff hends.track.balanced (hnodes ▸ List.mem_cons_self) ?_
    intro stream hstream
    have hstream := hadds.taken stream hstream
    rwa [htaken, hinputs] at hstream
  case ducked =>
    intro hsome hducking
    cases hscored with
    | silent hnone => simp [hnone] at hsome
    | flat hflat => simp [hflat] at hducking
    | @ducked prepare split compressor mix hprepare hducked =>
        obtain ⟨hsplit, hcompressor, hmix⟩ := hducked.stages
        refine ⟨split, compressor, mix, _, ?_, by simp, by simp, hducked⟩
        rw [hmixes]
        simp [hprepare, hsplit, hcompressor, hmix]
  case sounded =>
    intro hwanted hpath honsets
    cases hsounded with
    | silent hnone =>
        rcases hnone with hnone | hnone | hnone
        · simp [hnone] at hwanted
        · simp [hnone] at hpath
        · exact absurd hnone honsets
    | @sounded copies delays mix hsounded =>
        exact ⟨copies, delays, mix, _, heffected, rfl, hsounded.length_inputs, hsounded⟩

/-- The sound of an accepted edit, whatever is known of its source: the onsets of its captions, and
how its graph is voiced. -/
theorem voiced_ofEdit {e : Edit} {clip : Clip} (hclip : Clip.ofEdit e = .ok clip) (probe : Probe)
    (soundPath : Option String) :
    (∃ ordered, Clip.OnsetsOf e (e.timeline ordered) clip) ∧
      ∃ g, compile clip probe soundPath = .ok g ∧
        ∃ primary way, Voiced clip probe soundPath g primary way :=
  ⟨Clip.onsetsOf_ofEdit hclip, voiced_compile clip probe soundPath⟩

/-- A talk at double speed with everything there is: the first caption begins before the trim, and
two of the others begin together. -/
theorem voiced_ofEdit_of_chimes :
    let e : Edit :=
      { sourcePath := "/media/talk.mp4", trimStartMs := 1000, trimEndMs := 9000,
        canvas := .portrait, speed := 2, enhanceAudio := true, ducking := true,
        music := some { path := "/media/song.mp3" }, soundEffects := true,
        segments := [{ text := "before", startMs := 500, endMs := 1500 },
          { text := "later", startMs := 6000, endMs := 7000 },
          { text := "now", startMs := 2000, endMs := 3000 },
          { text := "and now", startMs := 2000, endMs := 4000 }] }
    let probe : Probe := ⟨1920, 1080, some 10000, true, true⟩
    ∃ clip, Clip.ofEdit e = .ok clip ∧ clip.onsets = [500, 2500] ∧
      (∃ ordered, Clip.OnsetsOf e (e.timeline ordered) clip) ∧
        ∃ g, compile clip probe (some "/media/chime.wav") = .ok g ∧
          ∃ primary way, Voiced clip probe (some "/media/chime.wav") g primary way := by
  intro e probe
  have hstarts : (Clip.ofEdit e).toOption.map (fun clip =>
      (clip.segments.filter (·.startsInClip)).map (·.window.startMs)) = some [2500, 500, 500] := by
    decide +kernel
  obtain ⟨clip, hclip, hstarts⟩ := Outcome.exists_of_map hstarts
  have hmem (onset : Nat) : onset ∈ clip.onsets ↔ onset ∈ [500, 2500] := by
    rw [Clip.onsets, Clip.mem_distinct, List.mem_mergeSort, hstarts]
    simp [or_comm]
  have honsets := (Clip.onsets_increasing clip).eq_of_mem_iff (by decide) hmem
  exact ⟨clip, hclip, honsets, voiced_ofEdit hclip probe (some "/media/chime.wav")⟩

end Audio

end Montage
