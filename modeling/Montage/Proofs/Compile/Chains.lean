import Montage.Proofs.Compile.Stages

/-! # The chains of a program

Every chain of filters that the compilation of a clip emits, with the number of pads that it reads
and the number that it declares. Picture and sound have their own chains; a program has no
others. -/

namespace Montage

open Montage.Filter (withArgs)

/-! ## Chains of a builder -/

/-- Each node has one of some chains and as many pads as the chain has. -/
def Node.FormedBy (chain : List Filter → Nat → Nat → Prop) (n : Node) : Prop :=
  chain n.filters n.inputs.length n.outputs.length

namespace Builder

variable {chain : List Filter → Nat → Nat → Prop} {b b' : Builder}

theorem formed_take {kind : Stream} (h : ∀ n ∈ b.nodes, n.FormedBy chain) {input : Nat} {pad : Pad}
    (htake : b.take kind input = .ok (b', pad)) : ∀ n ∈ b'.nodes, n.FormedBy chain := by
  rw [(take_eq_ok htake).2.1]
  exact h

theorem formed_fanOut (kind : Stream) (stage : Stage) (pads : List Pad)
    (h : ∀ n ∈ b.nodes, n.FormedBy chain) {filters : List Filter} {outputs : Nat}
    (hchain : chain filters pads.length outputs) :
    ∀ n ∈ (b.fanOut kind stage pads filters outputs).1.nodes, n.FormedBy chain := by
  rw [fanOut_nodes, List.forall_mem_append, List.forall_mem_singleton, Node.FormedBy, length_fanOut]
  exact ⟨h, hchain⟩

theorem formed_node (kind : Stream) (stage : Stage) (pads : List Pad)
    (h : ∀ n ∈ b.nodes, n.FormedBy chain) {filters : List Filter}
    (hchain : chain filters pads.length 1) :
    ∀ n ∈ (b.node kind stage pads filters).1.nodes, n.FormedBy chain := by
  have hfan := formed_fanOut kind stage pads h hchain
  rwa [fanOut_one] at hfan

end Builder

/-! ## The picture -/

namespace Video

/-- The chains of the picture: those of the framing, of the steps with one node, and of the layers,
which are prepared and then put over the picture. -/
inductive Chain (clip : Clip) (assets : Assets) : List Filter → Nat → Nat → Prop where
  | split (count : Nat) : Chain clip assets [withArgs "split" (toString count)] 1 count
  | crop (w : CropWindow) (width height : Nat) : Chain clip assets (cropScale w width height) 1 1
  | stack (count : Nat) : Chain clip assets [withArgs "vstack" s!"inputs={count}"] count 1
  | tempo : Chain clip assets
      [withArgs "setpts" s!"(PTS-STARTPTS)/{Decimal.fixed 6 clip.speed}"] 1 1
  | motion (zoom : Zoom.Expr) (h : Zoom.expr? clip assets.autoZoomMax = some zoom) :
      Chain clip assets (Zoom.filters zoom.text clip.canvas.width clip.canvas.height) 1 1
  | cutaway {layer : ClipCutaway} (h : layer ∈ clip.cutaways) (r : PixelRect) :
      Chain clip assets (cutawayFilters layer r) 1 1
  | overCutaway {layer : ClipCutaway} (h : layer ∈ clip.cutaways) (r : PixelRect) :
      Chain clip assets [withArgs "overlay"
        s!"x={r.x}:y={r.y}:{enableText layer.window}:eof_action=pass"] 2 1
  | sticker (r : PixelRect) : Chain clip assets
      [withArgs "scale" s!"{r.width}:{r.height}:force_original_aspect_ratio=decrease",
       withArgs "format" "rgba"] 1 1
  | overSticker {layer : ClipSticker} (h : layer ∈ clip.stickers) (r : PixelRect) :
      Chain clip assets [withArgs "overlay"
        s!"x='{r.x}+({r.width}-w)/2':y='{r.y}+({r.height}-h)/2':{enableText layer.window}"] 2 1
  | grade {filters : List Filter} (h : gradeFilters? clip.grade = some filters) :
      Chain clip assets filters 1 1
  | subtitles {path : String} (h : assets.subtitlePath = some path) :
      Chain clip assets [subtitleFilter path assets.fontsDir] 1 1
  | mark {mark : Watermark} (h : clip.watermark = some mark) (width : Nat) : Chain clip assets
      [withArgs "scale" s!"{width}:-2", withArgs "format" "rgba",
       withArgs "colorchannelmixer" s!"aa={Decimal.fixed 3 mark.opacity}"] 1 1
  | overMark {mark : Watermark} (h : clip.watermark = some mark) (margin : Nat) :
      Chain clip assets [withArgs "overlay" (cornerText mark.corner margin)] 2 1

variable {clip : Clip} {assets : Assets} {b b' : Builder} {pad pad' : Pad}

theorem bands_formed (probe : Probe) (width : Nat) {branches : List (Pad × Region × Nat)}
    {pads : List Pad} (h : ∀ n ∈ b.nodes, n.FormedBy (Chain clip assets))
    (hbands : bands probe width b branches = some (b', pads)) :
    (∀ n ∈ b'.nodes, n.FormedBy (Chain clip assets)) ∧ pads.length = branches.length := by
  induction branches generalizing b pads with
  | nil =>
      cases hbands
      exact ⟨h, rfl⟩
  | cons head rest ih =>
      obtain ⟨branch, subject, height⟩ := head
      obtain ⟨window, -, hbands⟩ := Option.bind_eq_some_iff.mp hbands
      obtain ⟨⟨b₁, pads₁⟩, hlater, hbands⟩ := Option.bind_eq_some_iff.mp hbands
      cases hbands
      obtain ⟨hnodes, hlength⟩ :=
        ih (Builder.formed_node .video .frame _ h (.crop window width height)) hlater
      exact ⟨hnodes, by rw [List.length_cons, List.length_cons, hlength]⟩

theorem frame_formed {probe : Probe} {subjects : List Region}
    (h : ∀ n ∈ b.nodes, n.FormedBy (Chain clip assets))
    (hframe : frame clip probe subjects b pad = some (b', pad')) :
    ∀ n ∈ b'.nodes, n.FormedBy (Chain clip assets) := by
  unfold frame at hframe
  dsimp only at hframe
  split at hframe
  case isTrue =>
    obtain ⟨heights, hheights, hframe⟩ := Option.bind_eq_some_iff.mp hframe
    obtain ⟨⟨b₁, pads⟩, hbands, hframe⟩ := Option.bind_eq_some_iff.mp hframe
    cases hframe
    obtain ⟨hnodes, hlength⟩ := bands_formed probe _
      (Builder.formed_fanOut .video .frame _ h (.split subjects.length)) hbands
    -- there are as many branches as subjects, and at least as many heights
    have hheights := length_of_bandHeights? hheights
    have hcount : pads.length = subjects.length := by
      rw [hlength, List.length_zip, List.length_zip, Builder.length_fanOut]
      omega
    refine Builder.formed_node .video .frame _ hnodes ?_
    rw [hcount]
    exact .stack subjects.length
  case isFalse =>
    obtain ⟨window, -, hframe⟩ := Option.bind_eq_some_iff.mp hframe
    cases hframe
    exact Builder.formed_node .video .frame _ h (.crop window _ _)

theorem tempo_formed (h : ∀ n ∈ b.nodes, n.FormedBy (Chain clip assets)) :
    ∀ n ∈ (tempo clip b pad).1.nodes, n.FormedBy (Chain clip assets) := by
  rw [tempo]
  split
  · exact Builder.formed_node .video .tempo _ h .tempo
  · exact h

theorem motion_formed (h : ∀ n ∈ b.nodes, n.FormedBy (Chain clip assets)) :
    ∀ n ∈ (motion clip assets.autoZoomMax b pad).1.nodes, n.FormedBy (Chain clip assets) := by
  rw [motion]
  split
  case h_1 zoom hzoom => exact Builder.formed_node .video .motion _ h (.motion zoom hzoom)
  case h_2 => exact h

/-- A further input that is prepared and put over the picture. -/
theorem composite_formed {media : MediaInput} {input : Nat} {stream : Pad}
    (htake : (b.addInput media).1.take .video input = .ok (b', stream))
    (h : ∀ n ∈ b.nodes, n.FormedBy (Chain clip assets)) (stage : Stage)
    {filters composite : List Filter} (hfilters : Chain clip assets filters 1 1)
    (hcomposite : Chain clip assets composite 2 1) :
    let (b'', prepared) := b'.node .video stage [stream] filters
    ∀ n ∈ (b''.node .video stage [pad, prepared] composite).1.nodes,
      n.FormedBy (Chain clip assets) := by
  have htaken := Builder.formed_take (b := (b.addInput media).1) h htake
  exact Builder.formed_node .video stage _ (Builder.formed_node .video stage _ htaken hfilters)
    hcomposite

theorem cutaway_formed {layer : ClipCutaway} (hlayer : layer ∈ clip.cutaways)
    (h : ∀ n ∈ b.nodes, n.FormedBy (Chain clip assets))
    (hcutaway : cutaway clip b pad layer = .ok (b', pad')) :
    ∀ n ∈ b'.nodes, n.FormedBy (Chain clip assets) := by
  obtain ⟨r, -, hcutaway⟩ := bind_eq_ok_iff.mp hcutaway
  obtain ⟨⟨b₁, stream⟩, htake, hcutaway⟩ := bind_eq_ok_iff.mp hcutaway
  cases hcutaway
  exact composite_formed htake h .overlay (.cutaway hlayer r) (.overCutaway hlayer r)

theorem sticker_formed {layer : ClipSticker} (hlayer : layer ∈ clip.stickers) {path : String}
    (h : ∀ n ∈ b.nodes, n.FormedBy (Chain clip assets))
    (hsticker : sticker clip b pad layer path = .ok (b', pad')) :
    ∀ n ∈ b'.nodes, n.FormedBy (Chain clip assets) := by
  obtain ⟨r, -, hsticker⟩ := bind_eq_ok_iff.mp hsticker
  obtain ⟨⟨b₁, stream⟩, htake, hsticker⟩ := bind_eq_ok_iff.mp hsticker
  cases hsticker
  exact composite_formed htake h .overlay (.sticker r) (.overSticker hlayer r)

theorem layers_formed {stickerPaths : List String}
    (h : ∀ n ∈ b.nodes, n.FormedBy (Chain clip assets))
    (hlayers : layers clip stickerPaths b pad = .ok (b', pad')) :
    ∀ n ∈ b'.nodes, n.FormedBy (Chain clip assets) := by
  let Formed (s : Builder × Pad) : Prop := ∀ n ∈ s.1.nodes, n.FormedBy (Chain clip assets)
  have hafter : Formed (b', pad') := layers_induction (P := Formed) (s := (b, pad))
    (fun _ _ _ hlayer hs => cutaway_formed hlayer hs)
    (fun _ _ _ hlayer _ hs => sticker_formed hlayer hs) h hlayers
  exact hafter

theorem color_formed (h : ∀ n ∈ b.nodes, n.FormedBy (Chain clip assets)) :
    ∀ n ∈ (color clip b pad).1.nodes, n.FormedBy (Chain clip assets) := by
  unfold color
  split
  case h_1 filters hfilters => exact Builder.formed_node .video .color _ h (.grade hfilters)
  case h_2 => exact h

theorem subtitles_formed (h : ∀ n ∈ b.nodes, n.FormedBy (Chain clip assets)) :
    ∀ n ∈ (subtitles assets b pad).1.nodes, n.FormedBy (Chain clip assets) := by
  unfold subtitles
  split
  case h_1 path hpath => exact Builder.formed_node .video .subtitle _ h (.subtitles hpath)
  case h_2 => exact h

theorem watermark_formed (h : ∀ n ∈ b.nodes, n.FormedBy (Chain clip assets))
    (hmark : watermark clip b pad = .ok (b', pad')) :
    ∀ n ∈ b'.nodes, n.FormedBy (Chain clip assets) := by
  unfold watermark at hmark
  split at hmark
  case h_1 =>
    cases hmark
    exact h
  case h_2 mark hsome =>
    obtain ⟨⟨b₁, stream⟩, htake, hmark⟩ := bind_eq_ok_iff.mp hmark
    cases hmark
    exact composite_formed htake h .watermark (.mark hsome _) (.overMark hsome _)

/-- The picture of a clip has no other chains. -/
theorem build_formed {probe : Probe} {subjects : List Region} {g : Graph}
    (h : build clip probe subjects assets = .ok g) :
    ∀ n ∈ g.nodes, n.FormedBy (Chain clip assets) := by
  obtain ⟨⟨b₀, source⟩, htake, h⟩ := bind_eq_ok_iff.mp h
  obtain ⟨⟨b₁, pad₁⟩, hframe, h⟩ := bind_eq_ok_iff.mp h
  obtain ⟨⟨b₂, pad₂⟩, hlayers, h⟩ := bind_eq_ok_iff.mp h
  obtain ⟨⟨b₃, pad₃⟩, hmark, h⟩ := bind_eq_ok_iff.mp h
  cases h
  have hsource : ∀ n ∈ b₀.nodes, n.FormedBy (Chain clip assets) :=
    Builder.formed_take (by simp [Builder.new]) htake
  have hframed := frame_formed hsource (Outcome.ofOption_eq_ok_iff.mp hframe)
  have hlayered := layers_formed (motion_formed (tempo_formed hframed)) hlayers
  exact watermark_formed (subtitles_formed (color_formed hlayered)) hmark

end Video

/-! ## The sound -/

namespace Audio

/-- The chains of the sound: the source or silence, then what is mixed with it. -/
inductive Chain (clip : Clip) : List Filter → Nat → Nat → Prop where
  | source (volume : Binary64) : Chain clip
      ([withArgs "volume" (Decimal.fixed 3 volume)] ++
        (Tempo.factors clip.speed).map (fun f => withArgs "atempo" (Decimal.fixed 6 f)) ++
        [sampleFormat]) 1 1
  | silence : Chain clip
      [withArgs "anullsrc" "r=48000:cl=stereo",
       withArgs "atrim" s!"duration={Decimal.fixed 3 clip.durationSeconds}"] 0 1
  | enhance : Chain clip
      [withArgs "highpass" "f=80", withArgs "afftdn" "nf=-25",
       withArgs "loudnorm" "I=-16:TP=-1.5:LRA=11"] 1 1
  | music {music : Music} (h : clip.music = some music) :
      Chain clip (musicFilters clip music) 1 1
  | flat : Chain clip [withArgs "amix"
      s!"inputs=2:duration=first:weights='1 {Decimal.plain musicWeight}':normalize=0"] 2 1
  | duck : Chain clip [withArgs "sidechaincompress"
      "threshold=0.05:ratio=8:attack=20:release=300"] 2 1
  | copies (count : Nat) : Chain clip [withArgs "asplit" (toString count)] 1 count
  | delay (onset : Nat) :
      Chain clip [withArgs "adelay" s!"delays={onset}:all=1", sampleFormat] 1 1
  | mix (count : Nat) :
      Chain clip [withArgs "amix" s!"inputs={count}:duration=first:normalize=0"] count 1

variable {clip : Clip} {b b' : Builder} {pad pad' : Pad}

theorem primary_formed {probe : Probe} (h : ∀ n ∈ b.nodes, n.FormedBy (Chain clip))
    (hprimary : primary clip probe b = .ok (b', pad')) :
    ∀ n ∈ b'.nodes, n.FormedBy (Chain clip) := by
  rw [primary] at hprimary
  split at hprimary
  case isTrue =>
    obtain ⟨⟨b₁, source⟩, htake, hprimary⟩ := bind_eq_ok_iff.mp hprimary
    cases hprimary
    exact Builder.formed_node .audio .primary _ (Builder.formed_take h htake) (.source _)
  case isFalse =>
    cases hprimary
    exact Builder.formed_node .audio .primary _ h .silence

theorem enhance_formed (h : ∀ n ∈ b.nodes, n.FormedBy (Chain clip)) :
    ∀ n ∈ (enhance clip b pad).1.nodes, n.FormedBy (Chain clip) := by
  rw [enhance]
  split
  · exact Builder.formed_node .audio .enhance _ h .enhance
  · exact h

theorem mixDucked_formed {prepared : Pad} (h : ∀ n ∈ b.nodes, n.FormedBy (Chain clip))
    (hmix : mixDucked b pad prepared = .ok (b', pad')) :
    ∀ n ∈ b'.nodes, n.FormedBy (Chain clip) := by
  cases hmix
  have hsplit := Builder.formed_fanOut .audio .mix [pad] h (.copies 2)
  exact Builder.formed_node .audio .mix _ (Builder.formed_node .audio .mix _ hsplit .duck) (.mix 2)

theorem addMusic_formed (h : ∀ n ∈ b.nodes, n.FormedBy (Chain clip))
    (hmusic : addMusic clip b pad = .ok (b', pad')) :
    ∀ n ∈ b'.nodes, n.FormedBy (Chain clip) := by
  unfold addMusic at hmusic
  split at hmusic
  case h_1 =>
    cases hmusic
    exact h
  case h_2 music hsome =>
    obtain ⟨⟨b₁, media⟩, htake, hmusic⟩ := bind_eq_ok_iff.mp hmusic
    have htaken := Builder.formed_take
      (b := (b.addInput (.loopedAudio music.path music.offsetMs)).1) h htake
    have hprepared := Builder.formed_node .audio .music [media] htaken (.music hsome)
    dsimp only at hmusic
    split at hmusic
    · exact mixDucked_formed hprepared hmusic
    · cases hmusic
      exact Builder.formed_node .audio .mix _ hprepared .flat

theorem delays_formed (copies : List (Pad × Nat)) (h : ∀ n ∈ b.nodes, n.FormedBy (Chain clip)) :
    (∀ n ∈ (delays b copies).1.nodes, n.FormedBy (Chain clip)) ∧
      (delays b copies).2.length = copies.length := by
  induction copies generalizing b with
  | nil => exact ⟨h, rfl⟩
  | cons head rest ih =>
      obtain ⟨copy, onset⟩ := head
      obtain ⟨hnodes, hlength⟩ := ih (Builder.formed_node .audio .sfx [copy] h
        (.delay onset))
      exact ⟨hnodes, congrArg (· + 1) hlength⟩

theorem copies_formed (sound : Pad) {count : Nat} (hcount : count ≠ 0)
    (h : ∀ n ∈ b.nodes, n.FormedBy (Chain clip)) :
    (∀ n ∈ (copies b sound count).1.nodes, n.FormedBy (Chain clip)) ∧
      (copies b sound count).2.length = count := by
  rw [copies]
  split
  · exact ⟨Builder.formed_fanOut .audio .sfx _ h (.copies count), Builder.length_fanOut⟩
  · refine ⟨h, ?_⟩
    change 1 = count
    omega

theorem addEffects_formed {soundPath : Option String}
    (h : ∀ n ∈ b.nodes, n.FormedBy (Chain clip))
    (heffects : addEffects clip soundPath b pad = .ok (b', pad')) :
    ∀ n ∈ b'.nodes, n.FormedBy (Chain clip) := by
  unfold addEffects at heffects
  dsimp only at heffects
  split at heffects
  case h_2 =>
    cases heffects
    exact h
  case h_1 path _ =>
    split at heffects
    case isTrue =>
      cases heffects
      exact h
    case isFalse honsets =>
      obtain ⟨⟨b₁, sound⟩, htake, heffects⟩ := bind_eq_ok_iff.mp heffects
      cases heffects
      have htaken := Builder.formed_take (b := (b.addInput { path }).1) h htake
      obtain ⟨hcopies, hcount⟩ := copies_formed sound
        (mt List.length_eq_zero_iff.mp honsets) htaken
      obtain ⟨hdelays, hlength⟩ :=
        delays_formed ((copies b₁ sound clip.onsets.length).2.zip clip.onsets) hcopies
      refine Builder.formed_node .audio .sfx _ hdelays ?_
      rw [List.length_cons, hlength, List.length_zip, hcount, Nat.min_self]
      exact .mix _

/-- The sound of a clip has no other chains. -/
theorem build_formed {probe : Probe} {soundPath : Option String} {g : Graph}
    (h : build clip probe soundPath = .ok g) : ∀ n ∈ g.nodes, n.FormedBy (Chain clip) := by
  obtain ⟨⟨b₁, pad₁⟩, hprimary, h⟩ := bind_eq_ok_iff.mp h
  obtain ⟨⟨b₂, pad₂⟩, hmusic, h⟩ := bind_eq_ok_iff.mp h
  obtain ⟨⟨b₃, pad₃⟩, heffects, h⟩ := bind_eq_ok_iff.mp h
  cases h
  have hsource : ∀ n ∈ b₁.nodes, n.FormedBy (Chain clip) :=
    primary_formed (by simp [Builder.new]) hprimary
  exact addEffects_formed (addMusic_formed (enhance_formed hsource) hmusic) heffects

end Audio

/-! ## The program -/

/-- A node of a program has a chain of the picture or one of the sound. -/
theorem Program.formed_of_compile {clip : Clip} {probe : Probe} {subjects : List Region}
    {assets : Assets} {p : Program} (h : compile clip probe subjects assets = .ok p) :
    ∀ n ∈ p.graph.nodes, n.FormedBy (Video.Chain clip assets) ∨ n.FormedBy (Audio.Chain clip) := by
  obtain ⟨video, audio, hvideo, haudio, hunion⟩ := compile_eq_ok h
  rw [hunion]
  refine List.forall_mem_append.mpr ⟨fun n hn => .inl (Video.build_formed hvideo n hn), ?_⟩
  intro n hn
  obtain ⟨m, hm, rfl⟩ := List.mem_map.mp hn
  refine .inr ?_
  rw [Node.FormedBy, shiftNode, List.length_map]
  exact Audio.build_formed haudio m hm

end Montage
