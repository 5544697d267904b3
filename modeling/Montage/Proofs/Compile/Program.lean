import Montage.Compile.Program
import Montage.Proofs.Clip.Translation
import Montage.Proofs.Compile.Audio
import Montage.Proofs.Compile.Video
import Montage.Proofs.Graph.Merging

/-! # The program of an accepted edit

Picture and sound are tracks of different kinds, so that their union is well wired. -/

namespace Montage

/-- The nodes of a graph that declare a pad of a kind, in order. -/
def Graph.nodesOf (g : Graph) (kind : Stream) : List Node :=
  g.nodes.filter fun n => n.outputs.any fun pad => pad.kind = kind

/-- The program is wired and reads the trimmed source first. What leaves it is the output of the
last node of either kind. -/
structure Program.Compiled (e : Edit) (p : Program) : Prop where
  wired : p.graph.check = .ok ()
  source : p.graph.inputs.head? =
    some (.trimmed e.sourcePath e.trimStartMs (e.trimEndMs - e.trimStartMs))
  picture : ∃ n pad, (p.graph.nodesOf .video).getLast? = some n ∧ n.outputs = [pad] ∧
    p.graph.videoOut = some pad
  sound : ∃ n pad, (p.graph.nodesOf .audio).getLast? = some n ∧ n.outputs = [pad] ∧
    p.graph.audioOut = some pad

/-- A graph that passes the check is the outcome of checking it. -/
theorem Graph.ofExcept_checked {g : Graph} (h : g.check = .ok ()) :
    Outcome.ofExcept (g.checked.mapError WiringFault.toFault) = .ok g := by
  rw [checked, h]
  rfl

/-- The outcome of checking a graph is the graph, if it passes. -/
theorem Graph.ofExcept_checked_eq_ok {g g' : Graph}
    (h : Outcome.ofExcept (g.checked.mapError WiringFault.toFault) = .ok g') :
    g.check = .ok () ∧ g' = g := by
  rw [checked] at h
  cases hcheck : g.check with
  | error fault => rw [hcheck] at h; cases h
  | ok =>
      rw [hcheck] at h
      cases h
      exact ⟨rfl, rfl⟩

/-! ## The two graphs -/

theorem Video.compile_ends {clip : Clip} (hclip : Placeable clip) (probe : Probe)
    {subjects : List Region} (hsubjects : subjects.length < 2147483648) {assets : Assets}
    (hcount : assets.stickerPaths.length = clip.stickers.length) :
    ∃ (b : Builder) (pad : Pad),
      compile clip probe subjects assets = .ok (b.finish (some pad) none) ∧
        b.Ends .video clip.sourceInput pad := by
  obtain ⟨b, pad, hbuild, hends⟩ := (build_ends hclip probe hsubjects).1 hcount
  refine ⟨b, pad, ?_, hends⟩
  rw [compile, hbuild]
  exact Graph.ofExcept_checked hends.check_video

theorem Audio.compile_ends (clip : Clip) (probe : Probe) (soundPath : Option String) :
    ∃ (b : Builder) (pad : Pad),
      compile clip probe soundPath = .ok (b.finish none (some pad)) ∧
        b.Ends .audio clip.sourceInput pad := by
  obtain ⟨b, pad, hbuild, hends⟩ := build_ends clip probe soundPath
  refine ⟨b, pad, ?_, hends⟩
  rw [compile, hbuild]
  exact Graph.ofExcept_checked hends.check_audio

/-! ## Their union -/

namespace Builder.Ends

variable {media : MediaInput} {v a : Builder} {picture sound : Pad}

/-- Tracks of different kinds have only the source in common. -/
theorem separate (hv : v.Ends .video media picture) (ha : a.Ends .audio media sound) :
    Program.Separate (v.finish (some picture) none) (a.finish none (some sound)) where
  source := by
    intro _ hnil
    have hsource := hv.track.source
    rw [show v.inputs = [] from hnil] at hsource
    cases hsource
  video_reads := fun pad hpad => hv.track.kind_reads hpad
  audio_reads := fun pad hpad => ha.track.kind_reads hpad
  labels := by
    intro l hvideo haudio
    obtain ⟨n, rfl⟩ := hv.track.label_declares hvideo
    obtain ⟨n', heq⟩ := ha.track.label_declares haudio
    cases (label_inj.mp heq).1
  no_sound := rfl
  no_picture := rfl
  sound := by
    obtain ⟨l, rfl⟩ := ha.eq_link
    exact ⟨l, rfl⟩

theorem sameSource (hv : v.Ends .video media picture) (ha : a.Ends .audio media sound) :
    Program.sameSource (v.finish (some picture) none) (a.finish none (some sound)) := by
  have hvideo : (v.finish (some picture) none).inputs.head? = some media := hv.track.source
  have haudio : (a.finish none (some sound)).inputs.head? = some media := ha.track.source
  simp [Program.sameSource, hvideo, haudio, Path.same]

/-- Two tracks from one source have a program. -/
theorem merge (hv : v.Ends .video media picture) (ha : a.Ends .audio media sound)
    (durationMs : Nat) :
    Program.merge (v.finish (some picture) none) (a.finish none (some sound)) durationMs =
      .ok { graph := Program.union (v.finish (some picture) none) (a.finish none (some sound))
            durationMs } := by
  refine Program.merge_eq_ok_iff.mpr ⟨hv.sameSource ha, ?_, rfl⟩
  exact ((hv.separate ha).wellWired (Graph.wellWired_of_check hv.check_video)
    (Graph.wellWired_of_check ha.check_audio)).check

/-- The last node of a track is the last that declares a pad of its kind. -/
theorem last_filter {kind : Stream} {b : Builder} {pad : Pad} (h : b.Ends kind media pad) :
    ∃ n, (b.nodes.filter fun n => n.outputs.any fun pad => pad.kind = kind).getLast? = some n ∧
      n.outputs = [pad] := by
  obtain ⟨n, hn, hout⟩ := h.last
  obtain ⟨before, hbefore⟩ := List.getLast?_eq_some_iff.mp hn
  refine ⟨n, ?_, hout⟩
  rw [hbefore, List.filter_append]
  simp [hout, h.kind_eq]

/-- No node of a track declares a pad of another kind. -/
theorem filter_eq_nil {kind other : Stream} {b : Builder} {pad : Pad} (h : b.Ends kind media pad)
    (hother : kind ≠ other) :
    (b.nodes.filter fun n => n.outputs.any fun pad => pad.kind = other) = [] := by
  rw [List.filter_eq_nil_iff]
  intro n hn hany
  obtain ⟨p, hp, hkind⟩ := List.any_eq_true.mp hany
  have hgiven : p ∈ b.given := List.mem_append_right _ (List.mem_flatMap.mpr ⟨n, hn, hp⟩)
  exact hother ((h.track.kinds p hgiven).symm.trans (of_decide_eq_true hkind))

end Builder.Ends

namespace Program

/-- A program is what the graphs of picture and sound are merged to. -/
theorem exists_merge_of_compile {clip : Clip} {probe : Probe} {subjects : List Region}
    {assets : Assets} {p : Program} (h : compile clip probe subjects assets = .ok p) :
    ∃ video audio, Video.compile clip probe subjects assets = .ok video ∧
      Audio.compile clip probe assets.soundEffectPath = .ok audio ∧
      merge video audio clip.durationMs = .ok p := by
  rw [compile] at h
  split at h
  case h_1 => cases h
  case h_2 => cases h
  case h_3 video hvideo =>
    obtain ⟨audio, haudio, h⟩ := bind_eq_ok_iff.mp h
    refine ⟨video, audio, hvideo, haudio, ?_⟩
    cases hmerge : merge video audio clip.durationMs with
    | error fault => rw [hmerge] at h; cases h
    | ok merged =>
        rw [hmerge] at h
        cases h
        rfl

/-- A program is the union of the two graphs that were built. -/
theorem compile_eq_ok {clip : Clip} {probe : Probe} {subjects : List Region} {assets : Assets}
    {p : Program} (h : compile clip probe subjects assets = .ok p) :
    ∃ video audio, Video.build clip probe subjects assets = .ok video ∧
      Audio.build clip probe assets.soundEffectPath = .ok audio ∧
      p.graph = union video audio := by
  obtain ⟨video, audio, hvideo, haudio, hmerge⟩ := exists_merge_of_compile h
  obtain ⟨v, hv, hvideo⟩ := bind_eq_ok_iff.mp hvideo
  obtain ⟨a, ha, haudio⟩ := bind_eq_ok_iff.mp haudio
  obtain ⟨-, rfl⟩ := Graph.ofExcept_checked_eq_ok hvideo
  obtain ⟨-, rfl⟩ := Graph.ofExcept_checked_eq_ok haudio
  obtain ⟨-, -, rfl⟩ := merge_eq_ok_iff.mp hmerge
  exact ⟨video, audio, hv, ha, rfl⟩

/-- A program is wired. -/
theorem check_of_compile {clip : Clip} {probe : Probe} {subjects : List Region} {assets : Assets}
    {p : Program} (h : compile clip probe subjects assets = .ok p) : p.graph.check = .ok () := by
  obtain ⟨_, _, -, -, hmerge⟩ := exists_merge_of_compile h
  obtain ⟨-, hcheck, rfl⟩ := merge_eq_ok_iff.mp hmerge
  exact hcheck

theorem nodesOf_union (video audio : Graph) (kind : Stream) :
    (union video audio).nodesOf kind = video.nodesOf kind ++
      (audio.nodesOf kind).map (shiftNode video.nodes.length (video.inputs.length - 1)) := by
  rw [Graph.nodesOf, union, List.filter_append, List.filter_map]
  rfl

theorem compiled_union {e : Edit} {clip : Clip} (hclip : Clip.ofEdit e = .ok clip)
    {v a : Builder} {picture sound : Pad} (hv : v.Ends .video clip.sourceInput picture)
    (ha : a.Ends .audio clip.sourceInput sound) (durationMs : Nat) :
    Compiled e { graph := union (v.finish (some picture) none) (a.finish none (some sound))
                 durationMs } where
  wired := (merge_eq_ok_iff.mp (hv.merge ha durationMs)).2.1
  source := by
    have hsource : (v.finish (some picture) none).inputs.head? = some clip.sourceInput :=
      hv.track.source
    rw [← Clip.sourceInput_ofEdit hclip, union, List.head?_append, hsource]
    rfl
  picture := by
    obtain ⟨n, hlast, hout⟩ := hv.last_filter
    refine ⟨n, picture, ?_, hout, rfl⟩
    have hnone : (a.finish none (some sound)).nodesOf .video = [] :=
      ha.filter_eq_nil (by decide)
    rw [nodesOf_union, hnone, List.map_nil, List.append_nil]
    exact hlast
  sound := by
    obtain ⟨n, hlast, hout⟩ := ha.last_filter
    refine ⟨shiftNode v.nodes.length (v.inputs.length - 1) n, sound, ?_, hout, rfl⟩
    have hnone : (v.finish (some picture) none).nodesOf .audio = [] :=
      hv.filter_eq_nil (by decide)
    rw [nodesOf_union, hnone, List.nil_append, List.getLast?_map]
    exact congrArg (Option.map _) hlast

/-- With an image for each sticker, picture and sound can be made and merged. -/
theorem exists_compiled {e : Edit} {clip : Clip} (hclip : Clip.ofEdit e = .ok clip)
    (probe : Probe) (subjects : List Region) (hsubjects : subjects.length < 2147483648)
    (assets : Assets) (hcount : assets.stickerPaths.length = clip.stickers.length) :
    ∃ p, compile clip probe subjects assets = .ok p ∧ Compiled e p := by
  obtain ⟨v, picture, hvideo, hv⟩ :=
    Video.compile_ends (Video.placeable_ofEdit hclip) probe hsubjects hcount
  obtain ⟨a, sound, haudio, ha⟩ := Audio.compile_ends clip probe assets.soundEffectPath
  refine ⟨_, ?_, compiled_union hclip hv ha clip.durationMs⟩
  rw [compile, hvideo]
  simp [haudio, hv.merge ha, bind, Except.bind, Except.mapError, Outcome.ofExcept]

/-- An accepted edit has a program, whatever is known of its source and wherever its subjects
are, exactly if there is an image for each sticker. Otherwise the fault says how many there are of
both. -/
theorem compile_ofEdit {e : Edit} {clip : Clip} (hclip : Clip.ofEdit e = .ok clip)
    (probe : Probe) (subjects : List Region) (hsubjects : subjects.length < 2147483648)
    (assets : Assets) :
    (assets.stickerPaths.length = clip.stickers.length →
      ∃ p, compile clip probe subjects assets = .ok p ∧ Compiled e p) ∧
    (assets.stickerPaths.length ≠ clip.stickers.length →
      compile clip probe subjects assets = .fail (.graph
        (Video.imageCountText clip.stickers.length assets.stickerPaths.length))) := by
  constructor
  · exact exists_compiled hclip probe subjects hsubjects assets
  · intro hcount
    have hbuild := (Video.build_ends (Video.placeable_ofEdit hclip) probe hsubjects).2 hcount
    rw [compile, Video.compile, hbuild]
    rfl

/-- A minute of a file of no size, with an image too many. -/
theorem compile_ofEdit_of_minute :
    let e : Edit :=
      { sourcePath := "/media/in.mp4", trimStartMs := 0, trimEndMs := 60000, canvas := .portrait }
    let probe : Probe :=
      { width := 0, height := 0, durationMs := none, hasAudio := true, probed := false }
    ∃ clip, Clip.ofEdit e = .ok clip ∧
      (∃ p, compile clip probe [] {} = .ok p ∧ Compiled e p) ∧
      compile clip probe [] { stickerPaths := ["/tmp/s.png"] } =
        .fail (.graph (Video.imageCountText 0 1)) := by
  intro e probe
  have hok : (Clip.ofEdit e).isOk := by decide +kernel
  cases hclip : Clip.ofEdit e with
  | error failure => rw [hclip] at hok; cases hok
  | ok clip =>
      have hstickers : clip.stickers = [] := by
        obtain ⟨-, ordered, cutaways, stickers, -, -, hmap, rfl⟩ := Clip.ofEdit_eq_ok hclip
        exact List.map_eq_nil_iff.mp hmap.symm
      have hfault := (compile_ofEdit hclip probe [] (by decide)
        { stickerPaths := ["/tmp/s.png"] }).2 (by rw [hstickers]; decide)
      rw [hstickers] at hfault
      refine ⟨clip, rfl, ?_, hfault⟩
      exact (compile_ofEdit hclip probe [] (by decide) {}).1 (by rw [hstickers]; rfl)

end Program

end Montage
