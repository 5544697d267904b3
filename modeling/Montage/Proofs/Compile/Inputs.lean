import Montage.Proofs.Compile.Stages

/-! # The inputs of a program

A program reads the trimmed source, then what is put over its picture, then what is mixed into its
sound. -/

namespace Montage

namespace Audio

variable {b b' : Builder} {pad pad' prepared : Pad} {clip : Clip}

/-- The sound file that is read for the captions of a clip, if it is asked for and there are
onsets. -/
def effectInputs (clip : Clip) (soundPath : Option String) : List MediaInput :=
  if clip.soundEffects ∧ clip.onsets ≠ [] then soundPath.toList.map fun path => { path } else []

/-- The further inputs of the sound: its music, and a sound for the captions. -/
def furtherInputs (clip : Clip) (soundPath : Option String) : List MediaInput :=
  clip.music.toList.map (fun music => .loopedAudio music.path music.offsetMs) ++
    effectInputs clip soundPath

theorem primary_inputs {probe : Probe} (h : primary clip probe b = .ok (b', pad)) :
    b'.inputs = b.inputs := by
  rw [primary] at h
  split at h
  case isTrue =>
    obtain ⟨⟨b₁, source⟩, htake, h⟩ := bind_eq_ok_iff.mp h
    cases h
    exact (Builder.take_eq_ok htake).1
  case isFalse =>
    cases h
    rfl

theorem enhance_inputs (clip : Clip) (b : Builder) (pad : Pad) :
    (enhance clip b pad).1.inputs = b.inputs := by
  rw [enhance]
  split
  · exact b.skipLabels_inputs .audio 1
  · rfl

theorem mixDucked_inputs (h : mixDucked b pad prepared = .ok (b', pad')) :
    b'.inputs = b.inputs := by
  rw [mixDucked] at h
  split at h
  case h_1 b₁ main reference _ hsplit =>
    cases h
    change b₁.inputs = b.inputs
    rw [← Builder.fanOut_inputs (b := b), hsplit]
  case h_2 => cases h

theorem addMusic_inputs (h : addMusic clip b pad = .ok (b', pad')) :
    b'.inputs = b.inputs ++
      clip.music.toList.map fun music => .loopedAudio music.path music.offsetMs := by
  rw [addMusic] at h
  cases hmusic : clip.music with
  | none =>
      rw [hmusic] at h
      cases h
      simp
  | some music =>
      rw [hmusic] at h
      obtain ⟨⟨b₁, media⟩, htake, h⟩ := bind_eq_ok_iff.mp h
      have hinputs := (Builder.take_eq_ok htake).1
      dsimp only at h
      split at h
      case isTrue =>
        rw [mixDucked_inputs h]
        exact hinputs
      case isFalse =>
        cases h
        exact hinputs

theorem copies_inputs (b : Builder) (sound : Pad) (n : Nat) :
    (copies b sound n).1.inputs = b.inputs := by
  rw [copies]
  split
  · exact Builder.fanOut_inputs
  · rfl

theorem delays_inputs (b : Builder) (copies : List (Pad × Nat)) :
    (delays b copies).1.inputs = b.inputs := by
  induction copies generalizing b with
  | nil => rfl
  | cons head rest ih =>
      rw [delays, ih]
      rfl

theorem addEffects_inputs {soundPath : Option String}
    (h : addEffects clip soundPath b pad = .ok (b', pad')) :
    b'.inputs = b.inputs ++ effectInputs clip soundPath := by
  rw [effectInputs]
  unfold addEffects at h
  dsimp only at h
  split at h
  case h_1 path hasked =>
    split at h
    case isTrue hnone =>
      cases h
      simp [hnone]
    case isFalse honsets =>
      obtain ⟨⟨b₁, sound⟩, htake, h⟩ := bind_eq_ok_iff.mp h
      cases h
      rw [if_pos ⟨hasked, honsets⟩]
      simp [delays_inputs, copies_inputs, (Builder.take_eq_ok htake).1, Builder.addInput]
  case h_2 hother =>
    cases h
    split
    case isTrue hasked =>
      rw [Option.eq_none_iff_forall_ne_some.mpr fun path => hother path hasked.1]
      simp
    case isFalse => simp

theorem inputs_of_compile {probe : Probe} {soundPath : Option String} {g : Graph}
    (h : compile clip probe soundPath = .ok g) :
    g.inputs = clip.sourceInput :: furtherInputs clip soundPath := by
  obtain ⟨g', hbuild, hchecked⟩ := bind_eq_ok_iff.mp h
  obtain ⟨-, rfl⟩ := Graph.ofExcept_checked_eq_ok hchecked
  obtain ⟨⟨b₁, pad₁⟩, hprimary, hbuild⟩ := bind_eq_ok_iff.mp hbuild
  obtain ⟨⟨b₂, pad₂⟩, hmusic, hbuild⟩ := bind_eq_ok_iff.mp hbuild
  obtain ⟨⟨b₃, pad₃⟩, heffects, hbuild⟩ := bind_eq_ok_iff.mp hbuild
  cases hbuild
  have hplayed : addMusic clip (enhance clip b₁ pad₁).1 (enhance clip b₁ pad₁).2 =
    .ok (b₂, pad₂) := hmusic
  calc b₃.inputs
      = b₂.inputs ++ effectInputs clip soundPath := addEffects_inputs heffects
    _ = clip.sourceInput :: furtherInputs clip soundPath := by
        rw [addMusic_inputs hplayed, enhance_inputs, primary_inputs hprimary, List.append_assoc]
        rfl

end Audio

/-- With an image for each sticker, the program reads the source, the further inputs of the picture
and those of the sound. -/
theorem Program.inputs_of_compile {clip : Clip} {probe : Probe} {subjects : List Region}
    {assets : Assets} {p : Program} (hcount : assets.stickerPaths.length = clip.stickers.length)
    (h : compile clip probe subjects assets = .ok p) :
    p.graph.inputs = clip.sourceInput :: (Video.furtherInputs clip assets ++
      Audio.furtherInputs clip assets.soundEffectPath) := by
  obtain ⟨video, audio, hvideo, haudio, hmerge⟩ := exists_merge_of_compile h
  obtain ⟨_, _, _, _, hstaged⟩ := Video.staged_of_compile hcount hvideo
  obtain ⟨-, -, rfl⟩ := merge_eq_ok_iff.mp hmerge
  rw [union, hstaged.inputs, Audio.inputs_of_compile haudio]
  rfl

end Montage
