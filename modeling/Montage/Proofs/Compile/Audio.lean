import Montage.Compile.Program
import Montage.Proofs.Compile.Track

/-! # The sound is well wired

Each stage of the sound takes a track that ends in its pad to another one; there is no clip for
which a stage fails. -/

namespace Montage.Audio

open Builder (Track Ends)

variable {media : MediaInput} {b : Builder} {pad : Pad}

/-- The first node is there whether or not the source has sound. -/
theorem primary_ends (clip : Clip) (probe : Probe) (media : MediaInput) :
    ∃ b pad, primary clip probe (Builder.new media) = .ok (b, pad) ∧
      b.Ends .audio media pad := by
  have hnew := Track.new .audio media
  rw [primary]
  split
  · obtain ⟨b, source, htake, htrack⟩ := hnew.take 0 (by simp [Builder.new])
      (by simp [Builder.new])
    rw [htake]
    exact ⟨_, _, rfl, htrack.ends .primary _ (by simp)⟩
  · exact ⟨_, _, rfl, hnew.ends .primary _ (by simp)⟩

theorem enhance_ends (clip : Clip) (h : b.Ends .audio media pad) :
    (enhance clip b pad).1.Ends .audio media (enhance clip b pad).2 := by
  rw [enhance]
  split
  · exact h.track.ends .enhance _ (by simp)
  · exact h

theorem mixFlat_ends {prepared : Pad} (h : b.Track .audio media [pad, prepared]) :
    (mixFlat b pad prepared).1.Ends .audio media (mixFlat b pad prepared).2 :=
  h.ends .mix _ (by simp)

/-- One copy of the sound is heard and the other pushes the music down. -/
theorem mixDucked_ends {prepared : Pad} (h : b.Track .audio media [pad, prepared]) :
    ∃ b' pad', mixDucked b pad prepared = .ok (b', pad') ∧ b'.Ends .audio media pad' := by
  have hsplit := Track.fanOut [pad] h .mix [.withArgs "asplit" "2"] (by simp) 2
  have hducked := Track.node [prepared, _] (hsplit.perm (List.reverse_perm _).symm) .mix
    [.withArgs "sidechaincompress" "threshold=0.05:ratio=8:attack=20:release=300"] (by simp)
  exact ⟨_, _, rfl, (hducked.perm (List.Perm.swap _ _ _)).ends .mix _ (by simp)⟩

/-- The music reads a further input, which is free. -/
theorem addMusic_ends (clip : Clip) (h : b.Ends .audio media pad) :
    ∃ b' pad', addMusic clip b pad = .ok (b', pad') ∧ b'.Ends .audio media pad' := by
  rw [addMusic]
  split
  case h_1 => exact ⟨b, pad, rfl, h⟩
  case h_2 music hmusic =>
    obtain ⟨b', input, htake, htrack⟩ :=
      h.track.take_addInput (.loopedAudio music.path music.offsetMs)
    have hmusic := Track.node [input] htrack .music (musicFilters clip music)
      (by simp [musicFilters])
    have hprepared := hmusic.perm (List.Perm.swap _ _ _)
    simp only [Builder.addInput, bind, Except.bind] at htake ⊢
    rw [htake]
    dsimp only
    split
    · exact mixDucked_ends hprepared
    · exact ⟨_, _, rfl, mixFlat_ends hprepared⟩

/-- Each copy is delayed and none is dropped. -/
theorem delays_track {held : List Pad} {copies : List (Pad × Nat)}
    (h : b.Track .audio media (copies.map Prod.fst ++ held)) :
    (delays b copies).1.Track .audio media ((delays b copies).2 ++ held) := by
  induction copies generalizing b held with
  | nil => exact h
  | cons head rest ih =>
      obtain ⟨copy, onset⟩ := head
      have hnode := Track.node [copy] h .sfx
        [.withArgs "adelay" s!"delays={onset}:all=1", sampleFormat] (by simp)
      have hrest := ih (hnode.perm List.perm_middle.symm)
      exact hrest.perm List.perm_middle

/-- There are as many copies as asked for, and at least one. -/
theorem copies_track {held : List Pad} {sound : Pad} (n : Nat) (hn : n ≠ 0)
    (h : b.Track .audio media (sound :: held)) :
    (copies b sound n).1.Track .audio media ((copies b sound n).2 ++ held) ∧
      (copies b sound n).2.length = n := by
  rw [copies]
  split
  · refine ⟨Track.fanOut [sound] h .sfx _ (by simp) n, ?_⟩
    exact Builder.length_fanOut
  · refine ⟨h, ?_⟩
    change 1 = n
    omega

theorem addEffects_ends (clip : Clip) (soundPath : Option String)
    (h : b.Ends .audio media pad) :
    ∃ b' pad', addEffects clip soundPath b pad = .ok (b', pad') ∧
      b'.Ends .audio media pad' := by
  unfold addEffects
  split
  case h_2 => exact ⟨b, pad, rfl, h⟩
  case h_1 path _ =>
    dsimp only
    split
    case isTrue => exact ⟨b, pad, rfl, h⟩
    case isFalse honsets =>
      obtain ⟨b', sound, htake, htrack⟩ := h.track.take_addInput { path }
      obtain ⟨hcopies, hlength⟩ := copies_track clip.onsets.length
        (by simpa [List.length_eq_zero_iff] using honsets) htrack
      have hzip := List.map_fst_zip (Nat.le_of_eq hlength)
      rw [← hzip] at hcopies
      have hdelays := delays_track hcopies
      simp only [Builder.addInput, bind, Except.bind] at htake ⊢
      rw [htake]
      exact ⟨_, _, rfl, (hdelays.perm List.perm_append_comm).ends .sfx _ (by simp)⟩

/-- The sound of any clip can be built, and ends in the pad that leaves the graph. -/
theorem build_ends (clip : Clip) (probe : Probe) (soundPath : Option String) :
    ∃ (b : Builder) (pad : Pad), build clip probe soundPath = .ok (b.finish none (some pad)) ∧
      b.Ends .audio clip.sourceInput pad := by
  obtain ⟨b₁, pad₁, hprimary, hends⟩ := primary_ends clip probe clip.sourceInput
  obtain ⟨b₂, pad₂, hmusic, hends⟩ := addMusic_ends clip (enhance_ends clip hends)
  obtain ⟨b₃, pad₃, heffects, hends⟩ := addEffects_ends clip soundPath hends
  refine ⟨b₃, pad₃, ?_, hends⟩
  simp [build, hprimary, hmusic, heffects, bind, Except.bind, pure, Except.pure]

end Montage.Audio
