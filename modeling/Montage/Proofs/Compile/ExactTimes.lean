import Montage.Proofs.Compile.Times

/-! # Times that are exact

Up to `2 ^ 50` milliseconds each time of a program is written with the milliseconds that are meant,
three places after the point. The fades of music stay within the clip and do not overlap. -/

namespace Montage

open Montage.Filter (withArgs)
open Decimal (thousandths?)

/-! ## The times of a clip -/

namespace Clip

variable {e : Edit} {clip : Clip}

/-- A cutaway begins no later in its file than it is told to, plus what the trim cuts off. -/
theorem offsetMs_le (h : ofEdit e = .ok clip) {layer : ClipCutaway}
    (hlayer : layer ∈ clip.cutaways) :
    ∃ c ∈ e.cutaways, layer.offsetMs ≤ c.offsetMs + e.trimStartMs := by
  obtain ⟨-, ordered, cutaways, stickers, -, hcutaways, -, rfl⟩ := ofEdit_eq_ok h
  obtain ⟨c, hc, hmoved⟩ := exists_of_filterMap_eq hcutaways hlayer
  obtain ⟨-, -, hoffset, -⟩ := Cutaway.toClip?_eq_some.mp hmoved
  refine ⟨c, hc, ?_⟩
  rw [hoffset]
  exact (Nat.min_le_left _ _).trans (Nat.add_le_add_left (Nat.sub_le _ _) _)

/-- In a clip that is no longer than `2 ^ 50` milliseconds, with media that begin no later, three
places are enough for each time. -/
theorem times_le_of_ofEdit (h : ofEdit e = .ok clip) (htrim : e.trimEndMs ≤ 2 ^ 50)
    (hduration : clip.durationMs ≤ 2 ^ 50) (hcutaways : ∀ c ∈ e.cutaways, c.offsetMs ≤ 2 ^ 50)
    (hmusic : ∀ music ∈ e.music, music.offsetMs ≤ 2 ^ 50) :
    ∀ ms ∈ clip.inputTimes ++ clip.layerTimes, ms ≤ Window.lastExactMs := by
  have hbound : 2 ^ 50 + 2 ^ 50 ≤ Window.lastExactMs := by decide
  have hinTime := inTime_ofEdit h
  have hinside {w : Window} (hw : w.Inside clip.durationMs) :
      w.startMs ≤ Window.lastExactMs ∧ w.endMs ≤ Window.lastExactMs ∧
        w.duration ≤ Window.lastExactMs := by
    have hstart := hw.start_lt_end
    have hend := hw.end_le
    rw [Window.duration]
    omega
  obtain ⟨-, ordered, _, _, -, -, -, hclip⟩ := ofEdit_eq_ok h
  have hsource : clip.trimStartMs ≤ 2 ^ 50 ∧ clip.sourceSpan ≤ 2 ^ 50 := by
    rw [hclip]
    exact ⟨ordered.trans htrim, (Nat.sub_le _ _).trans htrim⟩
  have hsame : clip.music = e.music := by rw [hclip]; rfl
  simp only [inputTimes, layerTimes, List.forall_mem_append, List.forall_mem_cons,
    List.forall_mem_flatMap, List.forall_mem_map, List.not_mem_nil, false_implies, implies_true,
    and_true]
  refine ⟨⟨⟨⟨⟨?start, ?span⟩, ?cutaways⟩, ?stickers⟩, ?music⟩, ?cutawayWindows, ?stickerWindows⟩
  case start => omega
  case span => omega
  case cutaways =>
    intro layer hlayer
    have hoffset : layer.offsetMs ≤ 2 ^ 50 + 2 ^ 50 := by
      obtain ⟨c, hc, hle⟩ := offsetMs_le h hlayer
      exact hle.trans (Nat.add_le_add (hcutaways c hc) (ordered.trans htrim))
    exact ⟨by omega, (hinside (hinTime.cutaways layer hlayer)).2.2⟩
  case stickers => exact fun _ _ => by omega
  case music =>
    intro music hmem
    rw [Option.mem_toList, hsame] at hmem
    have hle := hmusic music hmem
    omega
  case cutawayWindows =>
    intro layer hlayer
    obtain ⟨hstart, hend, -⟩ := hinside (hinTime.cutaways layer hlayer)
    exact ⟨hstart, hstart, hend⟩
  case stickerWindows =>
    intro layer hlayer
    obtain ⟨hstart, hend, -⟩ := hinside (hinTime.stickers layer hlayer)
    exact ⟨hstart, hend⟩

end Clip

/-! ## The times of music -/

/-- A time that is not zero is no zero number of seconds either. -/
theorem Window.lt_seconds_iff {ms : Nat} (h : ms ≤ Binary64.mantBound) :
    Binary64.lt 0 (seconds ms) ↔ 0 < ms := by
  refine (Binary64.has_zero.lt_iff (has_seconds h)).trans ⟨fun hpos => ?_, fun hpos => ?_⟩
  · refine Nat.pos_of_ne_zero fun hzero => hpos.ne ?_
    rw [hzero, Nat.cast_zero, zero_div, Binary64.rounded_zero]
  · have hone : (1 : Rat) / 1000 ≤ ms / 1000 := by
      have : (1 : Rat) ≤ ms := by exact_mod_cast hpos
      linarith
    calc (0 : Rat) < Binary64.rounded (1 / 1000) := by decide +kernel
      _ ≤ Binary64.rounded (ms / 1000) := Binary64.rounded_mono hone

namespace Audio

variable {clip : Clip}

theorem mapM_written {times : List Nat} (h : ∀ ms ∈ times, ms ≤ Window.lastExactMs) :
    (times.map written).mapM thousandths? = some times := by
  have hread : (times.map written).mapM thousandths? = some (times.map id) :=
    Grammar.mapM_map fun ms hms => Window.thousandths?_seconds (h ms hms)
  rwa [List.map_id] at hread

theorem mapM_append {α β : Type} {f : α → Option β} {xs xs' : List α} {ys ys' : List β}
    (h : xs.mapM f = some ys) (h' : xs'.mapM f = some ys') :
    (xs ++ xs').mapM f = some (ys ++ ys') := by
  simp [List.mapM_append, h, h']

/-- The condition of a fade is that it lasts. -/
theorem musicTexts_eq (music : Music) (hduration : clip.durationMs ≤ 2 ^ 50) :
    musicTexts clip music = [written clip.durationMs] ++
      (if music.fadeIn ∧ 0 < clip.fadeMs music then [written (clip.fadeMs music)] else []) ++
      if music.fadeOut ∧ 0 < clip.fadeMs music then
        [(Decimal.fixed 3 (clip.durationSeconds - Window.seconds (clip.fadeMs music))).toList,
          written (clip.fadeMs music)]
      else [] := by
  have hfade : clip.fadeMs music ≤ Binary64.mantBound :=
    (Nat.min_le_right _ _).trans ((Nat.div_le_self _ _).trans (hduration.trans (by decide)))
  simp only [musicTexts, Bool.and_eq_true, Window.lt_seconds_iff hfade]

/-- Where a fade-out begins is a difference of two rounded numbers, and exact all the same. -/
theorem thousandths?_fadeOut (music : Music) (hlasts : 1 ≤ clip.durationMs)
    (hduration : clip.durationMs ≤ 2 ^ 50) :
    thousandths? (Decimal.fixed 3
      (clip.durationSeconds - Window.seconds (clip.fadeMs music))).toList =
        some (clip.durationMs - clip.fadeMs music) := by
  refine Window.thousandths?_seconds_sub ?_ (hduration.trans (by decide))
  rw [Clip.fadeMs]
  omega

theorem mapM_musicTexts (music : Music) (hlasts : 1 ≤ clip.durationMs)
    (hduration : clip.durationMs ≤ 2 ^ 50) :
    (musicTexts clip music).mapM thousandths? = some (clip.musicTimes music) := by
  have hexact {ms : Nat} (h : ms ≤ clip.durationMs) : thousandths? (written ms) = some ms :=
    Window.thousandths?_seconds (h.trans (hduration.trans (by decide)))
  have hlength := hexact (Nat.le_refl _)
  have hfade : thousandths? (written (clip.fadeMs music)) = some (clip.fadeMs music) :=
    hexact ((Nat.min_le_right _ _).trans (Nat.div_le_self _ _))
  have hstart := thousandths?_fadeOut music hlasts hduration
  rw [musicTexts_eq music hduration, Clip.musicTimes]
  refine mapM_append (mapM_append ?_ ?_) ?_
  · simp [hlength]
  · split <;> simp [hfade]
  · split <;> simp [hfade, hstart]

theorem mapM_soundTexts (probe : Probe) (hlasts : 1 ≤ clip.durationMs)
    (hduration : clip.durationMs ≤ 2 ^ 50) :
    (soundTexts clip probe).mapM thousandths? = some (clip.soundTimes probe) := by
  have hlength : thousandths? (written clip.durationMs) = some clip.durationMs :=
    Window.thousandths?_seconds (hduration.trans (by decide))
  refine mapM_append ?_ ?_
  · split <;> simp [hlength]
  · cases clip.music with
    | none => rfl
    | some music => simpa using mapM_musicTexts music hlasts hduration

end Audio

/-! ## The fades of a program -/

/-- Fades within a sound of some length: a fade-in begins with the sound and its beginning is the
plain number zero, a fade-out ends with the sound, and none begins before the other one has ended.
-/
structure Fades (filters : List Filter) (durationMs : Nat) : Prop where
  kinds : ∀ fade ∈ filters.filterMap Filter.fade?,
    fade.direction = "in".toList ∨ fade.direction = "out".toList
  rises : ∀ fade ∈ filters.filterMap Filter.fade?, fade.direction = "in".toList →
    fade.start = "0".toList
  falls : ∀ fade ∈ filters.filterMap Filter.fade?, fade.direction = "out".toList →
    ∃ start length, thousandths? fade.start = some start ∧ thousandths? fade.length = some length ∧
      start + length = durationMs
  apart : ∀ rise ∈ filters.filterMap Filter.fade?, ∀ fall ∈ filters.filterMap Filter.fade?,
    rise.direction = "in".toList → fall.direction = "out".toList →
      ∃ length start, thousandths? rise.length = some length ∧
        thousandths? fall.start = some start ∧ length ≤ start

theorem Video.Chain.not_afade {clip : Clip} {assets : Assets} {filters : List Filter}
    {inputs outputs : Nat} (h : Chain clip assets filters inputs outputs) :
    ∀ f ∈ filters, f.name ≠ "afade" := by
  cases h with
  | grade h =>
      rw [gradeFilters?, Option.ite_none_left_eq_some, Option.some.injEq] at h
      rw [← h.2]
      simp only [List.forall_mem_append]
      refine ⟨⟨⟨?_, ?_⟩, ?_⟩, ?_⟩ <;> split <;> simp
  | cutaway h r =>
      simp only [cutawayFilters, List.forall_mem_append]
      refine ⟨by simp, ?_⟩
      split <;> simp
  | _ => simp [cropScale, Zoom.filters, subtitleFilter]

theorem Audio.Chain.exists_music_of_afade {clip : Clip} {filters : List Filter}
    {inputs outputs : Nat} (h : Chain clip filters inputs outputs) {f : Filter} (hf : f ∈ filters)
    (hname : f.name = "afade") :
    ∃ music, clip.music = some music ∧ f ∈ musicFilters clip music := by
  have hother {P : Prop} (h : ∀ f ∈ filters, f.name ≠ "afade") : P := absurd hname (h f hf)
  cases h with
  | music h => exact ⟨_, h, hf⟩
  | source volume =>
      refine hother ?_
      simp only [List.forall_mem_append, List.forall_mem_map, List.forall_mem_singleton]
      exact ⟨⟨by simp, fun _ _ => by simp⟩, by simp [sampleFormat]⟩
  | _ => exact hother (by simp [sampleFormat])

theorem Filter.name_of_fade? {f : Filter} {fade : Fade} (h : f.fade? = some fade) :
    f.name = "afade" := by
  by_contra hname
  rw [fade?, if_neg hname] at h
  cases h

namespace Audio

/-- The two fades of music, as they are written. -/
def fadeIn (clip : Clip) (music : Music) : Fade :=
  ⟨"in".toList, "0".toList, written (clip.fadeMs music)⟩

def fadeOut (clip : Clip) (music : Music) : Fade :=
  ⟨"out".toList,
    (Decimal.fixed 3 (clip.durationSeconds - Window.seconds (clip.fadeMs music))).toList,
    written (clip.fadeMs music)⟩

theorem fade?_of_musicFilters {clip : Clip} {music : Music} {f : Filter} {fade : Fade}
    (hf : f ∈ musicFilters clip music) (hfade : f.fade? = some fade) :
    fade = fadeIn clip music ∨ fade = fadeOut clip music := by
  have hafade := Filter.name_of_fade? hfade
  simp only [musicFilters, List.mem_append, List.mem_cons, List.not_mem_nil, or_false] at hf
  rcases hf with (((rfl | rfl | rfl) | hf) | hf) | rfl
  · exact absurd hafade (by simp)
  · exact absurd hafade (by simp)
  · exact absurd hafade (by simp)
  · split at hf
    · rw [List.mem_singleton.mp hf, Filter.fade?_in] at hfade
      exact .inl (Option.some.inj hfade).symm
    · exact absurd hf List.not_mem_nil
  · split at hf
    · rw [List.mem_singleton.mp hf, Filter.fade?_out] at hfade
      exact .inr (Option.some.inj hfade).symm
    · exact absurd hf List.not_mem_nil
  · exact absurd hafade (by simp [sampleFormat])

end Audio

namespace Program

variable {e : Edit} {clip : Clip} {probe : Probe} {subjects : List Region} {assets : Assets}
  {p : Program}

/-- All fades of a program are those of its music. -/
theorem fade_of_compile (h : compile clip probe subjects assets = .ok p) {fade : Fade}
    (hfade : fade ∈ (p.graph.nodes.flatMap Node.filters).filterMap Filter.fade?) :
    ∃ music, clip.music = some music ∧
      (fade = Audio.fadeIn clip music ∨ fade = Audio.fadeOut clip music) := by
  obtain ⟨f, hf, hfade⟩ := List.mem_filterMap.mp hfade
  obtain ⟨n, hn, hf⟩ := List.mem_flatMap.mp hf
  have hname := Filter.name_of_fade? hfade
  rcases formed_of_compile h n hn with hpicture | hsound
  · exact absurd hname (Video.Chain.not_afade hpicture f hf)
  · obtain ⟨music, hmusic, hmem⟩ := Audio.Chain.exists_music_of_afade hsound hf hname
    exact ⟨music, hmusic, Audio.fade?_of_musicFilters hmem hfade⟩

/-- They lie within the clip. -/
theorem fades_of_compile (hlasts : 1 ≤ clip.durationMs) (hduration : clip.durationMs ≤ 2 ^ 50)
    (h : compile clip probe subjects assets = .ok p) :
    Fades (p.graph.nodes.flatMap Node.filters) clip.durationMs := by
  have hhalf (music : Music) : 2 * clip.fadeMs music ≤ clip.durationMs := by
    rw [Clip.fadeMs]
    omega
  have hlength (music : Music) :
      thousandths? (written (clip.fadeMs music)) = some (clip.fadeMs music) :=
    Window.thousandths?_seconds ((by have := hhalf music; omega : _ ≤ clip.durationMs).trans
      (hduration.trans (by decide)))
  have hstart (music : Music) := Audio.thousandths?_fadeOut music hlasts hduration
  have hne : "in".toList ≠ "out".toList := by decide
  refine ⟨fun fade hfade => ?kinds, fun fade hfade hin => ?rises, fun fade hfade hout => ?falls,
    fun rise hrise fall hfall hin hout => ?apart⟩
  case kinds =>
    obtain ⟨music, -, rfl | rfl⟩ := fade_of_compile h hfade
    · exact .inl rfl
    · exact .inr rfl
  case rises =>
    obtain ⟨music, -, rfl | rfl⟩ := fade_of_compile h hfade
    · rfl
    · exact absurd hin hne.symm
  case falls =>
    obtain ⟨music, -, rfl | rfl⟩ := fade_of_compile h hfade
    · exact absurd hout hne
    · refine ⟨_, _, hstart music, hlength music, ?_⟩
      have := hhalf music
      omega
  case apart =>
    obtain ⟨music, hmusic, rfl | rfl⟩ := fade_of_compile h hrise
    · obtain ⟨music', hmusic', rfl | rfl⟩ := fade_of_compile h hfall
      · exact absurd hout hne
      · obtain rfl := Option.some.inj (hmusic.symm.trans hmusic')
        refine ⟨_, _, hlength music, hstart music, ?_⟩
        have := hhalf music
        omega
    · exact absurd hin hne.symm

/-- As long as the clip, the trimmed range and the beginnings of media are up to `2 ^ 50`
milliseconds, the times that the arguments of a program say are those of the clip, exactly and in
its order. The beginning of a fade-in is no time but the number zero. A fade-in and a fade-out do
not overlap, and a fade-out ends with the clip. -/
theorem exactTimes_ofEdit (hclip : Clip.ofEdit e = .ok clip) (htrim : e.trimEndMs ≤ 2 ^ 50)
    (hduration : clip.durationMs ≤ 2 ^ 50) (hcutaways : ∀ c ∈ e.cutaways, c.offsetMs ≤ 2 ^ 50)
    (hmusic : ∀ music ∈ e.music, music.offsetMs ≤ 2 ^ 50)
    (h : compile clip probe subjects assets = .ok p) (codec : List String) (output : String) :
    ∃ invocation texts filters, Invocation.read? (p.args codec output) = some invocation ∧
      invocation.times? = some texts ∧ texts.mapM thousandths? = some (clip.times probe) ∧
      invocation.filters? = some filters ∧ Fades filters clip.durationMs := by
  obtain ⟨ordered, hmoved⟩ := Clip.moved_ofEdit hclip
  obtain ⟨invocation, hread, hfilters, htimes⟩ := times?_of_compile h codec output
  have hle := List.forall_mem_append.mp
    (Clip.times_le_of_ofEdit hclip htrim hduration hcutaways hmusic)
  have hsound := Audio.mapM_soundTexts probe hmoved.lasts hduration
  have hlength := Audio.mapM_written (List.forall_mem_singleton.mpr (hduration.trans (by decide)))
  exact ⟨invocation, _, _, hread, htimes, Audio.mapM_append (Audio.mapM_append
    (Audio.mapM_written hle.1) (Audio.mapM_append (Audio.mapM_written hle.2) hsound)) hlength,
    hfilters, fades_of_compile hmoved.lasts hduration h⟩

/-- A clip of `2 ^ 50` milliseconds without sound, with a cutaway, a sticker and faded music. -/
theorem exactTimes_ofEdit_of_long :
    let e : Edit :=
      { sourcePath := "/media/talk.mp4", trimStartMs := 0, trimEndMs := 1125899906842624,
        canvas := .portrait,
        cutaways := [{ path := "/media/b.mp4", startMs := 1125899906842001,
                       endMs := 1125899906842623, offsetMs := 1125899906842615 }],
        stickers := [⟨.file "/media/star.png", 17, 1125899906842617, ⟨0.1, 0.1, 0.2, 0.2⟩⟩],
        music := some { path := "/media/m.mp3", fadeIn := true, fadeOut := true, fadeMs := 333,
                        offsetMs := 1125899906842613 } }
    let probe : Probe := ⟨1920, 1080, none, false, true⟩
    let assets : Assets := { stickerPaths := ["/media/star.png"] }
    ∃ clip p, Clip.ofEdit e = .ok clip ∧ e.trimEndMs ≤ 2 ^ 50 ∧ clip.durationMs = 2 ^ 50 ∧
      compile clip probe [] assets = .ok p ∧
      ∃ invocation texts filters, Invocation.read? (p.args ["-c:v", "libx264"] "o.mp4") =
          some invocation ∧ invocation.times? = some texts ∧
        texts.mapM thousandths? = some
          [0, 1125899906842624, 1125899906842615, 622, 1125899906842624, 1125899906842613,
            1125899906842001, 1125899906842001, 1125899906842623, 17, 1125899906842617,
            1125899906842624, 1125899906842624, 333, 1125899906842291, 333, 1125899906842624] ∧
        invocation.filters? = some filters ∧ Fades filters (2 ^ 50) := by
  intro e probe assets
  have hrun : (do
      let clip ← Clip.ofEdit e
      let _ ← compile clip probe [] assets
      return (clip.durationMs, clip.times probe) : Outcome (Nat × List Nat)) = .ok (2 ^ 50,
        [0, 1125899906842624, 1125899906842615, 622, 1125899906842624, 1125899906842613,
          1125899906842001, 1125899906842001, 1125899906842623, 17, 1125899906842617,
          1125899906842624, 1125899906842624, 333, 1125899906842291, 333, 1125899906842624]) := by
    decide +kernel
  obtain ⟨clip, hclip, hrun⟩ := bind_eq_ok_iff.mp hrun
  obtain ⟨p, hp, hfacts⟩ := bind_eq_ok_iff.mp hrun
  obtain ⟨hduration, htimes⟩ := Prod.mk.inj (Except.ok.inj hfacts)
  have hexact := exactTimes_ofEdit hclip (by decide) hduration.le
    (List.forall_mem_singleton.mpr (by decide)) (fun music hmusic => by cases hmusic; decide) hp
    ["-c:v", "libx264"] "o.mp4"
  rw [hduration, htimes] at hexact
  exact ⟨clip, p, hclip, by decide, hduration, hp, hexact⟩

/-- Where a fade-in begins is not written with three places. -/
theorem start_of_fadeIn_inexact :
    let e : Edit :=
      { sourcePath := "/media/talk.mp4", trimStartMs := 0, trimEndMs := 3000, canvas := .portrait,
        music := some { path := "/media/m.mp3", fadeIn := true } }
    let probe : Probe := ⟨1920, 1080, some 10000, true, true⟩
    ∃ clip p, Clip.ofEdit e = .ok clip ∧ clip.durationMs ≤ 2 ^ 50 ∧
      compile clip probe [] {} = .ok p ∧
      ∃ n ∈ p.graph.nodes, ∃ f ∈ n.filters, f.name = "afade" ∧
        ∃ start, f.option? "st" = some start ∧ thousandths? start = none := by
  intro e probe
  have hrun : (do
      let clip ← Clip.ofEdit e
      let p ← compile clip probe [] {}
      return (clip.durationMs, p.graph.nodes.any fun n => n.filters.any fun f =>
        f.name = "afade" ∧ f.option? "st" = some "0".toList) : Outcome (Nat × Bool)) =
      .ok (3000, true) := by
    decide +kernel
  obtain ⟨clip, hclip, hrun⟩ := bind_eq_ok_iff.mp hrun
  obtain ⟨p, hp, hfacts⟩ := bind_eq_ok_iff.mp hrun
  obtain ⟨hduration, hfade⟩ := Prod.mk.inj (Except.ok.inj hfacts)
  obtain ⟨n, hn, hfade⟩ := List.any_eq_true.mp hfade
  obtain ⟨f, hf, hfade⟩ := List.any_eq_true.mp hfade
  obtain ⟨hname, hstart⟩ := of_decide_eq_true hfade
  exact ⟨clip, p, hclip, by rw [hduration]; decide, hp, n, hn, f, hf, hname, _, hstart, by decide⟩

end Program

end Montage
