import Montage.Edit.Spec
import Montage.Proofs.Clip.Layers
import Montage.Proofs.Compile.Inputs
import Montage.Proofs.Host.Presence
import Montage.Proofs.Render.Tools
import Montage.Render.Plan

/-! # The inputs of a plan are there

Planning looks for the files of the edit before anything else, and what it makes itself it has
written. Only the sound that the configuration gives is never looked for. -/

namespace Montage

/-! ## The files of a clip

Every file that a clip names is named by its edit, and so is its source. -/

/-- The file of an image, unless the image holds itself. -/
def ImageSource.path? : ImageSource → Option String
  | file path => some path
  | inline _ => none

namespace Edit

/-- The paths of all files of an edit. -/
def paths (e : Edit) : List String := e.files.map Prod.snd

theorem paths_eq (e : Edit) : e.paths = e.sourcePath :: (e.cutaways.map (·.path) ++
    e.stickers.filterMap (·.source.path?) ++ e.music.toList.map (·.path) ++
    e.soundEffectPath.toList ++ e.watermark.toList.map (·.path)) := by
  have hcutaways : e.cutaways.map (·.path) = e.cutaways.zipIdx.map (·.1.path) := by
    conv_lhs => rw [← List.zipIdx_map_fst 0 e.cutaways, List.map_map]
    rfl
  have hstickers : e.stickers.filterMap (·.source.path?) =
      e.stickers.zipIdx.filterMap (·.1.source.path?) := by
    conv_lhs => rw [← List.zipIdx_map_fst 0 e.stickers, List.filterMap_map]
    rfl
  simp only [paths, files, List.map_append, List.map_map, List.map_filterMap, hcutaways,
    hstickers]
  simp only [List.map_cons, List.map_nil, List.cons_append, List.nil_append, Function.comp_def,
    List.map_id']
  congr! 6 with image
  cases image.1.source <;> rfl

theorem mem_paths {e : Edit} {path : String} : path ∈ e.paths ↔ path = e.sourcePath ∨
    (∃ c ∈ e.cutaways, c.path = path) ∨ (∃ s ∈ e.stickers, s.source.path? = some path) ∨
    (∃ music, e.music = some music ∧ music.path = path) ∨ e.soundEffectPath = some path ∨
    ∃ mark, e.watermark = some mark ∧ mark.path = path := by
  simp [paths_eq]

theorem missingFiles_eq_nil_iff {e : Edit} {fileExists : String → Bool} :
    e.missingFiles fileExists = [] ↔ ∀ path ∈ e.paths, fileExists path := by
  simp only [missingFiles, paths, List.map_eq_nil_iff, List.filter_eq_nil_iff, List.forall_mem_map]
  simp

end Edit

namespace Clip

/-- Every file that a clip names is one of its edit's. -/
structure Names (e : Edit) (clip : Clip) : Prop where
  source : clip.sourcePath ∈ e.paths
  cutaways : ∀ layer ∈ clip.cutaways, layer.path ∈ e.paths
  stickers : ∀ layer ∈ clip.stickers, ∀ path, layer.source = .file path → path ∈ e.paths
  music : ∀ music, clip.music = some music → music.path ∈ e.paths
  soundEffect : ∀ path, clip.soundEffectPath = some path → path ∈ e.paths
  watermark : ∀ mark, clip.watermark = some mark → mark.path ∈ e.paths

theorem names_ofEdit {e : Edit} {clip : Clip} (h : ofEdit e = .ok clip) : clip.Names e := by
  obtain ⟨-, ordered, cutaways, stickers, -, hcutaways, hstickers, rfl⟩ := ofEdit_eq_ok h
  refine ⟨Edit.mem_paths.mpr (.inl rfl), fun layer hlayer => ?cutaways,
    fun layer hlayer path hfile => ?stickers, fun music hmusic => ?music, fun path hsound => ?sound,
    fun mark hmark => ?mark⟩
  case cutaways =>
    obtain ⟨c, hc, hshown⟩ := exists_of_filterMap_eq hcutaways hlayer
    obtain ⟨-, hpath, -⟩ := Cutaway.toClip?_eq_some.mp hshown
    exact Edit.mem_paths.mpr (.inr (.inl ⟨c, hc, hpath.symm⟩))
  case stickers =>
    obtain ⟨s, hs, hshown⟩ := exists_of_filterMap_eq hstickers hlayer
    obtain ⟨-, hsource, -⟩ := Sticker.toClip?_eq_some.mp hshown
    have hpath : s.source.path? = some path := by
      rw [← hsource, hfile]
      rfl
    exact Edit.mem_paths.mpr (.inr (.inr (.inl ⟨s, hs, hpath⟩)))
  case music => exact Edit.mem_paths.mpr (.inr (.inr (.inr (.inl ⟨music, hmusic, rfl⟩))))
  case sound => exact Edit.mem_paths.mpr (.inr (.inr (.inr (.inr (.inl hsound)))))
  case mark => exact Edit.mem_paths.mpr (.inr (.inr (.inr (.inr (.inr ⟨mark, hmark, rfl⟩)))))

end Clip

/-! ## The files that planning looks for -/

/-- What is so with the files is still so after each run of some programs. -/
def Host.Preserves (host : Host) (programs : List String) (so : FileTree → Prop) : Prop :=
  ∀ program ∈ programs, ∀ args t run, host.launch program args t = .ok run → so t → so run.files

/-- The paths lead to something. -/
def Session.Has (paths : List String) (s : Session) : Prop := ∀ path ∈ paths, s.files.has path

/-- The sound that the configuration gives for the captions of a clip, if the clip asks for one and
names none. -/
def Plan.fallbackSound? (config : Config) (clip : Clip) : Option String :=
  if clip.soundEffects ∧ clip.onsets ≠ [] ∧ clip.soundEffectPath = none then
    config.render.soundEffectPath
  else none

namespace Work

variable {host : Host} {programs : List String}

theorem steady_has (paths : List String)
    (hhost : ∀ path, host.Preserves programs (·.has path)) :
    Steady host programs (fun _ => True) (Session.Has paths) where
  report _ _ := .modify fun _ hs => hs
  pause := .get fun _ hs => .bind (.set hs) fun _ _ => .ite (fun _ => .fail trivial) fun _ =>
    .pure trivial
  launched program hprogram args _ run hs hrun := fun path hpath =>
    hhost path program hprogram args _ run hrun (hs path hpath)

theorem leads_writeScratch_has (paths : List String) (stem extension : String)
    (bytes : List UInt8) :
    Leads (Session.Has paths) (writeScratch stem extension bytes)
      (fun file => Session.Has (paths ++ [file])) fun _ _ => True := by
  refine leads_writeScratch (fun s t hs hwrite => List.forall_mem_append.mpr ⟨fun path hpath => ?_,
    ?_⟩) fun _ _ _ _ => trivial
  · exact (FileTree.retains_of_write hwrite).has (hs path hpath)
  · exact List.forall_mem_singleton.mpr (FileTree.has_of_write hwrite)

end Work

namespace Plan

variable {host : Host} {config : Config} {edit : Edit} {clip : Clip}

open Work (Leads Steady)

/-- The check of the files passes exactly if no file of the edit is missing. -/
theorem leads_checkFiles {I : Session → Prop} (hclip : Clip.ofEdit edit = .ok clip) :
    Leads I (checkFiles edit clip)
      (fun _ s => I s ∧ edit.missingFiles s.files.has = [])
      (fun _ s => I s ∧ edit.missingFiles s.files.has ≠ []) := by
  refine Leads.get fun s hs => ?_
  split
  case isTrue hsource =>
    refine .fail_bind ?_
    rintro s' rfl
    refine ⟨hs, fun hnone => ?_⟩
    have hthere := Edit.missingFiles_eq_nil_iff.mp hnone _ (Clip.names_ofEdit hclip).source
    simp [hthere] at hsource
  case isFalse =>
    refine .ite (fun hmissing => .fail ?_) fun hnone => .pure ?_
    · rintro s' rfl
      exact ⟨hs, hmissing⟩
    · rintro s' rfl
      exact ⟨hs, not_not.mp hnone⟩

theorem leads_stickerFile {paths : List String} (s : ClipSticker)
    (h : ∀ path, s.source = .file path → path ∈ paths) :
    Leads (Session.Has paths) (stickerFile host s) (fun file => Session.Has (paths ++ [file]))
      fun _ _ => True := by
  rw [stickerFile]
  split
  case h_1 path hfile =>
    refine .pure fun s hs => List.forall_mem_append.mpr ⟨hs, ?_⟩
    exact List.forall_mem_singleton.mpr (hs path (h path hfile))
  case h_2 url _ =>
    refine .ofOutcome_bind (fun image _ => ?_) fun _ _ _ _ => trivial
    obtain ⟨bytes, extension⟩ := image
    exact Work.leads_writeScratch_has paths "sticker" extension bytes

theorem leads_stickerFiles {paths : List String} {stickers : List ClipSticker}
    (h : ∀ s ∈ stickers, ∀ path, s.source = .file path → path ∈ paths) :
    Leads (Session.Has paths) (stickers.mapM (stickerFile host))
      (fun files s => Session.Has (paths ++ files) s ∧ files.length = stickers.length)
      fun _ _ => True := by
  have hstep (s : ClipSticker) (hs : s ∈ stickers) (_ : List ClipSticker) (done : List String) :
      Leads (Session.Has (paths ++ done)) (stickerFile host s)
        (fun file s => Session.Has (paths ++ (done ++ [file])) s ∧ True) fun _ _ => True := by
    simp only [and_true, ← List.append_assoc]
    exact leads_stickerFile s fun path hfile => List.mem_append_left _ (h s hs path hfile)
  have hfiles := Leads.mapM (N := fun _ done => Session.Has (paths ++ done))
    (R := fun _ _ => True) hstep []
  rw [List.append_nil] at hfiles
  exact hfiles.mono (fun _ => id) (fun _ _ hs => ⟨hs.1, hs.2.length_eq.symm⟩) fun _ _ => id

theorem leads_captionFile {paths : List String} (clip : Clip) :
    Leads (Session.Has paths) (captionFile clip) (fun _ => Session.Has paths)
      fun _ _ => True := by
  refine .ofOutcome_bind (fun captions _ => ?_) fun _ _ _ _ => trivial
  refine .ite (fun _ => .pure fun _ hs => hs) fun _ => ?_
  have hwritten := Work.leads_writeScratch_has paths "captions" "ass"
    (Text.encodeUtf8 captions.text)
  exact hwritten.seq fun file => .pure fun s hs => (List.forall_mem_append.mp hs).1

/-- A sound for the captions is named by the edit or is the configured one. -/
theorem effectInput_cases {m : MediaInput} (hnames : clip.Names edit)
    (h : m ∈ Audio.effectInputs clip (clip.soundEffectPath.or config.render.soundEffectPath)) :
    m.path ∈ edit.paths ∨ fallbackSound? config clip = some m.path := by
  rw [Audio.effectInputs] at h
  split at h
  case isFalse => cases h
  case isTrue hasked =>
    obtain ⟨path, hpath, rfl⟩ := List.mem_map.mp h
    cases hsound : clip.soundEffectPath with
    | some named =>
        rw [hsound] at hpath
        obtain rfl := List.mem_singleton.mp hpath
        exact .inl (hnames.soundEffect path hsound)
    | none =>
        rw [hsound, Option.none_or, Option.mem_toList] at hpath
        exact .inr (by rw [fallbackSound?, if_pos ⟨hasked.1, hasked.2, hsound⟩, hpath])

/-- Each input of the program of a clip is a file of its edit, an image for a sticker or the
configured sound. -/
theorem input_cases (hnames : clip.Names edit) {assets : Assets}
    (hsound : assets.soundEffectPath = clip.soundEffectPath.or config.render.soundEffectPath)
    {m : MediaInput} (h : m ∈ clip.sourceInput :: (Video.furtherInputs clip assets ++
      Audio.furtherInputs clip assets.soundEffectPath)) :
    m.path ∈ edit.paths ++ assets.stickerPaths ∨ fallbackSound? config clip = some m.path := by
  simp only [Video.furtherInputs, Audio.furtherInputs, hsound, List.mem_cons, List.mem_append,
    List.mem_map, Option.mem_toList] at h ⊢
  rcases h with rfl | ((⟨layer, hlayer, rfl⟩ | ⟨path, hpath, rfl⟩) | ⟨mark, hmark, rfl⟩) |
    ⟨music, hmusic, rfl⟩ | heffect
  · exact .inl (.inl hnames.source)
  · exact .inl (.inl (hnames.cutaways layer hlayer))
  · exact .inl (.inr hpath)
  · exact .inl (.inl (hnames.watermark mark hmark))
  · exact .inl (.inl (hnames.music music hmusic))
  · exact (effectInput_cases hnames heffect).imp_left .inl

/-- The configured sound is an input if the clip falls back on it. -/
theorem fallbackSound_mem {assets : Assets}
    (hsound : assets.soundEffectPath = clip.soundEffectPath.or config.render.soundEffectPath)
    {path : String} (h : fallbackSound? config clip = some path) :
    { path } ∈ Audio.furtherInputs clip assets.soundEffectPath := by
  rw [fallbackSound?] at h
  split at h
  case isFalse => cases h
  case isTrue hasked =>
    refine List.mem_append_right _ ?_
    rw [Audio.effectInputs, if_pos ⟨hasked.1, hasked.2.1⟩, hsound, hasked.2.2, h]
    exact List.mem_singleton_self _

theorem leads_locateSubjects {paths : List String}
    (hhost : ∀ path, host.Preserves config.render.tools (·.has path)) (clip : Clip)
    (facts : Probe) :
    Leads (Session.Has paths) (locateSubjects host config clip facts)
      (fun _ => Session.Has paths) fun _ _ => True := by
  have hsteady := Work.steady_has paths hhost
  refine .ite (fun _ => ?_) fun _ => .pure fun _ hs => hs
  refine (Leads.of_keeps (hsteady.report _ Progress.locating_le_ceiling)
    fun _ _ _ _ => trivial).bind fun _ _ => ?_
  refine (hsteady.leads_locate ?_ (fun _ => id) _ _ _ _).mono (fun _ => id) (fun _ _ hs => hs.1)
    fun _ _ _ => trivial
  exact fun _ hs => hs

/-- Planning ends with a program each of whose inputs is there, but for the configured sound, which
is an input if the clip falls back on it. -/
theorem leads_ofEdit
    (hhost : ∀ path, host.Preserves config.render.tools (·.has path)) (edit : Edit) :
    Leads (fun _ => True) (ofEdit host config edit)
      (fun plan s => (∀ m ∈ plan.program.graph.inputs,
          s.files.has m.path ∨ fallbackSound? config plan.clip = some m.path) ∧
        ∀ path, fallbackSound? config plan.clip = some path →
          ∃ m ∈ plan.program.graph.inputs, m.path = path)
      fun _ _ => True := by
  have hsteady (paths : List String) := Work.steady_has paths hhost
  refine .ofOutcome_bind (fun clip hclip => ?_) fun _ _ _ _ => trivial
  have hnames := Clip.names_ofEdit hclip
  refine .seq (S := fun _ => Session.Has edit.paths) ((leads_checkFiles hclip).mono
    (fun _ => id) (fun _ s hs => Edit.missingFiles_eq_nil_iff.mp hs.2) fun _ _ _ => trivial)
    fun _ => ?_
  refine (Leads.of_keeps ((hsteady edit.paths).keeps_probeOrAssume _) fun _ _ _ _ => trivial).bind
    fun facts _ => ?_
  refine (Leads.of_keeps ((hsteady edit.paths).report _ Progress.probed_le_ceiling)
    fun _ _ _ _ => trivial).bind fun _ _ => ?_
  refine (leads_locateSubjects hhost clip facts).seq fun subjects => ?_
  refine (leads_stickerFiles fun s hs path => hnames.stickers s hs path).bind
    fun stickerPaths hcount => ?_
  refine (leads_captionFile clip).seq fun subtitlePath => ?_
  refine .ofOutcome_bind (fun program hprogram => ?_) fun _ _ _ _ => trivial
  refine (Leads.of_keeps (hsteady _).keeps_chooseEncoder fun _ _ _ _ => trivial).bind
    fun encoder _ => ?_
  refine (Leads.of_keeps ((hsteady _).report _ Progress.compiled_le_ceiling)
    fun _ _ _ _ => trivial).bind fun _ _ => .pure fun s hs => ?_
  have hinputs := Program.inputs_of_compile hcount hprogram
  refine ⟨fun m hm => ?_, fun path hpath => ⟨{ path }, ?_, rfl⟩⟩
  · rw [hinputs] at hm
    exact (input_cases hnames rfl hm).imp_left (hs m.path)
  · rw [hinputs]
    exact List.mem_cons_of_mem _ (List.mem_append_right _ (fallbackSound_mem rfl hpath))

/-- When planning ends well, on a host whose tools take no file away, each input of the program is
there exactly if the configured sound is there that the clip falls back on, if it does. -/
theorem has_inputs_ofEdit {s s' : Session} {plan : Plan}
    (hhost : ∀ path, host.Preserves config.render.tools (·.has path))
    (h : (ofEdit host config edit).perform s = (.ok plan, s')) :
    (∀ m ∈ plan.program.graph.inputs, s'.files.has m.path) ↔
      ∀ path, fallbackSound? config plan.clip = some path → s'.files.has path := by
  obtain ⟨hinputs, hfallback⟩ := (leads_ofEdit hhost edit).of_ok trivial h
  constructor
  · intro hthere path hpath
    obtain ⟨m, hm, rfl⟩ := hfallback path hpath
    exact hthere m hm
  · intro hthere m hm
    exact (hinputs m hm).elim id (hthere m.path)

/-- A talk with a caption, and a chime from the configuration that is there. -/
theorem has_inputs_ofEdit_of_chime :
    let start : Session :=
      { files := { entries := [(Location.key ["talk.mp4"], .file [120] false),
          (Location.key ["chime.wav"], .file [121] false),
          (Location.key ["scratch"], .directory)] }
        scratch := { root := "/scratch" } }
    let host : Host :=
      { now := ⟨2026, 1, 2, 3, 4, 5⟩, suffix := "a", launch := fun _ _ _ => .error .notFound }
    let config : Config :=
      { render := { preferHardwareEncoder := false, soundEffectPath := some "/chime.wav" } }
    let edit : Edit :=
      { sourcePath := "/talk.mp4", outputPath := some "/out.mp4", trimStartMs := 0,
        trimEndMs := 3000, canvas := .portrait, soundEffects := true,
        segments := [{ text := "hello", startMs := 1000, endMs := 2000 }] }
    ∃ plan s', (ofEdit host config edit).perform start = (.ok plan, s') ∧
      plan.program.graph.inputs.map (·.path) = ["/talk.mp4", "/chime.wav"] ∧
      ∀ m ∈ plan.program.graph.inputs, s'.files.has m.path := by
  intro start host config edit
  have hrun : let done := (ofEdit host config edit).perform start
      done.2.files.has "/chime.wav" ∧ done.1.toOption.map (fun plan =>
        (plan.program.graph.inputs.map (·.path), fallbackSound? config plan.clip)) =
          some (["/talk.mp4", "/chime.wav"], some "/chime.wav") := by
    decide +kernel
  have hhost (path : String) : host.Preserves config.render.tools (·.has path) := by
    intro program _ args now run hrun
    cases hrun
  cases hdone : (ofEdit host config edit).perform start with
  | mk result s' =>
      rw [hdone] at hrun
      obtain ⟨hchime, hfacts⟩ := hrun
      obtain ⟨plan, rfl, hplan⟩ := Outcome.exists_of_map hfacts
      obtain ⟨hpaths, hsound⟩ := Prod.mk.inj hplan
      refine ⟨plan, s', rfl, hpaths, (has_inputs_ofEdit hhost hdone).mpr fun path hpath => ?_⟩
      rwa [← Option.some.inj (hsound.symm.trans hpath)]

/-- The same without the chime: planning ends well, and one input of the program is missing. -/
theorem missing_input_of_chime :
    let start : Session :=
      { files := { entries := [(Location.key ["talk.mp4"], .file [120] false),
          (Location.key ["scratch"], .directory)] }
        scratch := { root := "/scratch" } }
    let host : Host :=
      { now := ⟨2026, 1, 2, 3, 4, 5⟩, suffix := "a", launch := fun _ _ _ => .error .notFound }
    let config : Config :=
      { render := { preferHardwareEncoder := false, soundEffectPath := some "/chime.wav" } }
    let edit : Edit :=
      { sourcePath := "/talk.mp4", outputPath := some "/out.mp4", trimStartMs := 0,
        trimEndMs := 3000, canvas := .portrait, soundEffects := true,
        segments := [{ text := "hello", startMs := 1000, endMs := 2000 }] }
    ∃ plan s', (ofEdit host config edit).perform start = (.ok plan, s') ∧
      ∃ m ∈ plan.program.graph.inputs, ¬ s'.files.has m.path := by
  intro start host config edit
  have hrun : let done := (ofEdit host config edit).perform start
      done.1.toOption.map (fun plan =>
        plan.program.graph.inputs.any fun m => !done.2.files.has m.path) = some true := by
    decide +kernel
  cases hdone : (ofEdit host config edit).perform start with
  | mk result s' =>
      rw [hdone] at hrun
      obtain ⟨plan, rfl, hany⟩ := Outcome.exists_of_map hrun
      obtain ⟨m, hm, hmissing⟩ := List.any_eq_true.mp hany
      exact ⟨plan, s', rfl, m, hm, by simpa using hmissing⟩

end Plan

end Montage
