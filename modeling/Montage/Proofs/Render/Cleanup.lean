import Montage.Proofs.Render.Steps

/-! # What a render leaves behind

A render removes its scratch directory whatever its result. All files that it makes itself are in
there, as long as the programs that it starts leave the links as they are. -/

namespace Montage

/-! ## What programs do -/

namespace Host

/-- The files before and after each run of a program are related, whether it is stopped or ends. -/
def Runs (host : Host) (R : FileTree → FileTree → Prop) : Prop :=
  ∀ program args t run, host.launch program args t = .ok run →
    R t run.files ∧ ∀ count, R t (run.filesAt count)

/-- The programs leave links as they are. -/
def KeepsLinks (host : Host) : Prop :=
  host.Runs fun t t' => ∀ p target,
    t.entry? p = some (.link target) ↔ t'.entry? p = some (.link target)

/-- The programs make no file at a location. -/
def MakesNoFile (host : Host) (p : Location) : Prop :=
  host.Runs fun t t' => t.NoFile p → t'.NoFile p

end Host

/-! ## The scratch directory of a session -/

/-- A session has its scratch directory at a path and the links of the tree it began with, and no
file at some locations. -/
structure Session.Contained (t : FileTree) (root : String) (clear : Location → Prop) (s : Session) :
    Prop where
  link : ∀ p target, t.entry? p = some (.link target) ↔ s.files.entry? p = some (.link target)
  scratch : s.scratch.Rooted root
  noFile : ∀ p, clear p → s.files.NoFile p

theorem Session.invariant_rooted (host : Host) (programs : List String) (root : String) :
    Session.Invariant host programs (·.scratch.Rooted root) where
  reported _ _ hs _ := hs
  waited _ hs := hs
  ran _ _ _ _ _ _ _ _ hs' := ⟨hs', fun _ => hs'⟩
  allocated _ hname _ hs := (hs.allocate hname).1
  wrote _ hname _ _ _ hs _ := (hs.allocate (List.mem_cons_of_mem _ hname)).1
  madeDirectories _ _ hs := hs

/-- Files are written into the scratch directory, and programs are trusted with the rest. -/
theorem Session.Contained.invariant {host : Host} {t : FileTree} {place : Location} {root : String}
    {clear : Location → Prop} (hplaced : Scratch.Placed t place root) (hlinks : host.KeepsLinks)
    (hclear : ∀ p, clear p → ¬ place <+: p ∧ host.MakesNoFile p) (programs : List String) :
    Session.Invariant host programs (Session.Contained t root clear) where
  reported _ _ hs _ := ⟨hs.link, hs.scratch, hs.noFile⟩
  waited _ hs := ⟨hs.link, hs.scratch, hs.noFile⟩
  ran program _ args s run hs hrun s' hs' := by
    obtain ⟨hlink, hlinkAt⟩ := hlinks program args s.files run hrun
    have hnoFile (p : Location) (hp : clear p) := (hclear p hp).2 program args s.files run hrun
    refine ⟨⟨fun p target => (hs.link p target).trans (hlink p target), hs'.scratch,
      fun p hp => (hnoFile p hp).1 (hs.noFile p hp)⟩, fun count => ?_⟩
    exact ⟨fun p target => (hs.link p target).trans (hlinkAt count p target), hs'.scratch,
      fun p hp => (hnoFile p hp).2 count (hs.noFile p hp)⟩
  allocated _ hname _ hs := ⟨hs.link, (hs.scratch.allocate hname).1, hs.noFile⟩
  wrote name hname bytes s made hs hwrite := by
    obtain ⟨hscratch, file, hfile, hpath⟩ := hs.scratch.allocate (List.mem_cons_of_mem _ hname)
    rw [hpath] at hwrite
    obtain ⟨executable, hdirectory, hlink, rfl⟩ :=
      hplaced.write_join (FileTree.aligned_of_link hs.link (.refl _)) hfile hwrite
    have hextends := FileTree.Extends.put_file hdirectory hlink bytes executable
    refine ⟨fun p target => (hs.link p target).trans (hextends.link p target), hscratch,
      fun p hp => (hs.noFile p hp).put_of_ne ?_ _⟩
    rintro rfl
    exact (hclear _ hp).1 (List.prefix_append _ _)
  madeDirectories path s hs := by
    have hextends := (s.files.spares_createDirectories [] path).toExtends
    exact ⟨fun p target => (hs.link p target).trans (hextends.link p target), hs.scratch,
      fun p hp => (hs.noFile p hp).createDirectories path⟩

/-! ## Renders -/

namespace Render

/-- Where a render makes its scratch directory, and the session in which it removes it. -/
def scratchOf? (host : Host) (config : Config) (edit : Edit)
    (cancelled : Nat → List Progress → Bool) (t : FileTree) : Option (Location × Session) :=
  match openScratch host config.render t with
  | (_, .error _) => none
  | (t₁, .ok (t₂, scratch)) =>
      match t₁.locateEntry scratch.root with
      | .error _ => none
      | .ok place =>
          let tracker := (({} : Tracker).report ⟨.preparing, 0, none⟩).1
          some (place, ((inScratch host config edit).perform
            { files := t₂, scratch, tracker, cancelled }).2)

/-- What a render leaves behind. -/
structure Tidy (host : Host) (config : Config) (edit : Edit)
    (cancelled : Nat → List Progress → Bool) (t : FileTree) : Prop where
  /-- A scratch directory that was made has a place, which is where the rest looks for it. -/
  opened : (openScratch host config.render t).2.isOk →
    (scratchOf? host config edit cancelled t).isSome
  /-- The path of the scratch directory names nothing but perhaps a file that a program has put in
  its place, and no path that was handed out leads anywhere. -/
  removed : ∀ place s, scratchOf? host config edit cancelled t = some (place, s) →
    (render host config edit cancelled t).files.Barren s.scratch.root ∧
      ∀ path ∈ s.scratch.registered, ∀ q,
        (render host config edit cancelled t).files.locateEntry path ≠ .ok q
  /-- If its path still leads to the scratch directory, all that was in there is gone. -/
  emptied : host.KeepsLinks →
    ∀ place s, scratchOf? host config edit cancelled t = some (place, s) →
      s.files.locateEntry s.scratch.root = .ok place → s.files.entry? place = some .directory →
      ∀ p, place <+: p → (render host config edit cancelled t).files.entry? p = none
  /-- A file has come up outside the scratch directory only if a program has made one there. -/
  outside : host.KeepsLinks → ∀ p, host.MakesNoFile p → t.NoFile p →
    (∀ place s, scratchOf? host config edit cancelled t = some (place, s) → ¬ place <+: p) →
      (render host config edit cancelled t).files.NoFile p

variable {host : Host} {config : Config} {edit : Edit} {cancelled : Nat → List Progress → Bool}
  {t : FileTree} {place : Location} {s : Session}

theorem noFile_openScratch (host : Host) (settings : RenderSettings) {p : Location}
    (h : t.NoFile p) : (openScratch host settings t).1.NoFile p :=
  openScratch_keeps (R := fun t t' => t.NoFile p → t'.NoFile p) (fun _ => id)
    (fun _ _ _ h h' => h' ∘ h) (fun _ _ hq h => h.put_directory hq) host settings t h

/-! ## Once the scratch directory was made -/

/-- A scratch directory that was made at a place where nothing was. -/
structure Opened (t₁ t₂ : FileTree) (scratch : Scratch) (place : Location) : Prop where
  located : t₁.locateEntry scratch.root = .ok place
  placed : Scratch.Placed t₁ place scratch.root
  fresh : t₁.entry? place = none
  made : t₂ = t₁.put place .directory
  rooted : scratch.Rooted scratch.root
  named : ∃ parent name, Path.isAbsolute parent ∧ Path.OnePart name ∧
    scratch.root = Path.join parent name

theorem opened_of_openScratch {settings : RenderSettings} {t₁ t₂ : FileTree} {scratch : Scratch}
    (hwf : t.WellFormed) (hsuffix : '/' ∉ host.suffix.toList)
    (hopen : openScratch host settings t = (t₁, .ok (t₂, scratch))) :
    ∃ place, Opened t₁ t₂ scratch place := by
  obtain ⟨hspares, parent, hnew⟩ := openScratch_eq_ok hopen
  obtain ⟨place, hplace, hplaced, hnone, rfl⟩ :=
    Scratch.placed_of_new hwf (hspares []).toExtends hnew
  obtain ⟨rfl, -⟩ := Scratch.new_eq_ok hnew
  obtain ⟨whole, hwhole, hjoin⟩ := Scratch.exists_rootIn_eq_join t₁ parent host.suffix
  exact ⟨place, hplace, hplaced, hnone, rfl, Scratch.rooted_new _, whole, _, hwhole,
    Scratch.onePart_nameStart_append hsuffix, hjoin⟩

namespace Opened

variable {start : Session} {t₁ t₂ : FileTree} {scratch : Scratch}

/-- What the cleanup does to the paths of the scratch directory. -/
theorem barren_cleanup (h : Opened t₁ t₂ scratch place) (hscratch : start.scratch = scratch)
    (hs : s = ((inScratch host config edit).perform start).2) :
    (s.scratch.cleanup s.files).2.Barren s.scratch.root ∧ ∀ path ∈ s.scratch.registered, ∀ q,
      (s.scratch.cleanup s.files).2.locateEntry path ≠ .ok q := by
  obtain ⟨parent, name, hparent, hname, hroot⟩ := h.named
  have hrooted := Session.invariant_rooted host config.render.tools scratch.root
  have hstart : start.scratch.Rooted scratch.root := hscratch ▸ h.rooted
  obtain ⟨s', hs', files, -, hdone⟩ := (inScratch_ended hrooted edit hstart).exists_within
  rw [hdone] at hs
  subst hs
  rw [hs'.root_eq]
  exact hs'.barren_cleanup hparent hname hroot files

/-- What holds before the cleanup, when the output may have been discarded. -/
theorem contained_ended (h : Opened t₁ t₂ scratch place) (hscratch : start.scratch = scratch)
    (hfiles : start.files = t₂) (hlinks : host.KeepsLinks) (clear : Location → Prop)
    (hclear : ∀ p, clear p → ¬ place <+: p ∧ host.MakesNoFile p)
    (hnoFile : ∀ p, clear p → t₁.NoFile p)
    (hs : s = ((inScratch host config edit).perform start).2) :
    s.scratch.Rooted scratch.root ∧ t₁.Aligned s.files ∧ ∀ p, clear p → s.files.NoFile p := by
  have hinvariant := Session.Contained.invariant h.placed hlinks hclear config.render.tools
  have hstart : start.Contained t₁ scratch.root clear := by
    have hspares := FileTree.Spares.put_directory [] h.fresh
    refine ⟨fun p target => ?_, hscratch ▸ h.rooted, fun p hp => ?_⟩ <;> rw [hfiles, h.made]
    · exact hspares.link p target
    · exact (hnoFile p hp).put_directory h.fresh
  obtain ⟨s', hs', files, hwithin, hdone⟩ := (inScratch_ended hinvariant edit hstart).exists_within
  rw [hdone] at hs
  subst hs
  exact ⟨hs'.scratch, FileTree.aligned_of_link hs'.link hwithin,
    fun p hp => (hs'.noFile p hp).within hwithin⟩

theorem emptied_cleanup (h : Opened t₁ t₂ scratch place) (hscratch : start.scratch = scratch)
    (hfiles : start.files = t₂) (hlinks : host.KeepsLinks)
    (hs : s = ((inScratch host config edit).perform start).2)
    (hroot : s.files.locateEntry s.scratch.root = .ok place)
    (hdirectory : s.files.entry? place = some .directory) {p : Location} (hp : place <+: p) :
    FileTree.entry? (s.scratch.cleanup s.files).2 p = none := by
  obtain ⟨hrooted, haligned, -⟩ := h.contained_ended hscratch hfiles hlinks (fun _ => False)
    (fun _ => False.elim) (fun _ => False.elim) hs
  have hne : place ≠ [] := FileTree.ne_root_of_not_directory (t := t₁) (by simp [h.fresh])
  rw [hrooted.root_eq] at hroot
  exact h.placed.entry?_cleanup_of_below hrooted haligned hroot hdirectory hne hp

theorem noFile_cleanup (h : Opened t₁ t₂ scratch place) (hscratch : start.scratch = scratch)
    (hfiles : start.files = t₂) (hlinks : host.KeepsLinks)
    (hs : s = ((inScratch host config edit).perform start).2) {p : Location} (hp : ¬ place <+: p)
    (hmakes : host.MakesNoFile p) (hnoFile : t₁.NoFile p) :
    (s.scratch.cleanup s.files).2.NoFile p := by
  obtain ⟨hrooted, -, hclear⟩ := h.contained_ended hscratch hfiles hlinks (· = p)
    (fun _ heq => heq ▸ ⟨hp, hmakes⟩) (fun _ heq => heq ▸ hnoFile) hs
  exact (hclear p rfl).within (hrooted.within_cleanup s.files)

end Opened

end Render

/-- On every way out a render removes its scratch directory, and it makes no file elsewhere. -/
theorem tidy_render {host : Host} {t : FileTree} (hwf : t.WellFormed)
    (hsuffix : '/' ∉ host.suffix.toList) (config : Config) (edit : Edit)
    (cancelled : Nat → List Progress → Bool) : Render.Tidy host config edit cancelled t := by
  have hbefore {p : Location} := Render.noFile_openScratch (p := p) host config.render (t := t)
  rcases render_cases host config edit cancelled t with
    ⟨t₁, f, hopen, hrender⟩ | ⟨t₁, t₂, scratch, result, s, hopen, hperform, hrender⟩
  · have hnone : Render.scratchOf? host config edit cancelled t = none := by
      rw [Render.scratchOf?, hopen]
    rw [hopen] at hbefore
    refine ⟨by simp [hopen, Except.isOk, Except.toBool], ?_, fun _ => ?_, fun _ p _ hp _ => ?_⟩
    · simp [hnone]
    · simp [hnone]
    · rw [hrender]
      exact hbefore hp
  obtain ⟨place, hopened⟩ := Render.opened_of_openScratch hwf hsuffix hopen
  have hscratch : Render.scratchOf? host config edit cancelled t = some (place, s) := by
    simp only [Render.scratchOf?, hopen, hopened.located, hperform]
  have hs := (congrArg Prod.snd hperform).symm
  rw [hopen] at hbefore
  refine ⟨fun _ => hscratch ▸ rfl, ?removed, ?emptied, ?outside⟩ <;> rw [hrender]
  case removed =>
    rintro _ _ h
    obtain ⟨rfl, rfl⟩ := Prod.mk.inj (Option.some.inj (hscratch.symm.trans h))
    exact hopened.barren_cleanup rfl hs
  case emptied =>
    intro hlinks _ _ h hroot hdirectory p hp
    obtain ⟨rfl, rfl⟩ := Prod.mk.inj (Option.some.inj (hscratch.symm.trans h))
    exact hopened.emptied_cleanup rfl rfl hlinks hs hroot hdirectory hp
  case outside =>
    intro hlinks p hmakes hp houtside
    exact hopened.noFile_cleanup rfl rfl hlinks hs (houtside place s hscratch) hmakes (hbefore hp)

/-- An encoder that leaves a file in the scratch directory and writes no output. -/
theorem tidy_render_of_stray :
    let t : FileTree :=
      { entries := [(Location.key ["talk.mp4"], .file [120] false),
          (Location.key ["scratch"], .directory)] }
    let stray := ["scratch", "reelcut-render-a", "stray"]
    let host : Host :=
      { now := ⟨2026, 1, 2, 3, 4, 5⟩, suffix := "a"
        launch := fun program _ t =>
          if program = "ffmpeg" ∧ t.entry? stray = none then
            let files := t.put stray (.file [0] false)
            .ok { files, filesAt := fun _ => files }
          else .error .notFound }
    let config : Config :=
      { render := { preferHardwareEncoder := false, tempDir := some "/scratch" } }
    let edit : Edit :=
      { sourcePath := "/talk.mp4", outputPath := some "/out.mp4", trimStartMs := 0,
        trimEndMs := 3000, canvas := .portrait
        segments := [{ text := "hello", startMs := 1000, endMs := 2000 }] }
    let rendered := render host config edit (fun _ _ => false) t
    ∃ s, Render.scratchOf? host config edit (fun _ _ => false) t =
        some (["scratch", "reelcut-render-a"], s) ∧
      s.scratch.registered = ["/scratch/reelcut-render-a/captions-000.ass"] ∧
      ¬ s.files.NoFile stray ∧
      (∀ q, rendered.files.locateEntry "/scratch/reelcut-render-a/captions-000.ass" ≠ .ok q) ∧
      rendered.files.entry? stray = none ∧ rendered.files.NoFile ["leak.ass"] := by
  intro t stray host config edit rendered
  have hrun : (Render.scratchOf? host config edit (fun _ _ => false) t).any fun (place, s) =>
      place = ["scratch", "reelcut-render-a"] ∧
        s.scratch.registered = ["/scratch/reelcut-render-a/captions-000.ass"] ∧
        ¬ s.files.NoFile stray ∧ s.files.locateEntry s.scratch.root = .ok place ∧
        s.files.entry? place = some .directory := by
    decide +kernel
  obtain ⟨⟨place, s⟩, hscratch, hfacts⟩ := (Option.any_eq_true _ _).mp hrun
  obtain ⟨rfl, hregistered, hstray, hroot, hthere⟩ := of_decide_eq_true hfacts
  have hlinks : host.KeepsLinks := by
    intro program args now run hlaunch
    simp only [host] at hlaunch
    split at hlaunch
    case isTrue hfree =>
      cases hlaunch
      have hextends := FileTree.Extends.put_file (t := now) (q := stray) (by simp [hfree.2])
        (by simp [hfree.2]) [0] false
      exact ⟨hextends.link, fun _ => hextends.link⟩
    case isFalse => cases hlaunch
  have hmakes : host.MakesNoFile ["leak.ass"] := by
    intro program args now run hlaunch
    simp only [host] at hlaunch
    split at hlaunch
    case isTrue =>
      cases hlaunch
      have hput (h : now.NoFile ["leak.ass"]) :=
        h.put_of_ne (q := stray) (by decide) (.file [0] false)
      exact ⟨hput, fun _ => hput⟩
    case isFalse => cases hlaunch
  have htidy : Render.Tidy host config edit (fun _ _ => false) t :=
    tidy_render (FileTree.wellFormed_of_entries (by decide)) (by decide) config edit _
  refine ⟨s, hscratch, hregistered, hstray, fun q => ?_, ?_, ?_⟩
  · exact (htidy.removed _ s hscratch).2 _ (by rw [hregistered]; exact List.mem_singleton_self _) q
  · exact htidy.emptied hlinks _ s hscratch hroot hthere stray (by decide)
  · refine htidy.outside hlinks ["leak.ass"] hmakes (by decide) fun place s' h => ?_
    obtain ⟨rfl, -⟩ := Prod.mk.inj (Option.some.inj (hscratch.symm.trans h))
    decide

/-- A program that puts a link where the captions are written next: they come up outside. -/
theorem leak_through_link :
    let t : FileTree :=
      { entries := [(Location.key ["talk.mp4"], .file [120] false),
          (Location.key ["scratch"], .directory)] }
    let captions := ["scratch", "reelcut-render-a", "captions-000.ass"]
    let host : Host :=
      { now := ⟨2026, 1, 2, 3, 4, 5⟩, suffix := "a"
        launch := fun program _ t =>
          if program = "ffprobe" then
            let files := t.put captions (.link "/leak.ass")
            .ok { files, filesAt := fun _ => files }
          else .error .notFound }
    let config : Config :=
      { render := { preferHardwareEncoder := false, tempDir := some "/scratch" } }
    let edit : Edit :=
      { sourcePath := "/talk.mp4", outputPath := some "/out.mp4", trimStartMs := 0,
        trimEndMs := 3000, canvas := .portrait
        segments := [{ text := "hello", startMs := 1000, endMs := 2000 }] }
    (∃ s, Render.scratchOf? host config edit (fun _ _ => false) t =
        some (["scratch", "reelcut-render-a"], s)) ∧
      host.MakesNoFile ["leak.ass"] ∧ t.NoFile ["leak.ass"] ∧
      ¬ (render host config edit (fun _ _ => false) t).files.NoFile ["leak.ass"] := by
  intro t captions host config edit
  have hrun : (Render.scratchOf? host config edit (fun _ _ => false) t).map Prod.fst =
      some ["scratch", "reelcut-render-a"] := by
    decide +kernel
  obtain ⟨⟨place, s⟩, hscratch, rfl⟩ := Option.map_eq_some_iff.mp hrun
  refine ⟨⟨s, hscratch⟩, ?_, by decide, by decide +kernel⟩
  intro program args now run hlaunch
  simp only [host] at hlaunch
  split at hlaunch
  case isTrue =>
    cases hlaunch
    have hput (h : now.NoFile ["leak.ass"]) :=
      h.put_of_ne (q := captions) (by decide) (.link "/leak.ass")
    exact ⟨hput, fun _ => hput⟩
  case isFalse => cases hlaunch

end Montage
