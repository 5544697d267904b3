import Montage.Proofs.Render.Steps

/-! # Files that survive a render

A render removes the path of its output whenever the run of the encoder has failed, also when it was
never started. All other files survive a render, apart from what the programs do that it starts. -/

/-! ## What the steps of a render leave alone

Until its encoder has failed a render changes files only by the programs that it starts and by
writing into its scratch directory. -/

namespace Montage

/-! ## Programs that leave a file alone -/

/-- The run of a program leaves directories and links as they are, and the file at a location,
whether it is stopped or ends. -/
structure Run.Spares (run : Run) (p : Location) (t : FileTree) : Prop where
  files : t.Spares p run.files
  filesAt : ∀ count, t.Spares p (run.filesAt count)

namespace Host

/-- All programs that the host starts leave directories and links as they are, and the file at a
location. -/
def Spares (host : Host) (p : Location) : Prop :=
  ∀ program args t run, host.launch program args t = .ok run → run.Spares p t

open Classical in
/-- The same host, except that a program leaves all as it was where it would change the file, a
directory or a link. -/
noncomputable def guarding (host : Host) (p : Location) : Host :=
  let guarded (t t' : FileTree) : FileTree := if t.Spares p t' then t' else t
  { host with launch := fun program args t =>
      match host.launch program args t with
      | .ok run =>
          .ok { run with
            files := guarded t run.files
            filesAt := fun count => guarded t (run.filesAt count) }
      | .error e => .error e }

variable {host : Host} {p : Location}

theorem spares_guarding (host : Host) (p : Location) : (host.guarding p).Spares p := by
  classical
  have hguarded (t t' : FileTree) : t.Spares p (if t.Spares p t' then t' else t) := by
    split
    case isTrue h => exact h
    case isFalse => exact .refl p t
  intro program args t run h
  simp only [guarding] at h
  split at h
  case h_1 =>
    cases h
    exact ⟨hguarded _ _, fun _ => hguarded _ _⟩
  case h_2 => cases h

theorem guarding_eq_self (h : host.Spares p) : host.guarding p = host := by
  have hlaunch : (host.guarding p).launch = host.launch := by
    funext program args t
    simp only [guarding]
    split
    case h_1 run hrun =>
      have hspares := h program args t run hrun
      simp only [if_pos hspares.files, if_pos (hspares.filesAt _), hrun]
    case h_2 e he => exact he.symm
  exact congrArg (fun launch => { host with launch }) hlaunch

end Host

/-! ## A file outside the scratch directory -/

/-- A session has its scratch directory at a path, and the file that was at a location. -/
structure Session.Secure (t : FileTree) (p : Location) (root : String) (s : Session) : Prop where
  spares : t.Spares p s.files
  scratch : s.scratch.Rooted root

variable {t : FileTree} {place p : Location} {root : String}

theorem Session.Secure.aligned {s : Session} (h : s.Secure t p root) : t.Aligned s.files :=
  FileTree.aligned_of_link h.spares.link (.refl _)

theorem Session.Secure.invariant {host : Host} (hplaced : Scratch.Placed t place root)
    (hp : ¬ place <+: p) (hhost : host.Spares p) (programs : List String) :
    Session.Invariant host programs (Session.Secure t p root) where
  reported _ _ hs _ := ⟨hs.spares, hs.scratch⟩
  waited _ hs := ⟨hs.spares, hs.scratch⟩
  ran program _ args s run hs hrun s' hs' := by
    have hspares := hhost program args s.files run hrun
    exact ⟨⟨hs.spares.trans hspares.files, hs'.scratch⟩,
      fun count => ⟨hs.spares.trans (hspares.filesAt count), hs'.scratch⟩⟩
  allocated _ hname _ hs := ⟨hs.spares, (hs.scratch.allocate hname).1⟩
  wrote name hname bytes s made hs hwrite := by
    obtain ⟨hscratch, file, hfile, hpath⟩ := hs.scratch.allocate (List.mem_cons_of_mem _ hname)
    rw [hpath] at hwrite
    obtain ⟨executable, hdirectory, hlink, rfl⟩ := hplaced.write_join hs.aligned hfile hwrite
    have hne : p ≠ place ++ [file] := by
      rintro rfl
      exact hp (List.prefix_append _ _)
    exact ⟨hs.spares.trans (.put_file hdirectory hlink hne bytes executable), hscratch⟩
  madeDirectories path s hs :=
    ⟨hs.spares.trans (s.files.spares_createDirectories p path), hs.scratch⟩

end Montage

/-! ## Files that are still there -/

namespace Montage

variable {t : FileTree} {p : Location} {host : Host}

/-- A file survives a render on a host whose programs leave it alone, unless the output was
discarded and its path named the file. -/
theorem entry?_render_of_spares {config : Config} {edit : Edit}
    {cancelled : Nat → List Progress → Bool} {bytes : List UInt8} {executable : Bool}
    (hwf : t.WellFormed) (hp : t.entry? p = some (.file bytes executable)) (hhost : host.Spares p)
    (houtput : ∀ e, (render host config edit cancelled t).result = .error e → e.Discards →
      ∀ t', t.Extends t' → t'.locateEntry (Plan.outputPathOf host config edit) ≠ .ok p) :
    (render host config edit cancelled t).files.entry? p = some (.file bytes executable) := by
  rcases render_cases host config edit cancelled t with
    ⟨t₁, f, hopen, hrender⟩ | ⟨t₁, t₂, scratch, result, s, hopen, hperform, hrender⟩
  · have ht₁ := Render.spares_openScratch host config.render t p
    rw [hopen] at ht₁
    rw [hrender]
    exact ht₁.file bytes executable hp
  obtain ⟨hspares, parent, hnew⟩ := Render.openScratch_eq_ok hopen
  have ht₁ := hspares p
  obtain ⟨place, -, hplaced, hnone, rfl⟩ := Scratch.placed_of_new hwf ht₁.toExtends hnew
  obtain ⟨rfl, -⟩ := Scratch.new_eq_ok hnew
  have houtside : ¬ place <+: p :=
    hwf.not_prefix ht₁.toExtends hp (by simp [ht₁.file _ _ hp]) hnone
  let tracker := (({} : Tracker).report ⟨.preparing, 0, none⟩).1
  let root := Scratch.rootIn t₁ parent host.suffix
  have hstart : Session.Secure t₁ p root
      { files := t₁.put place .directory, scratch := { root }, tracker, cancelled } :=
    ⟨.put_directory p hnone, Scratch.rooted_new root⟩
  -- Until the output is discarded the file is there, and the cleanup does not reach it.
  have hkept {s' : Session} (hs' : s'.Secure t₁ p root) :
      s'.files.entry? p = some (.file bytes executable) :=
    hs'.spares.file _ _ (ht₁.file _ _ hp)
  rw [hrender] at houtput ⊢
  rcases Render.inScratch_ended (Session.Secure.invariant hplaced houtside hhost _) edit hstart with
    hs | ⟨e, s', he, hs', hdiscarded⟩
  · rw [hperform] at hs
    rw [hplaced.entry?_cleanup hs.scratch hs.aligned houtside, hkept hs]
  · rw [hperform] at hdiscarded
    obtain ⟨rfl, rfl⟩ := Prod.mk.inj hdiscarded
    have hnamed := houtput e rfl he s'.files (ht₁.toExtends.trans hs'.spares.toExtends)
    have haligned := hs'.aligned.within
      (s'.files.within_withoutFile (Plan.outputPathOf host config edit))
    rw [hplaced.entry?_cleanup hs'.scratch haligned houtside,
      FileTree.entry?_withoutFile hnamed, hkept hs']

/-- Whatever its result, a render leaves a file as it was that no program changes, unless the output
is discarded and has the path of the file. That no program changes the file, a directory or a link
is said by the render being the same on the host that guards them. -/
theorem file_survives_render {host : Host} {config : Config} {edit : Edit}
    {cancelled : Nat → List Progress → Bool} {t : FileTree} {p : Location} {bytes : List UInt8}
    {executable : Bool} (hwf : t.WellFormed) (hp : t.entry? p = some (.file bytes executable))
    (hguarded : render (host.guarding p) config edit cancelled t =
      render host config edit cancelled t)
    (houtput : ∀ e, (render host config edit cancelled t).result = .error e → e.Discards →
      ∀ t', t.Extends t' → t'.locateEntry (Plan.outputPathOf host config edit) ≠ .ok p) :
    (render host config edit cancelled t).files.entry? p = some (.file bytes executable) := by
  rw [← hguarded] at houtput ⊢
  exact entry?_render_of_spares hwf hp (host.spares_guarding p) houtput

/-- An encoder that leaves a part of its output and fails: the part is removed, the source is
not. -/
theorem talk_survives_render :
    let t : FileTree :=
      { entries := [(Location.key ["talk.mp4"], .file [120] false),
          (Location.key ["scratch"], .directory)] }
    let host : Host :=
      { now := ⟨2026, 1, 2, 3, 4, 5⟩, suffix := "a"
        launch := fun program _ t =>
          if program = "ffmpeg" ∧ t.entry? ["out.mp4"] = none then
            let files := t.put ["out.mp4"] (.file [0] false)
            .ok { status := .exited 1, files, filesAt := fun _ => files }
          else .error .notFound }
    let config : Config :=
      { render := { preferHardwareEncoder := false, tempDir := some "/scratch" } }
    let edit : Edit :=
      { sourcePath := "/talk.mp4", outputPath := some "/out.mp4", trimStartMs := 0,
        trimEndMs := 3000, canvas := .portrait }
    let rendered := render host config edit (fun _ _ => false) t
    rendered.result = .error (.fault (.encode "Encoder exited with exit status: 1" "")) ∧
      rendered.files.entry? ["out.mp4"] = none ∧
      rendered.files.entry? ["talk.mp4"] = some (.file [120] false) := by
  intro t host config edit rendered
  have hspares : host.Spares ["talk.mp4"] := by
    intro program args now run hrun
    simp only [host] at hrun
    split at hrun
    case isTrue hstarted =>
      cases hrun
      have hput : now.Spares ["talk.mp4"] (now.put ["out.mp4"] (.file [0] false)) :=
        .put_file (by simp [hstarted.2]) (by simp [hstarted.2]) (by decide) [0] false
      exact ⟨hput, fun _ => hput⟩
    case isFalse => cases hrun
  have hrun : (rendered.result, rendered.files.entry? ["out.mp4"]) =
      (.error (.fault (.encode "Encoder exited with exit status: 1" "")), none) := by
    decide +kernel
  obtain ⟨hresult, hremoved⟩ := Prod.mk.inj hrun
  refine ⟨hresult, hremoved, ?_⟩
  refine file_survives_render (FileTree.wellFormed_of_entries (by decide)) rfl ?_ ?_
  · rw [Host.guarding_eq_self hspares]
  · intro e _ _ t' ht'
    exact ht'.locateEntry_ne (q := ["out.mp4"]) (by decide +kernel) (by decide)

/-- An encoder that cannot be started: the source is removed if the output has its path. -/
theorem talk_lost_in_render :
    let t : FileTree :=
      { entries := [(Location.key ["talk.mp4"], .file [120] false),
          (Location.key ["scratch"], .directory)] }
    let host : Host :=
      { now := ⟨2026, 1, 2, 3, 4, 5⟩, suffix := "a", launch := fun _ _ _ => .error .notFound }
    let config : Config :=
      { render := { preferHardwareEncoder := false, tempDir := some "/scratch" } }
    let edit : Edit :=
      { sourcePath := "/talk.mp4", outputPath := some "/talk.mp4", trimStartMs := 0,
        trimEndMs := 3000, canvas := .portrait }
    let rendered := render host config edit (fun _ _ => false) t
    host.Spares ["talk.mp4"] ∧ t.entry? ["talk.mp4"] = some (.file [120] false) ∧
      rendered.result = .error (.fault (.encode "Failed to start ffmpeg"
        "No such file or directory (os error 2)")) ∧
      rendered.files.entry? ["talk.mp4"] = none := by
  intro t host config edit rendered
  have hspares : host.Spares ["talk.mp4"] := by
    intro program args now run hrun
    cases hrun
  have hrun : (rendered.result, rendered.files.entry? ["talk.mp4"]) =
      (.error (.fault (.encode "Failed to start ffmpeg" "No such file or directory (os error 2)")),
        none) := by
    decide +kernel
  obtain ⟨hresult, hremoved⟩ := Prod.mk.inj hrun
  exact ⟨hspares, rfl, hresult, hremoved⟩

end Montage
