import Montage.Proofs.Compile.Program
import Montage.Proofs.Locate.Regions
import Montage.Proofs.Render.Inputs
import Montage.Proofs.Render.Scratch

/-! # When there is a plan

Planning fails for an edit that is refused, for a file that is missing and for an inline image that
cannot be decoded. If the scratch directory takes what is written there, it fails for nothing
else. -/

namespace Montage

/-! ## Subjects -/

/-- At most three subjects are asked for in an edit that keeps the rules. -/
theorem Edit.subjectCount_le {e : Edit} (h : e.problems = []) :
    e.subjectCount ≤ Problem.maxSubjects := by
  simp only [problems, List.append_eq_nil_iff, Problem.ensure_eq_nil, Bool.and_eq_true,
    decide_eq_true_eq] at h
  exact h.1.1.1.1.1.1.1.2.2

/-! ## The scratch directory -/

/-- A place for a file in the scratch directory. -/
def Scratch.IsPlace (root path : String) : Prop :=
  ∃ name ∈ names, ∃ id, path = Path.join root (fileName name.1 name.2 id)

/-- So many files more can be written into a scratch directory. -/
def Scratch.Takes (t : FileTree) (s : Scratch) (count : Nat) : Prop :=
  ∀ name ∈ names, ∀ i < count, t.Takes (Path.join s.root (fileName name.1 name.2 (s.nextId + i)))

instance Scratch.decidableTakes (t : FileTree) (s : Scratch) (count : Nat) :
    Decidable (s.Takes t count) :=
  inferInstanceAs (Decidable (∀ name ∈ names, ∀ i < count,
    t.Takes (Path.join s.root (fileName name.1 name.2 (s.nextId + i)))))

/-- Nobody cancels, and so many files more can be written into the scratch directory. -/
structure Session.Ready (root : String) (count : Nat) (s : Session) : Prop where
  steady : ∀ waits events, s.cancelled waits events = false
  root : s.scratch.root = root
  takes : s.scratch.Takes s.files count

namespace Scratch.Takes

variable {t t' : FileTree} {s : Scratch} {count : Nat} {stem extension : String}

theorem allocate (h : s.Takes t (count + 1)) (stem extension : String) :
    (s.allocate stem extension).1.Takes t count := by
  intro name hname i hi
  have hnext : s.nextId + 1 + i = s.nextId + (i + 1) := by omega
  change t.Takes (Path.join s.root (fileName name.1 name.2 (s.nextId + 1 + i)))
  rw [hnext]
  exact h name hname (i + 1) (by omega)

theorem fewer {few : Nat} (h : s.Takes t count) (hle : few ≤ count) : s.Takes t few :=
  fun name hname i hi => h name hname i (hi.trans_le hle)

theorem retains (h : s.Takes t count) (ht : t.Retains t') : s.Takes t' count :=
  fun name hname i hi => ht.takes (h name hname i hi)

theorem first (h : s.Takes t (count + 1)) (hname : (stem, extension) ∈ Scratch.names) :
    t.Takes (s.allocate stem extension).2 := h _ hname 0 (by omega)

end Scratch.Takes

theorem Session.Ready.fewer {root : String} {count few : Nat} {s : Session}
    (h : s.Ready root count) (hle : few ≤ count) : s.Ready root few :=
  ⟨h.steady, h.root, h.takes.fewer hle⟩

namespace Work

variable {host : Host} {programs : List String} {root : String} {count : Nat}

theorem steady_ready (count : Nat)
    (hhost : ∀ path, Scratch.IsPlace root path → host.Preserves programs (·.Takes path)) :
    Steady host programs (fun _ => False) (Session.Ready root count) where
  report _ _ := .modify fun _ hs => ⟨hs.steady, hs.root, hs.takes⟩
  pause := .get fun s hs => .bind (.set ⟨hs.steady, hs.root, hs.takes⟩) fun _ _ =>
    .ite (fun hcancelled => by simp [hs.steady] at hcancelled) fun _ => .pure trivial
  launched program hprogram args s run hs hrun := by
    refine ⟨hs.steady, hs.root, fun name hname i hi => ?_⟩
    have hplace : Scratch.IsPlace root
        (Path.join s.scratch.root (Scratch.fileName name.1 name.2 (s.scratch.nextId + i))) :=
      ⟨name, hname, _, by rw [hs.root]⟩
    exact hhost _ hplace program hprogram args s.files run hrun (hs.takes name hname i hi)

theorem leads_writeScratch_ready {stem extension : String}
    (hname : (stem, extension) ∈ Scratch.names) (bytes : List UInt8)
    {D : Failure → Session → Prop} :
    Leads (Session.Ready root (count + 1)) (writeScratch stem extension bytes)
      (fun _ => Session.Ready root count) D := by
  refine leads_writeScratch (fun s t hs hwrite => ⟨hs.steady, hs.root, ?_⟩) fun s e hs hwrite => ?_
  · exact (hs.takes.allocate stem extension).retains (FileTree.retains_of_write hwrite)
  · obtain ⟨t, hmade⟩ := (hs.takes.first hname).write bytes
    rw [hmade] at hwrite
    cases hwrite

end Work

/-! ## What can fail -/

/-- The image of a sticker is a file, or it can be decoded. -/
def ClipSticker.Decodes (s : ClipSticker) : Prop :=
  ∀ url, s.source = .inline url → ∃ image, DataUrl.decode url = .ok image

/-- What is said about a payload that cannot be decoded does not matter to one that can be. -/
theorem DataUrl.decode_eq_ok_iff {url : String} {image : List UInt8 × String}
    (complain : Complaint) : decode url complain = .ok image ↔ decode url = .ok image := by
  rw [decode, decode]
  split
  case h_1 => rfl
  case h_2 =>
    split
    case h_1 => rfl
    case h_2 =>
      dsimp only
      split
      case h_1 => simp
      case h_2 => rfl

/-- An edit has a clip with captions, and no file of it is missing. -/
def Edit.Accepted (e : Edit) (fileExists : String → Bool) : Prop :=
  (∃ clip, Clip.ofEdit e = .ok clip ∧ ∃ captions, Caption.ofClip clip = .ok captions) ∧
    e.missingFiles fileExists = []

/-- Stickers may be left out of a clip, but none is added. -/
theorem Clip.length_stickers_ofEdit {e : Edit} {clip : Clip} (h : ofEdit e = .ok clip) :
    clip.stickers.length ≤ e.stickers.length := by
  obtain ⟨-, ordered, cutaways, stickers, -, -, hstickers, rfl⟩ := ofEdit_eq_ok h
  have hlength := List.length_filterMap_le (·.toClip? ⟨_, _, e.speed, ordered⟩) e.stickers
  rwa [hstickers, List.length_map] at hlength

/-- An accepted edit has a program, if there is an image for each sticker. -/
theorem Program.exists_compile {e : Edit} {clip : Clip} (hclip : Clip.ofEdit e = .ok clip)
    (probe : Probe) {subjects : List Region} (hsubjects : subjects.length < 2147483648)
    (assets : Assets) (hcount : assets.stickerPaths.length = clip.stickers.length) :
    ∃ p, compile clip probe subjects assets = .ok p := by
  have hplaceable := Video.placeable_ofEdit hclip
  obtain ⟨v, picture, hvideo, hv⟩ := Video.compile_ends hplaceable probe hsubjects hcount
  obtain ⟨a, sound, haudio, ha⟩ := Audio.compile_ends clip probe assets.soundEffectPath
  refine ⟨{ graph := union (v.finish (some picture) none) (a.finish none (some sound))
            durationMs := clip.durationMs }, ?_⟩
  rw [compile, hvideo]
  simp [haudio, hv.merge ha, bind, Except.bind, Except.mapError, Outcome.ofExcept]

namespace Plan

variable {host : Host} {config : Config} {edit : Edit} {clip : Clip} {root : String} {count : Nat}

open Work (Leads Steady)

theorem leads_stickerFile_ready (s : ClipSticker) :
    Leads (Session.Ready root (count + 1)) (stickerFile host s)
      (fun _ now => Session.Ready root count now ∧ s.Decodes) fun _ _ => ¬ s.Decodes := by
  rw [stickerFile]
  split
  case h_1 path hfile =>
    refine .pure fun now hnow => ⟨hnow.fewer (by omega), fun url hurl => ?_⟩
    rw [hfile] at hurl
    cases hurl
  case h_2 url hinline =>
    have hdecodes : s.Decodes ↔
        ∃ image, Outcome.ofExcept (DataUrl.decode url host.complaints.payload) = .ok image := by
      simp [ClipSticker.Decodes, hinline, Outcome.ofExcept_eq_ok_iff, DataUrl.decode_eq_ok_iff]
    refine .ofOutcome_bind (fun image himage => ?_) fun e hrefused _ _ hstickers => ?refused
    case refused =>
      obtain ⟨image, himage⟩ := hdecodes.mp hstickers
      cases hrefused.symm.trans himage
    obtain ⟨bytes, extension⟩ := image
    have hname := Scratch.mem_names_of_decode (Outcome.ofExcept_eq_ok_iff.mp himage)
    exact (Work.leads_writeScratch_ready hname bytes).mono (fun _ => id)
      (fun _ _ hnow => ⟨hnow, hdecodes.mpr ⟨_, himage⟩⟩) fun _ _ => id

/-- The images of all stickers are there, unless one of them cannot be decoded. -/
theorem leads_stickerFiles_ready (stickers : List ClipSticker) :
    Leads (Session.Ready root (stickers.length + count)) (stickers.mapM (stickerFile host))
      (fun files now => Session.Ready root count now ∧ files.length = stickers.length ∧
        ∀ s ∈ stickers, s.Decodes)
      fun _ _ => ¬ ∀ s ∈ stickers, s.Decodes := by
  have hstep (s : ClipSticker) (hs : s ∈ stickers) (rest : List ClipSticker) (_ : List String) :
      Leads (Session.Ready root ((s :: rest).length + count)) (stickerFile host s)
        (fun _ now => Session.Ready root (rest.length + count) now ∧ s.Decodes ∧ True)
        fun _ _ => ¬ ∀ s ∈ stickers, s.Decodes := by
    rw [List.length_cons, Nat.add_right_comm]
    exact (leads_stickerFile_ready s).mono (fun _ => id)
      (fun _ _ hnow => ⟨hnow.1, hnow.2, trivial⟩) fun _ _ hrefused hall => hrefused (hall s hs)
  have hfiles := Leads.mapM (N := fun rest _ => Session.Ready root (rest.length + count))
    (R := fun (s : ClipSticker) (_ : String) => s.Decodes ∧ True) hstep []
  refine hfiles.mono (fun _ => id) (fun files now hnow => ?_) fun _ _ => id
  obtain ⟨hready, hall⟩ := hnow
  rw [List.length_nil, Nat.zero_add] at hready
  exact ⟨hready, hall.length_eq.symm, ((List.forall₂_and_left stickers files).mp hall).1⟩

theorem leads_captionFile_ready (clip : Clip) :
    Leads (Session.Ready root (count + 1)) (captionFile clip)
      (fun _ now => Session.Ready root count now ∧ ∃ captions, Caption.ofClip clip = .ok captions)
      fun _ _ => ¬ ∃ captions, Caption.ofClip clip = .ok captions := by
  refine .ofOutcome_bind (fun captions hcaptions => ?_) fun e hrefused _ _ ⟨captions, hcaptions⟩ =>
    nomatch hrefused.symm.trans hcaptions
  refine .ite (fun _ => .pure fun now hnow => ?_) fun _ => ?_
  · exact ⟨hnow.fewer (by omega), captions, hcaptions⟩
  · have hname : ("captions", "ass") ∈ Scratch.names := by decide
    exact (Work.leads_writeScratch_ready hname _).seq fun _ =>
      .pure fun now hnow => ⟨hnow, captions, hcaptions⟩

theorem leads_locateSubjects_ready {D : Failure → Session → Prop}
    (hhost : ∀ path, Scratch.IsPlace root path →
      host.Preserves config.render.tools (·.Takes path))
    (hclip : Clip.ofEdit edit = .ok clip) (facts : Probe) :
    Leads (Session.Ready root (count + 1)) (locateSubjects host config clip facts)
      (fun subjects now => Session.Ready root count now ∧ subjects.length < 2147483648) D := by
  have hcount : max clip.subjectCount 1 < 2147483648 := by
    obtain ⟨hproblems, ordered, cutaways, stickers, -, -, -, rfl⟩ := Clip.ofEdit_eq_ok hclip
    have hle := Edit.subjectCount_le hproblems
    simp only [Problem.maxSubjects] at hle
    change max edit.subjectCount 1 < _
    omega
  have hallocate (now : Session) (hnow : now.Ready root (count + 1)) :
      Session.Ready root count { now with scratch := (now.scratch.allocate "still" "jpg").1 } :=
    ⟨hnow.steady, hnow.root, hnow.takes.allocate "still" "jpg"⟩
  have hfewer (now : Session) (hnow : now.Ready root (count + 1)) : now.Ready root count :=
    hnow.fewer (by omega)
  refine .ite (fun _ => ?_) fun _ => .pure fun now hnow => ⟨hfewer now hnow, by simp⟩
  have hreport := (Work.steady_ready (count + 1) hhost).report
    ⟨.locating, Progress.locating, none⟩ Progress.locating_le_ceiling
  refine (Leads.of_keeps hreport fun _ _ _ hfail => hfail.elim).bind fun _ _ => ?_
  refine ((Work.steady_ready count hhost).leads_locate hallocate hfewer _ _ _ _).mono
    (fun _ => id) (fun subjects now hnow => ⟨hnow.1, ?_⟩) fun _ _ hfail => hfail.2.elim
  obtain ⟨frame, rfl⟩ := hnow.2
  exact (Locator.length_locate _ _ _).trans_lt hcount

/-! ## Planning as a whole -/

/-- Planning ends well if the edit is accepted and all images of its clip can be decoded, and fails
otherwise. -/
theorem leads_ofEdit_ready (hhost : ∀ path, Scratch.IsPlace root path →
      host.Preserves config.render.tools (·.Takes path))
    {start : Session} (hstart : start.Ready root (edit.stickers.length + 2)) :
    Leads (· = start) (ofEdit host config edit)
      (fun _ _ => edit.Accepted start.files.has ∧
        ∀ clip, Clip.ofEdit edit = .ok clip → ∀ s ∈ clip.stickers, s.Decodes)
      fun _ _ => ¬ (edit.Accepted start.files.has ∧
        ∀ clip, Clip.ofEdit edit = .ok clip → ∀ s ∈ clip.stickers, s.Decodes) := by
  refine .ofOutcome_bind (fun clip hclip => ?_) fun e hrefused _ _ haccepted => ?unclipped
  case unclipped =>
    obtain ⟨⟨⟨clip, hclip, -⟩, -⟩, -⟩ := haccepted
    cases hrefused.symm.trans hclip
  refine .bind (S := fun _ now => now = start)
    (F := fun _ => edit.missingFiles start.files.has = [])
    ((leads_checkFiles hclip).mono (fun _ => id) ?_ ?missing) fun _ hpresent => ?_
  case missing =>
    rintro e now ⟨rfl, hmissing⟩ ⟨⟨-, hnone⟩, -⟩
    exact hmissing hnone
  · rintro _ now ⟨rfl, hnone⟩
    exact ⟨rfl, hnone⟩
  refine .mono (P := Session.Ready root (clip.stickers.length + 1 + 1)) ?_ ?start (fun _ _ => id)
    fun _ _ => id
  case start =>
    rintro now rfl
    exact hstart.fewer (Nat.add_le_add_right (Clip.length_stickers_ofEdit hclip) 2)
  have hsteady (count : Nat) := Work.steady_ready count hhost
  refine (Leads.of_keeps ((hsteady _).keeps_probeOrAssume _) fun _ _ _ hfail => hfail.elim).bind
    fun facts _ => ?_
  refine (Leads.of_keeps ((hsteady _).report _ Progress.probed_le_ceiling)
    fun _ _ _ hfail => hfail.elim).bind fun _ _ => ?_
  refine (leads_locateSubjects_ready hhost hclip facts).bind fun subjects hsubjects => ?_
  refine ((leads_stickerFiles_ready clip.stickers).mono_failure fun _ _ hundecoded haccepted =>
    hundecoded (haccepted.2 clip hclip)).bind fun stickerPaths hstickers => ?_
  obtain ⟨hcount, hdecodes⟩ := hstickers
  refine ((leads_captionFile_ready clip).mono_failure fun _ _ hnone haccepted => ?uncaptioned).bind
    fun subtitlePath hcaptions => ?_
  case uncaptioned =>
    obtain ⟨⟨⟨clip', hclip', hcaptions⟩, -⟩, -⟩ := haccepted
    cases hclip.symm.trans hclip'
    exact hnone hcaptions
  obtain ⟨program, hprogram⟩ := Program.exists_compile hclip facts hsubjects
    { subtitlePath, fontsDir := config.render.fontsDir, stickerPaths
      soundEffectPath := clip.soundEffectPath.or config.render.soundEffectPath
      autoZoomMax := config.render.autoZoomMax } hcount
  refine .ofOutcome_bind (fun _ _ => ?_) fun e hrefused => ?uncompiled
  case uncompiled => cases hrefused.symm.trans hprogram
  refine (Leads.of_keeps (hsteady 0).keeps_chooseEncoder fun _ _ _ hfail => hfail.elim).bind
    fun encoder _ => ?_
  refine (Leads.of_keeps ((hsteady 0).report _ Progress.compiled_le_ceiling)
    fun _ _ _ hfail => hfail.elim).bind fun _ _ =>
      .pure fun _ _ => ⟨⟨⟨clip, hclip, hcaptions⟩, hpresent⟩, ?_⟩
  intro clip' hclip'
  cases hclip.symm.trans hclip'
  exact hdecodes

end Plan

end Montage
