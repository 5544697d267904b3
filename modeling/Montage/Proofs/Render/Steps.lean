import Montage.Proofs.Clip.Translation
import Montage.Proofs.Progress.Tracker
import Montage.Proofs.Render.Scratch
import Montage.Proofs.Render.Tools
import Montage.Render.Basic

/-! # What the steps of a render keep

A render reports, waits, starts programs, hands out paths, writes files and makes directories. What
each of these steps keeps holds at its end, whatever the result, but for one thing: when the run of
the encoder has failed, the path of the output is removed. -/

namespace Montage

open Work (Keeps)

/-- The failures that leave no output behind: those of the encoder, and cancellation. -/
def Failure.Discards : Failure → Prop
  | .fault (.encode ..) | .fault .cancelled => True
  | _ => False

/-- A property of sessions that every step keeps. What a program has left takes the place of the
files also after it was stopped, when other steps have come in between. -/
structure Session.Invariant (host : Host) (programs : List String) (I : Session → Prop) :
    Prop where
  reported : ∀ s e, I s → e.percent ≤ Progress.ceiling →
    I { s with tracker := (s.tracker.report e).1 }
  waited : ∀ s, I s → I { s with waits := s.waits + 1 }
  ran : ∀ program ∈ programs, ∀ args s run, I s → host.launch program args s.files = .ok run →
    ∀ s', I s' → I { s' with files := run.files } ∧
      ∀ count, I { s' with files := run.filesAt count }
  allocated : ∀ name ∈ Scratch.stillName :: Scratch.names, ∀ s, I s →
    I { s with scratch := (s.scratch.allocate name.1 name.2).1 }
  wrote : ∀ name ∈ Scratch.names, ∀ bytes s t, I s →
    s.files.write (s.scratch.allocate name.1 name.2).2 bytes = .ok t →
      I { s with scratch := (s.scratch.allocate name.1 name.2).1, files := t }
  madeDirectories : ∀ path s, I s → I { s with files := (s.files.createDirectories path).1 }

namespace Session.Invariant

variable {host : Host} {programs : List String} {I : Session → Prop} {E : Failure → Prop}

theorem keeps_report (h : Invariant host programs I) {e : Progress}
    (he : e.percent ≤ Progress.ceiling) : Keeps I (Work.report e) (fun _ => True) E :=
  .modify fun s hs => h.reported s e hs he

theorem keeps_pause (h : Invariant host programs I) (hcancelled : E (.fault .cancelled)) :
    Keeps I Work.pause (fun _ => True) E := by
  refine .get fun s hs => .bind (.set (h.waited s hs)) fun _ _ => ?_
  exact .ite (fun _ => .fail hcancelled) fun _ => .pure trivial

theorem keeps_writeScratch (h : Invariant host programs I) {name : String × String}
    (hname : name ∈ Scratch.names) (bytes : List UInt8) :
    Keeps I (Work.writeScratch name.1 name.2 bytes) (fun _ => True) fun _ => True := by
  refine Work.Leads.keeps (Work.leads_writeScratch ?_ ?_)
  · exact fun s t hs hwrite => ⟨h.wrote name hname bytes s t hs hwrite, trivial⟩
  · exact fun s e hs _ => ⟨h.allocated name (List.mem_cons_of_mem _ hname) s hs, trivial⟩

theorem steady (h : Invariant host programs I) : Work.Steady host programs (fun _ => True) I where
  report _ he := h.keeps_report he
  pause := h.keeps_pause trivial
  launched program hprogram args s run hs hrun :=
    (h.ran program hprogram args s run hs hrun s hs).1

end Session.Invariant

/-! ## Planning -/

namespace Plan

variable {host : Host} {config : Config} {I : Session → Prop}

/-- The path that the output of an edit goes to. -/
def outputPathOf (host : Host) (config : Config) (edit : Edit) : String :=
  edit.outputPath.getD
    (derivedOutputPath edit.sourcePath edit.canvas config.render.outputDir host.now)

/-- A plan has the path of its edit for the output, and arguments for its program that lead
there. -/
structure Aims (host : Host) (config : Config) (edit : Edit) (plan : Plan) : Prop where
  outputPath : plan.outputPath = outputPathOf host config edit
  args : plan.args = plan.program.args (plan.encoder.args config.render) plan.outputPath

theorem keeps_checkFiles (edit : Edit) (clip : Clip) :
    Keeps I (checkFiles edit clip) (fun _ => True) fun _ => True := by
  refine .get fun s _ => ?_
  refine .ite (fun _ => .fail_bind trivial) fun _ => ?_
  exact .ite (fun _ => .fail trivial) fun _ => .pure trivial

variable (h : Session.Invariant host config.render.tools I)

include h

theorem keeps_locateSubjects (clip : Clip) (facts : Probe) :
    Keeps I (locateSubjects host config clip facts) (fun _ => True) fun _ => True := by
  refine .ite (fun _ => ?_) fun _ => .pure trivial
  refine (h.keeps_report Progress.locating_le_ceiling).bind fun _ _ => ?_
  refine (Work.Leads.keeps (h.steady.leads_locate ?_ (fun _ => id) _ _ _ _)).weaken
  exact h.allocated Scratch.stillName List.mem_cons_self

theorem keeps_stickerFile (s : ClipSticker) :
    Keeps I (stickerFile host s) (fun _ => True) fun _ => True := by
  rw [stickerFile]
  split
  case h_1 => exact .pure trivial
  case h_2 =>
    refine (Keeps.ofOutcome _).bind fun image himage => ?_
    have hname := Scratch.mem_names_of_decode (Outcome.ofExcept_eq_ok_iff.mp himage)
    exact h.keeps_writeScratch hname _

theorem keeps_captionFile (clip : Clip) :
    Keeps I (captionFile clip) (fun _ => True) fun _ => True := by
  refine (Keeps.ofOutcome _).bind fun captions _ => ?_
  refine .ite (fun _ => .pure trivial) fun _ => ?_
  have hname : ("captions", "ass") ∈ Scratch.names := by decide
  exact (h.keeps_writeScratch hname _).bind fun _ _ => .pure trivial

theorem keeps_ofEdit (edit : Edit) :
    Keeps I (ofEdit host config edit) (Aims host config edit) fun _ => True := by
  refine (Keeps.ofOutcome _).bind fun clip hclip => ?_
  have hpath : edit.outputPath.getD (derivedOutputPath clip.sourcePath clip.canvas
      config.render.outputDir host.now) = outputPathOf host config edit := by
    obtain ⟨-, ordered, cutaways, stickers, -, -, -, rfl⟩ := Clip.ofEdit_eq_ok hclip
    rfl
  refine (keeps_checkFiles _ _).bind fun _ _ => ?_
  refine (h.steady.keeps_probeOrAssume _).bind fun facts _ => ?_
  refine (h.keeps_report Progress.probed_le_ceiling).bind fun _ _ => ?_
  refine (keeps_locateSubjects h _ _).bind fun subjects _ => ?_
  refine (Keeps.mapM (keeps_stickerFile h) _).bind fun stickerPaths _ => ?_
  refine (keeps_captionFile h _).bind fun subtitlePath _ => ?_
  refine (Keeps.ofOutcome _).bind fun program _ => ?_
  refine h.steady.keeps_chooseEncoder.bind fun encoder _ => ?_
  exact (h.keeps_report Progress.compiled_le_ceiling).bind fun _ _ => .pure ⟨hpath, rfl⟩

/-! ## The encoder -/

/-- The encoder was started on some files and can be stopped at any time. -/
def Stoppable (I : Session → Prop) (run : Run) : Prop :=
  ∀ s, I s → I { s with files := run.files } ∧ ∀ count, I { s with files := run.filesAt count }

theorem keeps_checkpoint {run : Run} (hrun : Stoppable I run) (count : Nat) :
    Keeps I (checkpoint run count) (fun _ => True) Failure.Discards := by
  refine .tryCatch (E := Failure.Discards) (h.keeps_pause trivial) fun e he => ?_
  exact Keeps.bind (.modify fun s hs => (hrun s hs).2 count) fun _ _ => .throw he

theorem keeps_follow {run : Run} (hrun : Stoppable I run) (expected : Binary64) (count : Nat)
    (state : EncodeState) (lines : List (List UInt8)) :
    Keeps I (follow host expected run count state lines) (fun _ => True) Failure.Discards := by
  induction lines generalizing count state with
  | nil => exact keeps_checkpoint h hrun count
  | cons line rest ih =>
      rw [follow]
      refine (keeps_checkpoint h hrun count).bind fun _ _ => ?_
      split
      case h_1 =>
        exact Keeps.bind (.modify fun s hs => (hrun s hs).2 (count + 1)) fun _ _ => .fail trivial
      case h_2 =>
        split
        case h_1 => exact ih _ _
        case h_2 =>
          refine .ite (fun _ => ?_) fun _ => ih _ _
          exact (h.keeps_report (encodePercent_le _)).bind fun _ _ => ih _ _

/-- The run of the encoder fails in no other ways. -/
theorem keeps_encode (plan : Plan) :
    Keeps I (plan.encode host config.render.ffmpegPath) (fun _ => True) Failure.Discards := by
  refine .get fun s hs => ?_
  split
  case h_1 => exact .fail trivial
  case h_2 run hlaunch =>
    have hrun : Stoppable I run :=
      h.ran _ (by simp [RenderSettings.tools]) plan.args s run hs hlaunch
    refine (keeps_follow h hrun _ _ _ _).bind fun _ _ => ?_
    refine Keeps.bind (.modify fun s hs => (hrun s hs).1) fun _ _ => ?_
    refine .ite (fun _ => .fail_bind trivial) fun _ => ?_
    refine .get fun _ _ => ?_
    exact .ite (fun _ => .fail trivial) fun _ => .pure trivial

end Plan

/-! ## Renders -/

namespace Render

variable {host : Host} {config : Config} {I : Session → Prop}

/-- What each making of a directory keeps is kept before the scratch directory is made. -/
theorem openScratch_keeps {R : FileTree → FileTree → Prop} (hrefl : ∀ t, R t t)
    (htrans : ∀ t t' t'', R t t' → R t' t'' → R t t'')
    (hmade : ∀ t q, t.entry? q = none → R t (t.put q .directory)) (host : Host)
    (settings : RenderSettings) (t : FileTree) : R t (openScratch host settings t).1 := by
  rw [openScratch]
  split
  case h_1 => exact hrefl t
  case h_2 dir _ =>
    have hdirectories := FileTree.createDirectories_keeps hrefl htrans hmade t dir
    split
    case h_1 heq => rwa [heq] at hdirectories
    case h_2 heq => rwa [heq] at hdirectories

theorem spares_openScratch (host : Host) (settings : RenderSettings) (t : FileTree)
    (p : Location) : t.Spares p (openScratch host settings t).1 :=
  openScratch_keeps (FileTree.Spares.refl p) (fun _ _ _ => .trans) (fun _ _ => .put_directory p)
    host settings t

/-- The scratch directory is made in some directory, once that was made. -/
theorem openScratch_eq_ok {settings : RenderSettings} {t t₁ t₂ : FileTree} {scratch : Scratch}
    (h : openScratch host settings t = (t₁, .ok (t₂, scratch))) :
    (∀ p, t.Spares p t₁) ∧ ∃ parent, Scratch.new t₁ parent host.suffix = .ok (t₂, scratch) := by
  refine ⟨fun p => ?_, ?_⟩
  · have hspares := spares_openScratch host settings t p
    rwa [h] at hspares
  · rw [openScratch] at h
    split at h
    case h_1 =>
      obtain ⟨rfl, hnew⟩ := Prod.mk.inj h
      exact ⟨_, hnew⟩
    case h_2 =>
      split at h
      case h_1 => cases h
      case h_2 =>
        obtain ⟨rfl, hnew⟩ := Prod.mk.inj h
        exact ⟨_, hnew⟩

/-- A render has ended with what it keeps, or then it has removed the path of its output. -/
def Ended (I : Session → Prop) (path : String) (done : Outcome String × Session) : Prop :=
  I done.2 ∨
    ∃ e, ∃ s : Session, e.Discards ∧ I s ∧
      done = (.error e, { s with files := s.files.withoutFile path })

theorem Ended.exists_within {path : String} {done : Outcome String × Session}
    (h : Ended I path done) :
    ∃ s : Session, I s ∧ ∃ files : FileTree, files.Within s.files ∧ done.2 = { s with files } := by
  rcases h with hs | ⟨e, s, -, hs, rfl⟩
  · exact ⟨done.2, hs, done.2.files, .refl _, rfl⟩
  · exact ⟨s, hs, _, s.files.within_withoutFile path, rfl⟩

variable (h : Session.Invariant host config.render.tools I)

include h

theorem keeps_prepareOutput (outputPath : String) :
    Keeps I (prepareOutput outputPath) (fun _ => True) fun _ => True := by
  rw [prepareOutput]
  split
  case h_1 => exact .pure trivial
  case h_2 parent _ =>
    refine .get fun s hs => .bind (.set (h.madeDirectories parent s hs)) fun _ _ => ?_
    split
    case h_1 => exact .pure trivial
    case h_2 => exact .fail trivial

theorem inScratch_ended (edit : Edit) {s : Session} (hs : I s) :
    Ended I (Plan.outputPathOf host config edit) ((inScratch host config edit).perform s) := by
  refine (h.keeps_pause (E := fun _ => True) trivial).step hs ?cancelled fun _ s₁ hs₁ _ => ?_
  case cancelled => exact fun _ _ hend _ => .inl hend
  refine (Plan.keeps_ofEdit h edit).step hs₁ ?unplanned fun plan s₂ hs₂ haims => ?_
  case unplanned => exact fun _ _ hend _ => .inl hend
  refine (keeps_prepareOutput h plan.outputPath).step hs₂ ?unprepared fun _ s₃ hs₃ _ => ?_
  case unprepared => exact fun _ _ hend _ => .inl hend
  obtain ⟨hsession, hresult⟩ := Plan.keeps_encode h plan s₃ hs₃
  rw [Work.perform_bind, Work.perform_tryCatch]
  cases hencode : (plan.encode host config.render.ffmpegPath).perform s₃ with
  | mk result s₄ =>
      rw [hencode] at hsession hresult
      cases result with
      | ok _ => exact .inl hsession
      | error e => exact .inr ⟨e, s₄, hresult, hsession, by rw [← haims.outputPath]; rfl⟩

end Render

/-- A render without a scratch directory ends at once; one with it removes it in the end. -/
theorem render_cases (host : Host) (config : Config) (edit : Edit)
    (cancelled : Nat → List Progress → Bool) (t : FileTree) :
    let tracker := (({} : Tracker).report ⟨.preparing, 0, none⟩).1
    (∃ t₁ f, Render.openScratch host config.render t = (t₁, .error f) ∧
        render host config edit cancelled t =
          ⟨.error (.fault f), t₁, Render.eventsOf tracker⟩) ∨
      ∃ t₁ t₂ scratch result, ∃ s : Session,
        Render.openScratch host config.render t = (t₁, .ok (t₂, scratch)) ∧
        (Render.inScratch host config edit).perform { files := t₂, scratch, tracker, cancelled } =
          (result, s) ∧
        render host config edit cancelled t = ⟨result, (s.scratch.cleanup s.files).2,
          Render.eventsOf (if result.isOk then s.tracker.complete else s.tracker)⟩ := by
  intro tracker
  rw [render]
  dsimp only
  cases hopen : Render.openScratch host config.render t with
  | mk t₁ opened =>
      cases opened with
      | error f => exact .inl ⟨t₁, f, rfl, rfl⟩
      | ok made => exact .inr ⟨t₁, made.1, made.2, _, _, rfl, rfl, rfl⟩

end Montage
