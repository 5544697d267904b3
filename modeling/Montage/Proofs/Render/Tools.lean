import Montage.Proofs.Progress.Tracker
import Montage.Proofs.Render.Work
import Montage.Render.Tools

/-! # What asking the tools leaves alone

Before the encoder runs, the probe and the encoder are asked for facts, a still picture and trials.
A property of sessions that is kept by each run of these programs is kept by all questions. -/

namespace Montage

/-- The programs that are asked. -/
def RenderSettings.tools (settings : RenderSettings) : List String :=
  [settings.ffprobePath, settings.ffmpegPath]

/-- The output of the probe can only be refused as such. -/
theorem Probe.ofText_eq_error {text : String} {complain : Complaint} {f : Fault}
    (h : ofText text complain = .error f) : ∃ message, f = .probe message := by
  rw [ofText] at h
  split at h
  case h_1 =>
    cases h
    exact ⟨_, rfl⟩
  case h_2 report _ =>
    rw [ofReport] at h
    split at h
    case h_1 =>
      cases h
      exact ⟨_, rfl⟩
    case h_2 =>
      split at h
      case h_1 =>
        split at h
        case isTrue =>
          cases h
          exact ⟨_, rfl⟩
        case isFalse => cases h
      case h_2 =>
        cases h
        exact ⟨_, rfl⟩

namespace Work

/-- A property of sessions that is kept by reports before the end, by waiting, which may fail, and
by the runs of some programs. -/
structure Steady (host : Host) (programs : List String) (E : Failure → Prop)
    (I : Session → Prop) : Prop where
  report : ∀ e : Progress, e.percent ≤ Progress.ceiling → Keeps I (report e) (fun _ => True) E
  pause : Keeps I pause (fun _ => True) E
  launched : ∀ program ∈ programs, ∀ args s run, I s →
    host.launch program args s.files = .ok run → I { s with files := run.files }

/-- What a computation does with the files as they are. -/
theorem Keeps.files {α : Type} {I : Session → Prop} {Q : α → Prop} {E : Failure → Prop}
    {f : FileTree → Work α}
    (h : ∀ s, I s → I ((f s.files).perform s).2 ∧ ((f s.files).perform s).1.Meets Q E) :
    Keeps I (files >>= f) Q E := h

namespace Steady

variable {host : Host} {programs : List String} {program : String} {E : Failure → Prop}
  {I I' : Session → Prop} {settings : RenderSettings}

theorem keeps_launch (h : Steady host programs E I) (hprogram : program ∈ programs)
    (args : List String) : Keeps I (launch host program args) (fun _ => True) E := by
  refine Keeps.files fun s hs => ?_
  split
  case h_1 => exact ⟨hs, trivial⟩
  case h_2 run hrun =>
    have hlaunched := h.launched program hprogram args s run hs hrun
    exact (h.pause.bind fun _ _ => .pure trivial) _ hlaunched

/-- The probe fails as the waiting does, or it refuses its source. -/
theorem keeps_probe (h : Steady host programs E I) (hprogram : program ∈ programs)
    (source : String) : Keeps I (probe host program source) (fun _ => True)
      fun e => E e ∨ ∃ message, e = .fault (.probe message) := by
  refine ((h.keeps_launch hprogram _).mono (fun _ => id) fun _ => .inl).bind fun answer _ => ?_
  split
  case h_1 => exact .fail (.inr ⟨_, rfl⟩)
  case h_2 run =>
    refine .ite (fun _ => ?_) fun _ => .fail (.inr ⟨_, rfl⟩)
    dsimp only
    cases hfacts : Probe.ofText (Text.decodeLossy run.output) host.complaints.report with
    | ok facts => exact .pure trivial
    | error f =>
        obtain ⟨message, rfl⟩ := Probe.ofText_eq_error hfacts
        exact .fail (.inr ⟨message, rfl⟩)

theorem keeps_probeOrAssume (h : Steady host settings.tools E I) (source : String) :
    Keeps I (probeOrAssume host settings source) (fun _ => True) E := by
  rw [probeOrAssume]
  refine .bind (Q := fun _ => True)
    (.tryCatch ((h.keeps_probe (by simp [RenderSettings.tools]) source).bind
      fun _ _ => .pure trivial) fun e he => ?assumed) fun facts _ => ?_
  case assumed =>
    split
    case h_1 => exact .pure trivial
    case h_2 hother =>
      refine .bind (Q := fun _ => True) (.throw ?_) fun _ _ => .pure trivial
      rcases he with he | ⟨message, rfl⟩
      · exact he
      · exact absurd rfl (hother message)
  -- Assumed facts come back by an early return.
  cases facts with
  | error facts => exact .pure trivial
  | ok facts => exact .pure trivial

/-- The path of a still picture is handed out before the encoder is asked for it. -/
theorem leads_still? (h : Steady host programs E I') (hprogram : program ∈ programs)
    (hallocate : ∀ s, I s → I' { s with scratch := (s.scratch.allocate "still" "jpg").1 })
    (source : String) (atMs : Nat) :
    Leads I (still? host program source atMs) (fun _ => I') fun e s => I' s ∧ E e := by
  refine .seq (S := fun _ => I') ⟨fun s hs => hallocate s hs⟩ fun output => ?_
  refine (Leads.of_keeps (h.keeps_launch hprogram _) fun _ _ hs he => ⟨hs, he⟩).bind
    fun answer _ => ?_
  split
  case h_1 => exact .pure fun _ hs => hs
  case h_2 =>
    refine .seq (S := fun _ => I') ⟨fun s hs => hs⟩ fun now => ?_
    exact .ite (fun _ => .pure fun _ hs => hs) fun _ => .pure fun _ hs => hs

/-- The subjects are those that the tiers find in some frame. -/
theorem leads_locate {config : Config} (h : Steady host config.render.tools E I')
    (hallocate : ∀ s, I s → I' { s with scratch := (s.scratch.allocate "still" "jpg").1 })
    (hfewer : ∀ s, I s → I' s) (source : String) (atMs count : Nat) (facts : Probe) :
    Leads I (locate host config source atMs count facts)
      (fun subjects s => I' s ∧ ∃ frame, subjects =
        Locator.locate (host.tiers config.vision) frame count)
      fun e s => I' s ∧ E e := by
  refine .ite (fun _ => ?_) fun _ => .pure fun s hs => ⟨hfewer s hs, _, rfl⟩
  have hprogram : config.render.ffmpegPath ∈ config.render.tools := by
    simp [RenderSettings.tools]
  exact (h.leads_still? hprogram hallocate source atMs).seq fun still =>
    .pure fun s hs => ⟨hs, _, rfl⟩

theorem keeps_firstUsable (h : Steady host programs E I) (hprogram : program ∈ programs)
    (encoders : List Encoder) :
    Keeps I (firstUsable host program encoders) (fun _ => True) E := by
  induction encoders with
  | nil => exact .pure trivial
  | cons e rest ih =>
      refine (h.keeps_launch hprogram _).bind fun answer _ => ?_
      split
      case h_1 => exact .ite (fun _ => .pure trivial) fun _ => ih
      case h_2 => exact ih

theorem keeps_chooseEncoder (h : Steady host settings.tools E I) :
    Keeps I (chooseEncoder host settings) (fun _ => True) E := by
  have hprogram : settings.ffmpegPath ∈ settings.tools := by simp [RenderSettings.tools]
  refine .ite (fun _ => ?_) fun _ => .pure trivial
  refine (h.keeps_launch hprogram _).bind fun answer _ => ?_
  split
  case h_1 => exact .ite (fun _ => h.keeps_firstUsable hprogram _) fun _ => .pure trivial
  case h_2 => exact .pure trivial

end Steady

end Work

end Montage
