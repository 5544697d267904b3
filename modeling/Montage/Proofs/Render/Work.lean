import Mathlib.Data.List.Forall2
import Montage.Render.Session

/-! # Computations of a session

What a computation keeps whatever its result, and what it leads to. A failure keeps the state that
was reached, so that something is said of the session in both cases. -/

namespace Montage

/-- The value of a result has a property, or its failure has. -/
def Outcome.Meets {α : Type} (Q : α → Prop) (E : Failure → Prop) : Outcome α → Prop
  | .ok a => Q a
  | .error e => E e

theorem Outcome.Meets.mono {α : Type} {Q Q' : α → Prop} {E E' : Failure → Prop} {x : Outcome α}
    (h : x.Meets Q E) (hvalue : ∀ a, Q a → Q' a) (hfail : ∀ e, E e → E' e) : x.Meets Q' E' := by
  cases x with
  | ok a => exact hvalue a h
  | error e => exact hfail e h

namespace Work

variable {α β : Type} {I : Session → Prop} {Q : α → Prop} {R : β → Prop} {E : Failure → Prop}

/-! ## Invariants of computations -/

/-- A computation keeps an invariant of sessions, whatever its result; what it returns has a
property, and so have its failures. -/
def Keeps (I : Session → Prop) (w : Work α) (Q : α → Prop) (E : Failure → Prop) : Prop :=
  ∀ s, I s → I (w.perform s).2 ∧ (w.perform s).1.Meets Q E

theorem perform_bind (w : Work α) (f : α → Work β) (s : Session) :
    (w >>= f).perform s =
      match w.perform s with
      | (.ok a, s') => (f a).perform s'
      | (.error e, s') => (.error e, s') := by
  cases h : w.perform s with
  | mk result s' =>
      change Id.run (w.run.run s) = (result, s') at h
      cases result with
      | ok a => simp only [perform, ExceptT.run_bind, StateT.run_bind, Id.run_bind, h]
      | error e =>
          simp only [perform, ExceptT.run_bind, StateT.run_bind, Id.run_bind, h]
          rfl

theorem perform_tryCatch (w : Work α) (handle : Failure → Work α) (s : Session) :
    (tryCatch w handle).perform s =
      match w.perform s with
      | (.ok a, s') => (.ok a, s')
      | (.error e, s') => (handle e).perform s' := by
  cases h : w.perform s with
  | mk result s' =>
      change Id.run (w.run.run s) = (result, s') at h
      cases result with
      | ok a =>
          simp only [perform, ExceptT.run_tryCatch, StateT.run_bind, Id.run_bind, h]
          rfl
      | error e => simp only [perform, ExceptT.run_tryCatch, StateT.run_bind, Id.run_bind, h]

namespace Keeps

/-- What holds of the end, when the computation fails and when what follows it goes on. -/
theorem step {w : Work α} {f : α → Work β} {P : Outcome β × Session → Prop} (h : Keeps I w Q E)
    {s : Session} (hs : I s) (hfail : ∀ e s', I s' → E e → P (.error e, s'))
    (hnext : ∀ a s', I s' → Q a → P ((f a).perform s')) : P ((w >>= f).perform s) := by
  obtain ⟨hsession, hresult⟩ := h s hs
  rw [perform_bind]
  cases hw : w.perform s with
  | mk result s' =>
      rw [hw] at hsession hresult
      cases result with
      | ok a => exact hnext a s' hsession hresult
      | error e => exact hfail e s' hsession hresult

theorem bind {w : Work α} {f : α → Work β} (hw : Keeps I w Q E)
    (hf : ∀ a, Q a → Keeps I (f a) R E) : Keeps I (w >>= f) R E := by
  intro s hs
  refine hw.step (P := fun done => I done.2 ∧ done.1.Meets R E) hs ?_ ?_
  · exact fun e s' hs' he => ⟨hs', he⟩
  · exact fun a s' hs' ha => hf a ha s' hs'

theorem tryCatch {w : Work α} {handle : Failure → Work α} (hw : Keeps I w Q E)
    {E' : Failure → Prop} (hhandle : ∀ e, E e → Keeps I (handle e) Q E') :
    Keeps I (tryCatch w handle) Q E' := by
  intro s hs
  obtain ⟨hsession, hresult⟩ := hw s hs
  rw [perform_tryCatch]
  cases h : w.perform s with
  | mk result s' =>
      rw [h] at hsession hresult
      cases result with
      | ok a => exact ⟨hsession, hresult⟩
      | error e => exact hhandle e hresult s' hsession

theorem mono {w : Work α} {Q' : α → Prop} {E' : Failure → Prop} (h : Keeps I w Q E)
    (hvalue : ∀ a, Q a → Q' a) (hfail : ∀ e, E e → E' e) : Keeps I w Q' E' :=
  fun s hs => ⟨(h s hs).1, (h s hs).2.mono hvalue hfail⟩

theorem weaken {w : Work α} (h : Keeps I w Q E) : Keeps I w (fun _ => True) fun _ => True :=
  h.mono (fun _ _ => trivial) fun _ _ => trivial

theorem pure {a : α} (h : Q a) : Keeps I (pure a) Q E := fun _ hs => ⟨hs, h⟩

theorem throw {e : Failure} (h : E e) : Keeps I (throw e) Q E := fun _ hs => ⟨hs, h⟩

theorem fail {f : Fault} (h : E (.fault f)) : Keeps I (Work.fail f) Q E := throw h

/-- What stands after a failure is never reached. -/
theorem fail_bind {f : Fault} {next : β → Work α} (h : E (.fault f)) :
    Keeps I (Work.fail f >>= next) Q E :=
  bind (Q := fun _ => False) (fail h) fun _ hfalse => hfalse.elim

theorem ite {c : Prop} [Decidable c] {w w' : Work α} (hw : c → Keeps I w Q E)
    (hw' : ¬ c → Keeps I w' Q E) : Keeps I (if c then w else w') Q E := by
  split
  case isTrue h => exact hw h
  case isFalse h => exact hw' h

theorem get {f : Session → Work α} (h : ∀ s, I s → Keeps I (f s) Q E) :
    Keeps I (get >>= f) Q E :=
  fun s hs => h s hs s hs

theorem modify {f : Session → Session} (h : ∀ s, I s → I (f s)) :
    Keeps I (modify f) (fun _ => True) E :=
  fun s hs => ⟨h s hs, trivial⟩

theorem set {s : Session} (h : I s) : Keeps I (set s) (fun _ => True) E :=
  fun _ _ => ⟨h, trivial⟩

theorem ofOutcome (x : Outcome α) : Keeps I (ofOutcome x) (fun a => x = .ok a) fun _ => True := by
  cases x with
  | ok a => exact pure rfl
  | error e => exact throw trivial

theorem mapM {f : β → Work α} (hf : ∀ b, Keeps I (f b) Q E) (bs : List β) :
    Keeps I (bs.mapM f) (fun _ => True) E := by
  induction bs with
  | nil => exact pure trivial
  | cons b bs ih =>
      rw [List.mapM_cons]
      exact (hf b).bind fun _ _ => ih.bind fun _ _ => pure trivial

end Keeps

/-! ## What computations lead to -/

/-- From a session with a property, a computation ends with a value and a session that have one
together, or fails so that another one holds. -/
structure Leads (P : Session → Prop) (w : Work α) (Q : α → Session → Prop)
    (E : Failure → Session → Prop) : Prop where
  ends : ∀ s, P s → (w.perform s).1.Meets (Q · (w.perform s).2) (E · (w.perform s).2)

namespace Leads

variable {P P' : Session → Prop} {S : α → Session → Prop} {F : α → Prop}
  {T : β → Session → Prop} {D : Failure → Session → Prop}

theorem seq {w : Work α} {f : α → Work β} (hw : Leads P w S D)
    (hf : ∀ a, Leads (S a) (f a) T D) : Leads P (w >>= f) T D := by
  refine ⟨fun s hs => ?_⟩
  have hresult := hw.ends s hs
  rw [perform_bind]
  cases h : w.perform s with
  | mk result s' =>
      rw [h] at hresult
      cases result with
      | ok a => exact (hf a).ends s' hresult
      | error e => exact hresult

theorem of_ok {w : Work α} (h : Leads P w S D) {s s' : Session} (hs : P s) {a : α}
    (hw : w.perform s = (.ok a, s')) : S a s' := by
  have hresult := h.ends s hs
  rwa [hw] at hresult

/-- Nothing is said of the end. -/
theorem unsaid {w : Work α} : Leads P w (fun _ _ => True) fun _ _ => True := by
  refine ⟨fun s _ => ?_⟩
  cases (w.perform s).1 <;> exact trivial

theorem tryCatch {w : Work α} {handle : Failure → Work α} {D' : Failure → Session → Prop}
    (hw : Leads P w S D) (hhandle : ∀ e, Leads (D e) (handle e) S D') :
    Leads P (tryCatch w handle) S D' := by
  refine ⟨fun s hs => ?_⟩
  have hresult := hw.ends s hs
  rw [perform_tryCatch]
  cases h : w.perform s with
  | mk result s' =>
      rw [h] at hresult
      cases result with
      | ok a => exact hresult
      | error e => exact (hhandle e).ends s' hresult

/-- A computation that ends well where something is so, and fails where it is not, ends well exactly
where it is so. -/
theorem exists_ok_iff {w : Work α} {c : Prop} (h : Leads P w (fun _ _ => c) fun _ _ => ¬ c)
    {s : Session} (hs : P s) : (∃ a s', w.perform s = (.ok a, s')) ↔ c := by
  have hresult := h.ends s hs
  cases hw : w.perform s with
  | mk result s' =>
      rw [hw] at hresult
      cases result with
      | ok a => exact ⟨fun _ => hresult, fun _ => ⟨a, s', rfl⟩⟩
      | error e => exact ⟨nofun, fun hc => absurd hc hresult⟩

theorem pure {a : α} (h : ∀ s, P s → S a s) : Leads P (pure a) S D := ⟨h⟩

theorem fail {f : Fault} (h : ∀ s, P s → D (.fault f) s) : Leads P (Work.fail f) S D := ⟨h⟩

/-- What stands after a failure is never reached. -/
theorem fail_bind {f : Fault} {next : β → Work α} (h : ∀ s, P s → D (.fault f) s) :
    Leads P (Work.fail f >>= next) S D :=
  seq (S := fun _ _ => False) (fail h) fun _ => ⟨fun _ hfalse => hfalse.elim⟩

theorem given {w : Work α} {c : Prop} (h : c → Leads P w S D) :
    Leads (fun s => P s ∧ c) w S D := ⟨fun s hs => (h hs.2).ends s hs.1⟩

theorem bind {w : Work α} {f : α → Work β} (hw : Leads P w (fun a s => S a s ∧ F a) D)
    (hf : ∀ a, F a → Leads (S a) (f a) T D) : Leads P (w >>= f) T D :=
  hw.seq fun a => .given (hf a)

theorem mono {w : Work α} {S' : α → Session → Prop} {D' : Failure → Session → Prop}
    (h : Leads P w S D) (hpre : ∀ s, P' s → P s) (hvalue : ∀ a s, S a s → S' a s)
    (hfail : ∀ e s, D e s → D' e s) : Leads P' w S' D' :=
  ⟨fun s hs => (h.ends s (hpre s hs)).mono (hvalue · _) (hfail · _)⟩

theorem mono_failure {w : Work α} {D' : Failure → Session → Prop} (h : Leads P w S D)
    (hfail : ∀ e s, D e s → D' e s) : Leads P w S D' :=
  h.mono (fun _ => id) (fun _ _ => id) hfail

theorem of_keeps {w : Work α} (h : Keeps I w Q E) (hfail : ∀ e s, I s → E e → D e s) :
    Leads I w (fun a s => I s ∧ Q a) D :=
  ⟨fun s hs => (h s hs).2.mono (fun _ ha => ⟨(h s hs).1, ha⟩) fun e => hfail e _ (h s hs).1⟩

theorem keeps {w : Work α} (h : Leads I w (fun a s => I s ∧ Q a) fun e s => I s ∧ E e) :
    Keeps I w Q E := by
  intro s hs
  have hresult := h.ends s hs
  refine ⟨?_, hresult.mono (fun _ => And.right) fun _ => And.right⟩
  cases hw : (w.perform s).1 with
  | ok a =>
      rw [hw] at hresult
      exact hresult.1
  | error e =>
      rw [hw] at hresult
      exact hresult.1

theorem get {f : Session → Work α} (h : ∀ s, P s → Leads (· = s) (f s) S D) :
    Leads P (get >>= f) S D :=
  ⟨fun s hs => (h s hs).ends s rfl⟩

theorem ite {c : Prop} [Decidable c] {w w' : Work α} (hw : c → Leads P w S D)
    (hw' : ¬ c → Leads P w' S D) : Leads P (if c then w else w') S D := by
  split
  case isTrue h => exact hw h
  case isFalse h => exact hw' h

/-- An outcome leaves the session as it is. -/
theorem ofOutcome_bind {x : Outcome α} {f : α → Work β}
    (hvalue : ∀ a, x = .ok a → Leads P (f a) T D) (hfail : ∀ e, x = .error e → ∀ s, P s → D e s) :
    Leads P (ofOutcome x >>= f) T D := by
  cases x with
  | ok a => exact hvalue a rfl
  | error e => exact ⟨hfail e rfl⟩

/-- What holds of the elements that are left and of the results so far is led on by each step. There
is a result for each element, with what each step ensures of the two. -/
theorem mapM {f : β → Work α} {N : List β → List α → Session → Prop} {R : β → α → Prop}
    {bs : List β} (hstep : ∀ b ∈ bs, ∀ rest done, Leads (N (b :: rest) done) (f b)
      (fun a s => N rest (done ++ [a]) s ∧ R b a) D) (done : List α) :
    Leads (N bs done) (bs.mapM f) (fun as s => N [] (done ++ as) s ∧ List.Forall₂ R bs as) D := by
  induction bs generalizing done with
  | nil =>
      rw [List.mapM_nil]
      refine pure fun s hs => ⟨?_, .nil⟩
      rwa [List.append_nil]
  | cons b bs ih =>
      obtain ⟨hfirst, hrest⟩ := List.forall_mem_cons.mp hstep
      rw [List.mapM_cons]
      refine (hfirst bs done).bind fun a ha => (ih hrest (done ++ [a])).bind fun as has => ?_
      refine pure fun s hs => ⟨?_, .cons ha has⟩
      rwa [List.append_assoc, List.singleton_append] at hs

end Leads

/-- A file in the scratch directory is written where the next path leads. -/
theorem leads_writeScratch {P : Session → Prop} {S : String → Session → Prop}
    {D : Failure → Session → Prop} {stem extension : String} {bytes : List UInt8}
    (hmade : ∀ s t, P s → s.files.write (s.scratch.allocate stem extension).2 bytes = .ok t →
      S (s.scratch.allocate stem extension).2
        { s with scratch := (s.scratch.allocate stem extension).1, files := t })
    (hrefused : ∀ s e, P s → s.files.write (s.scratch.allocate stem extension).2 bytes = .error e →
      D (.fault (.io e.message)) { s with scratch := (s.scratch.allocate stem extension).1 }) :
    Leads P (writeScratch stem extension bytes) S D := by
  refine .get fun s hs => ?_
  unfold Scratch.write
  dsimp only
  split
  case h_1 scratch t path heq =>
    split at heq
    case h_1 t' hwrite =>
      cases heq
      refine ⟨?_⟩
      rintro s' rfl
      exact hmade _ _ hs hwrite
    case h_2 => cases heq
  case h_2 scratch f heq =>
    split at heq
    case h_1 => cases heq
    case h_2 e hwrite =>
      cases heq
      refine ⟨?_⟩
      rintro s' rfl
      exact hrefused _ _ hs hwrite

end Work

end Montage
