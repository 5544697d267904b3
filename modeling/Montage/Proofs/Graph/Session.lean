import Montage.Proofs.Graph.Building

/-! # Building sessions

A caller of a builder gets handles of pads and may pass each on once: to a node that reads it, or
out of the graph when the work is finished. The check of the finished graph then depends on what
the caller left out only. -/

namespace Montage.Builder

/-- A call of the builder. The pads of a node are handles that the caller passes on. -/
inductive Call where
  | addInput (input : MediaInput)
  | source (kind : Stream) (input : Nat)
  | node (kind : Stream) (stage : Stage) (pads : List Pad) (filters : List Filter)
  | generator (kind : Stream) (stage : Stage) (filters : List Filter)
  | fanOut (kind : Stream) (stage : Stage) (pads : List Pad) (filters : List Filter)
      (outputs : Nat)
  deriving DecidableEq, Repr

/-- The filters of the node that a call emits. -/
def Call.filters? : Call → Option (List Filter)
  | addInput _ | source .. => none
  | node _ _ _ filters | generator _ _ filters | fanOut _ _ _ filters _ => some filters

/-- A builder and the handles that its caller holds. -/
structure Session where
  builder : Builder
  held : List Pad
  deriving DecidableEq, Repr

namespace Session

/-- The start: no handle is held. -/
def new (source : MediaInput) : Session := { builder := .new source, held := [] }

/-- The handles that are left after some of one kind were passed on. A handle that is not held
cannot be passed on. -/
def give? (held : List Pad) (kind : Stream) : List Pad → Option (List Pad)
  | [] => some held
  | pad :: pads =>
      if pad ∈ held ∧ pad.kind = kind then give? (held.erase pad) kind pads else none

/-- One call. The handles that it returns are held from then on. -/
def step? (s : Session) : Call → Option Session
  | .addInput input => some { s with builder := (s.builder.addInput input).1 }
  | .source kind input =>
      let (b, handle) := s.builder.source kind input
      some { builder := b, held := handle.toOption.toList ++ s.held }
  | .node kind stage pads filters =>
      (give? s.held kind pads).map fun held =>
        let (b, pad) := s.builder.node kind stage pads filters
        { builder := b, held := pad :: held }
  | .generator kind stage filters =>
      let (b, pad) := s.builder.generator kind stage filters
      some { builder := b, held := pad :: s.held }
  | .fanOut kind stage pads filters outputs =>
      (give? s.held kind pads).map fun held =>
        let (b, made) := s.builder.fanOut kind stage pads filters outputs
        { builder := b, held := made ++ held }

/-- Calls, one after the other. -/
def run? (s : Session) (calls : List Call) : Option Session := calls.foldlM step? s

/-- The finished graph and the handles that were passed on to nothing. -/
def finish? (s : Session) (video audio : Option Pad) : Option (Graph × List Pad) := do
  let held ← give? s.held .video video.toList
  let lost ← give? held .audio audio.toList
  return (s.builder.finish video audio, lost)

/-- A whole session: its finished graph and the handles that were lost. -/
def complete? (source : MediaInput) (calls : List Call) (video audio : Option Pad) :
    Option (Graph × List Pad) := do
  let s ← (new source).run? calls
  s.finish? video audio

/-! ## Passing handles on -/

theorem give?_eq_some {held rest pads : List Pad} {kind : Stream}
    (h : give? held kind pads = some rest) :
    held.Perm (pads ++ rest) ∧ ∀ pad ∈ pads, pad.kind = kind := by
  induction pads generalizing held with
  | nil =>
      obtain rfl := Option.some.inj h
      simp
  | cons pad pads ih =>
      rw [give?] at h
      split at h
      case isTrue hpad =>
        obtain ⟨hperm, hkind⟩ := ih h
        refine ⟨(List.perm_cons_erase hpad.1).trans (hperm.cons pad), ?_⟩
        simpa [hpad.2] using hkind
      case isFalse => cases h

/-! ## What a call keeps -/

/-- A call keeps pads in balance. -/
theorem step?_balanced {s s' : Session} {call : Call} (h : s.builder.Balanced s.held)
    (hstep : s.step? call = some s') : s'.builder.Balanced s'.held := by
  cases call with
  | addInput input =>
      obtain rfl := Option.some.inj hstep
      exact h.addInput input
  | source kind input =>
      obtain rfl := Option.some.inj hstep
      exact h.source kind input
  | node kind stage pads filters =>
      obtain ⟨held, hheld, rfl⟩ := Option.map_eq_some_iff.mp hstep
      exact (h.perm (give?_eq_some hheld).1).node pads kind stage filters
  | generator kind stage filters =>
      obtain rfl := Option.some.inj hstep
      exact h.node [] kind stage filters
  | fanOut kind stage pads filters outputs =>
      obtain ⟨held, hheld, rfl⟩ := Option.map_eq_some_iff.mp hstep
      exact (h.perm (give?_eq_some hheld).1).fanOut pads kind stage filters outputs

/-- A call adds its node and leaves the others as they are. -/
theorem step?_filters {s s' : Session} {call : Call} (hstep : s.step? call = some s') :
    s'.builder.nodes.map Node.filters =
      s.builder.nodes.map Node.filters ++ call.filters?.toList := by
  cases call with
  | addInput input =>
      obtain rfl := Option.some.inj hstep
      simp [addInput, Call.filters?]
  | source kind input =>
      simp only [step?, Option.some.injEq] at hstep
      subst hstep
      simp [source_nodes, Call.filters?]
  | node kind stage pads filters =>
      obtain ⟨held, -, rfl⟩ := Option.map_eq_some_iff.mp hstep
      simp [Builder.node, Call.filters?]
  | generator kind stage filters =>
      obtain rfl := Option.some.inj hstep
      simp [Call.filters?]
  | fanOut kind stage pads filters outputs =>
      obtain ⟨held, -, rfl⟩ := Option.map_eq_some_iff.mp hstep
      simp [Builder.fanOut, Call.filters?]

/-! ## What a session keeps -/

theorem run?_balanced {s s' : Session} {calls : List Call} (h : s.builder.Balanced s.held)
    (hrun : s.run? calls = some s') : s'.builder.Balanced s'.held := by
  induction calls generalizing s with
  | nil => obtain rfl := Option.some.inj hrun; exact h
  | cons call calls ih =>
      obtain ⟨next, hnext, hrest⟩ := Option.bind_eq_some_iff.mp hrun
      exact ih (step?_balanced h hnext) hrest

theorem run?_filters {s s' : Session} {calls : List Call} (hrun : s.run? calls = some s') :
    s'.builder.nodes.map Node.filters =
      s.builder.nodes.map Node.filters ++ calls.filterMap Call.filters? := by
  induction calls generalizing s with
  | nil => obtain rfl := Option.some.inj hrun; simp
  | cons call calls ih =>
      obtain ⟨next, hnext, hrest⟩ := Option.bind_eq_some_iff.mp hrun
      rw [ih hrest, step?_filters hnext, List.append_assoc]
      cases hf : call.filters? <;> simp [hf]

theorem finish?_eq_some {s : Session} {video audio : Option Pad} {g : Graph} {lost : List Pad}
    (h : s.finish? video audio = some (g, lost)) :
    s.held.Perm (video.toList ++ audio.toList ++ lost) ∧
      (∀ pad, video = some pad → pad.kind = .video) ∧
      (∀ pad, audio = some pad → pad.kind = .audio) ∧ g = s.builder.finish video audio := by
  obtain ⟨held, hheld, hrest⟩ := Option.bind_eq_some_iff.mp h
  obtain ⟨left, hleft, heq⟩ := Option.bind_eq_some_iff.mp hrest
  obtain ⟨rfl, rfl⟩ := Prod.mk.inj (Option.some.inj heq)
  obtain ⟨hvideo, hvideoKind⟩ := give?_eq_some hheld
  obtain ⟨haudio, haudioKind⟩ := give?_eq_some hleft
  refine ⟨?_, by simpa using hvideoKind, by simpa using haudioKind, rfl⟩
  rw [List.append_assoc]
  exact hvideo.trans (haudio.append_left _)

/-- The check of a session's graph is the verdict on its chains, its ends and its losses. -/
theorem check_complete? {source : MediaInput} {calls : List Call} {video audio : Option Pad}
    {g : Graph} {lost : List Pad} (h : complete? source calls video audio = some (g, lost)) :
    g.check = verdict (calls.filterMap Call.filters?) video audio lost := by
  obtain ⟨s, hrun, hfinish⟩ := Option.bind_eq_some_iff.mp h
  obtain ⟨hheld, hvideo, haudio, rfl⟩ := finish?_eq_some hfinish
  have hbalanced := run?_balanced (Balanced.new source) hrun
  have hfilters := run?_filters hrun
  rw [(hbalanced.perm hheld).check_finish hvideo haudio, hfilters]
  rfl

/-- Take any session that passes each handle on at most once. Its graph passes the check exactly
if no chain of filters is empty, a pad leaves the graph and no output is lost. If only outputs are
lost, they are listed; there are no other faults. A refused stream leaves the builder as it was. -/
theorem check_eq_ok_iff_of_complete? {source : MediaInput} {calls : List Call}
    {video audio : Option Pad} {g : Graph} {lost : List Pad}
    (h : complete? source calls video audio = some (g, lost)) :
    (g.check = .ok () ↔
      (∀ filters ∈ calls.filterMap Call.filters?, filters ≠ []) ∧
        (video ≠ none ∨ audio ≠ none) ∧ Pad.labels lost = []) ∧
    ((∀ filters ∈ calls.filterMap Call.filters?, filters ≠ []) →
      (video ≠ none ∨ audio ≠ none) → Pad.labels lost ≠ [] →
        g.check = .error (.unconnected (Wiring.sorted (Pad.labels lost)))) ∧
    (∀ fault, g.check = .error fault →
      (∃ k, fault = .noFilters k ∧ (calls.filterMap Call.filters?)[k]? = some []) ∨
        (fault = .noTerminal ∧ video = none ∧ audio = none) ∨
        (fault = .unconnected (Wiring.sorted (Pad.labels lost)) ∧ Pad.labels lost ≠ [])) ∧
    ∀ (b : Builder) kind input refusal, (b.source kind input).2 = .error refusal →
      (b.source kind input).1 = b := by
  rw [check_complete? h]
  refine ⟨verdict_eq_ok_iff, verdict_of_lost, ?_, ?_⟩
  · exact fun fault => verdict_eq_error
  · exact fun b kind input refusal => source_of_error

/-- The second copy of a picture is lost, and a stream that was taken before is refused. -/
theorem check_of_lost_copy :
    ∃ g, complete? { path := "in.mp4" }
        [.source .video 0, .source .video 0,
          .fanOut .video .frame [.source 0 .video] [{ name := "split" }] 2]
        (some (.link "v0" .video)) none = some (g, [.link "v1" .video]) ∧
      g.check = .error (.unconnected ["v1"]) := by
  have hcomplete : complete? { path := "in.mp4" }
      [.source .video 0, .source .video 0,
        .fanOut .video .frame [.source 0 .video] [{ name := "split" }] 2]
      (some (.link "v0" .video)) none = some (_, [.link "v1" .video]) := rfl
  refine ⟨_, hcomplete, ?_⟩
  rw [(check_eq_ok_iff_of_complete? hcomplete).2.1 (by decide) (by decide) (by decide)]
  simp [Wiring.sorted]

end Session

end Montage.Builder
