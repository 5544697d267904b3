import Montage.Progress
import Montage.Proofs.Binary64.Bounds

/-! # Progress moves forward

The percents of the events that a tracker forwards rise within `[0, 100]`, whatever it is told. A
render stays at 99 or below until it tells the end.

Of any calls, a tracker forwards exactly those that reach a new height: their percent is finite and,
brought into `[0, 100]`, above that of every call forwarded before. -/

namespace Montage

namespace Progress

theorem probed_le_ceiling : probed ≤ ceiling := Binary64.ofNat_mono (by decide : 5 ≤ 99)

theorem locating_le_ceiling : locating ≤ ceiling := Binary64.ofNat_mono (by decide : 7 ≤ 99)

theorem compiled_le_ceiling : compiled ≤ ceiling := Binary64.ofNat_mono (by decide : 10 ≤ 99)

theorem zero_le_ceiling : 0 ≤ ceiling := Binary64.zero_le_ofNat 99

theorem has_ceiling : ceiling.Has 99 := Binary64.has_literal 99 (by decide)

theorem has_hundred : (100 : Binary64).Has 100 := Binary64.has_literal 100 (by decide)

theorem ceiling_lt_finished : ceiling < finished.percent :=
  (has_ceiling.lt_iff has_hundred).mpr (by norm_num)

end Progress

/-- The percent while encoding stays below the end, whatever the share is: also where it is not a
number. -/
theorem encodePercent_le (ratio : Binary64) : encodePercent ratio ≤ Progress.ceiling :=
  Binary64.minimum_le_right Progress.has_ceiling.isNaN_eq_false

namespace Tracker

variable {t : Tracker} {e : Progress}

/-- The events have percents within `[0, 100]`, and later ones have greater percents. -/
structure Rising (t : Tracker) : Prop where
  bounds : ∀ e ∈ t.events, 0 ≤ e.percent ∧ e.percent ≤ 100
  increasing : t.events.Pairwise fun e earlier => earlier.percent < e.percent

/-- A percent that is a number, in the bounds. -/
def clamped (percent : Binary64) : Binary64 := (percent.clamp? 0 100).getD percent

theorem clamp?_eq (percent : Binary64) : percent.clamp? 0 100 = some (clamped percent) := by
  have hsome : (percent.clamp? 0 100).isSome := 
    Binary64.clamp?_isSome.mpr (Binary64.zero_le_ofNat 100)
  obtain ⟨y, hy⟩ := Option.isSome_iff_exists.mp hsome
  rw [clamped, hy, Option.getD_some]

/-- What a report does: it is held back, since it is not finite or since the last event was as far,
or its event is the last one now. -/
theorem report_cases (t : Tracker) (e : Progress) :
    (t.report e = (t, false) ∧
        (e.percent.isFinite → ∃ last, t.last? = some last ∧ clamped e.percent ≤ last)) ∨
      (t.report e = (⟨{ e with percent := clamped e.percent } :: t.events⟩, true) ∧
        e.percent.isFinite ∧ ∀ last, t.last? = some last → ¬ clamped e.percent ≤ last) := by
  rw [report]
  split
  case isFalse hinfinite => exact .inl ⟨rfl, fun hfinite => absurd hfinite hinfinite⟩
  case isTrue hfinite =>
    dsimp only
    split
    case isTrue hheld =>
      obtain ⟨last, hlast, hle⟩ := (Option.any_eq_true _ _).mp hheld
      exact .inl ⟨rfl, fun _ => ⟨last, hlast, of_decide_eq_true hle⟩⟩
    case isFalse hrises =>
      refine .inr ⟨rfl, hfinite, fun last hlast hle => hrises ?_⟩
      rw [hlast, Option.any_some]
      exact decide_eq_true hle

theorem bounds_clamped {percent : Binary64} (h : percent.isFinite) :
    0 ≤ clamped percent ∧ clamped percent ≤ 100 := by
  refine Binary64.clamp?_bounds ?_ (clamp?_eq percent)
  cases percent <;> first | rfl | cases h

theorem Rising.report (h : t.Rising) (e : Progress) : (t.report e).1.Rising := by
  rcases report_cases t e with ⟨heq, -⟩ | ⟨heq, hfinite, hrises⟩
  · rwa [heq]
  have hbounds := bounds_clamped hfinite
  rw [heq]
  refine ⟨List.forall_mem_cons.mpr ⟨hbounds, h.bounds⟩, List.pairwise_cons.mpr ⟨?_, h.increasing⟩⟩
  obtain ⟨events⟩ := t
  cases events with
  | nil => exact fun _ hmem => nomatch hmem
  | cons last events =>
      obtain ⟨-, hnumber, -⟩ := Binary64.le_def.mp hbounds.1
      obtain ⟨-, hlast, -⟩ := Binary64.le_def.mp (h.bounds last List.mem_cons_self).1
      have hlt : last.percent < clamped e.percent :=
        Binary64.lt_of_not_le hnumber hlast (hrises _ rfl)
      intro earlier hearlier
      rcases List.mem_cons.mp hearlier with rfl | hbefore
      · exact hlt
      · have hbelow := List.rel_of_pairwise_cons h.increasing hbefore
        exact Binary64.lt_of_lt_of_le hbelow (Binary64.le_of_lt hlt)

/-! ## Before the end -/

/-- What a tracker has forwarded while a render is underway. -/
structure Underway (t : Tracker) : Prop extends Rising t where
  first : t.events.getLast? = some ⟨.preparing, 0, none⟩
  below : ∀ e ∈ t.events, e.percent ≤ Progress.ceiling

theorem underway_start : (({} : Tracker).report ⟨.preparing, 0, none⟩).1.Underway := by
  have hempty : ({} : Tracker).Rising := ⟨fun _ => nofun, .nil⟩
  have hevents : (({} : Tracker).report ⟨.preparing, 0, none⟩).1 = ⟨[⟨.preparing, 0, none⟩]⟩ := by
    decide +kernel
  refine ⟨hempty.report _, ?_, ?_⟩
  · rw [hevents]
    rfl
  · rw [hevents]
    exact List.forall_mem_singleton.mpr Progress.zero_le_ceiling

theorem Underway.report (h : t.Underway) (he : e.percent ≤ Progress.ceiling) :
    (t.report e).1.Underway := by
  refine ⟨h.toRising.report e, ?_, ?_⟩ <;>
    rcases report_cases t e with ⟨heq, -⟩ | ⟨heq, -⟩ <;> rw [heq]
  · exact h.first
  · rw [List.getLast?_cons, h.first]
    rfl
  · exact h.below
  · have hclamped := Binary64.clamp?_le he Progress.zero_le_ceiling (clamp?_eq e.percent)
    exact List.forall_mem_cons.mpr ⟨hclamped, h.below⟩

/-- The end is forwarded, since everything before it is below. -/
theorem Underway.complete (h : t.Underway) :
    t.complete = ⟨.finished :: t.events⟩ := by
  have hclamped : clamped Progress.finished.percent = Progress.finished.percent := by
    decide +kernel
  rcases report_cases t .finished with ⟨-, hheld⟩ | ⟨heq, -⟩
  · obtain ⟨last, hlast, hle⟩ := hheld Progress.has_hundred.isFinite
    obtain ⟨e, he, rfl⟩ := Option.map_eq_some_iff.mp hlast
    have hlt := Binary64.lt_of_le_of_lt (h.below e (List.mem_of_head? he))
      Progress.ceiling_lt_finished
    rw [hclamped] at hle
    exact absurd hlt (Binary64.not_lt_of_le hle)
  · rw [Tracker.complete, heq, hclamped]

/-! ## Calls of any kind -/

/-- A call of a tracker: a report, or the end. -/
inductive Call where
  | report (e : Progress)
  | complete
  deriving DecidableEq

/-- The event that a call is about. -/
def Call.event : Call → Progress
  | .report e => e
  | .complete => .finished

/-- The percent of a call, brought into the bounds; there is none unless it is finite. -/
def Call.height? (c : Call) : Option Rat :=
  if c.event.percent.isFinite then some (max 0 (min c.event.percent.toRat 100)) else none

/-- The tracker after a call, and the answer to a report. -/
def handle (t : Tracker) : Call → Tracker × Option Bool
  | .report e => ((t.report e).1, some (t.report e).2)
  | .complete => (t.complete, none)

/-- The event that was forwarded since an earlier time. -/
def newest? (t earlier : Tracker) : Option Progress :=
  if earlier.events.length < t.events.length then t.events.head? else none

/-- What became of a call: the event that was forwarded, if any, and the answer to a report. -/
structure Handled where
  call : Call
  forwarded : Option Progress
  answer : Option Bool
  deriving DecidableEq

/-- A tracker after some calls, and what became of each of them. -/
structure Log where
  tracker : Tracker := {}
  handled : List Handled := []
  deriving DecidableEq

/-- The log after one more call. -/
def Log.add (log : Log) (c : Call) : Log :=
  let (tracker, answer) := log.tracker.handle c
  { tracker
    handled := log.handled ++ [{ call := c, forwarded := tracker.newest? log.tracker, answer }] }

/-- The log of some calls, from the beginning. -/
def run (calls : List Call) : Log := calls.foldl Log.add {}

/-- The events that the calls of a log forwarded, first one first. -/
def Log.forwarded (log : Log) : List Progress := log.handled.filterMap (·.forwarded)

/-! ## One call -/

variable {c : Call} {v : Rat}

theorem Call.height?_bounds (h : c.height? = some v) : 0 ≤ v ∧ v ≤ 100 := by
  rw [height?] at h
  split at h
  case isFalse => cases h
  case isTrue =>
    obtain rfl := Option.some.inj h
    constructor
    · apply le_max_left
    · apply max_le
      · norm_num
      · apply min_le_right

theorem Call.height?_complete : Call.complete.height? = some 100 := by decide +kernel

/-- The percent of a forwarded event is the height of its call. -/
theorem has_clamped (h : c.height? = some v) : (clamped c.event.percent).Has v := by
  rw [Call.height?] at h
  split at h
  case isFalse => cases h
  case isTrue hfinite =>
    obtain rfl := Option.some.inj h
    obtain ⟨y, hy, hvalue⟩ :=
      (Binary64.has_toRat hfinite).clamp? Binary64.has_zero Progress.has_hundred (by norm_num)
    rw [clamp?_eq, Option.some.injEq] at hy
    rwa [hy]

theorem Rising.has_percent (h : t.Rising) {e : Progress} (he : e ∈ t.events) :
    e.percent.Has e.percent.toRat := by
  obtain ⟨hlow, hhigh⟩ := h.bounds e he
  apply Binary64.has_toRat
  exact Binary64.isFinite_of_le_of_le Binary64.has_zero.isFinite Progress.has_hundred.isFinite
    hlow hhigh

/-- The event that a call forwards, if it forwards one. -/
def Call.clampedEvent (c : Call) : Progress := { c.event with percent := clamped c.event.percent }

/-- The answer to a call, if it is a report. -/
def Call.answer? (forwarded : Bool) : Call → Option Bool
  | .report _ => some forwarded
  | .complete => none

theorem handle_eq (t : Tracker) (c : Call) :
    t.handle c = ((t.report c.event).1, c.answer? (t.report c.event).2) := by
  cases c with
  | report e => rfl
  | complete => rfl

/-- What a call does: it is held back, since the last event was as high or it has no height, or its
event is forwarded, since it is higher than all before. -/
theorem handle_cases (h : t.Rising) (c : Call) :
    (t.handle c = (t, c.answer? false) ∧
        ∀ v, c.height? = some v → ∃ e, t.events.head? = some e ∧ v ≤ e.percent.toRat) ∨
      ∃ v, c.height? = some v ∧ (∀ e ∈ t.events, e.percent.toRat < v) ∧
        t.handle c = (⟨c.clampedEvent :: t.events⟩, c.answer? true) := by
  have hrising := h.report c.event
  rw [handle_eq]
  rcases report_cases t c.event with ⟨heq, hheld⟩ | ⟨heq, hfinite, -⟩
  · rw [heq]
    refine .inl ⟨rfl, fun v hv => ?_⟩
    have hfinite : c.event.percent.isFinite := by
      by_contra hnot
      simp [Call.height?, hnot] at hv
    obtain ⟨last, hlast, hle⟩ := hheld hfinite
    obtain ⟨e, he, rfl⟩ := Option.map_eq_some_iff.mp hlast
    have hpercent := h.has_percent (List.mem_of_head? he)
    exact ⟨e, he, ((has_clamped hv).le_iff hpercent).mp hle⟩
  · rw [heq] at hrising ⊢
    obtain ⟨v, hv⟩ : ∃ v, c.height? = some v := ⟨_, if_pos hfinite⟩
    refine .inr ⟨v, hv, fun e he => ?_, rfl⟩
    have hlt := List.rel_of_pairwise_cons hrising.increasing he
    exact ((h.has_percent he).lt_iff (has_clamped hv)).mp hlt

/-! ## Any number of calls -/

namespace Log

variable {log : Log} {calls : List Call}

/-- The tracker of a log has forwarded what its calls forwarded. -/
structure Sound (log : Log) : Prop where
  rising : log.tracker.Rising
  forwarded_eq : log.forwarded = log.tracker.events.reverse

/-- One more call: it is held back or forwarded, as its height says. -/
theorem Sound.add_cases (h : log.Sound) (c : Call) :
    (log.add c = ⟨log.tracker, log.handled ++ [⟨c, none, c.answer? false⟩]⟩ ∧
        ∀ v, c.height? = some v → ∃ e, log.forwarded.getLast? = some e ∧ v ≤ e.percent.toRat) ∨
      ∃ v, c.height? = some v ∧ (∀ e ∈ log.forwarded, e.percent.toRat < v) ∧
        log.add c = ⟨⟨c.clampedEvent :: log.tracker.events⟩,
          log.handled ++ [⟨c, some c.clampedEvent, c.answer? true⟩]⟩ := by
  simp only [h.forwarded_eq, List.getLast?_reverse, List.mem_reverse]
  rcases handle_cases h.rising c with ⟨heq, hheld⟩ | ⟨v, hv, habove, heq⟩
  · left
    refine ⟨?_, hheld⟩
    simp [add, heq, newest?]
  · right
    refine ⟨v, hv, habove, ?_⟩
    simp [add, heq, newest?]

theorem Sound.add (h : log.Sound) (c : Call) : (log.add c).Sound := by
  have hrising := h.rising.report c.event
  have htracker : (log.add c).tracker = (log.tracker.report c.event).1 := by
    rw [Log.add, handle_eq]
  rw [← htracker] at hrising
  refine ⟨hrising, ?_⟩
  have hforwarded := h.forwarded_eq
  rcases h.add_cases c with ⟨heq, -⟩ | ⟨v, -, -, heq⟩
  · rw [heq]
    simpa [Log.forwarded] using hforwarded
  · rw [heq]
    simpa [Log.forwarded] using hforwarded

theorem run_concat (calls : List Call) (c : Call) : run (calls ++ [c]) = (run calls).add c := by
  rw [run, List.foldl_concat, ← run]

theorem sound_run (calls : List Call) : (run calls).Sound := by
  induction calls using List.reverseRecOn with
  | nil => exact ⟨⟨fun _ => nofun, .nil⟩, rfl⟩
  | append_singleton calls c ih =>
      rw [run_concat]
      exact ih.add c

theorem Sound.increasing (h : log.Sound) :
    log.forwarded.Pairwise fun e later => e.percent.toRat < later.percent.toRat := by
  rw [h.forwarded_eq, List.pairwise_reverse]
  apply h.rising.increasing.imp_of_mem
  intro later e hlater he hlt
  exact ((h.rising.has_percent he).lt_iff (h.rising.has_percent hlater)).mp hlt

theorem Sound.bounds (h : log.Sound) : ∀ e ∈ log.forwarded, e.percent.Within 0 100 := by
  intro e he
  rw [h.forwarded_eq, List.mem_reverse] at he
  obtain ⟨hlow, hhigh⟩ := h.rising.bounds e he
  have hpercent := h.rising.has_percent he
  exact ⟨hpercent.isFinite, (Binary64.has_zero.le_iff hpercent).mp hlow,
    (hpercent.le_iff Progress.has_hundred).mp hhigh⟩

/-- Of events with rising percents, no more than one has a given percent. -/
theorem length_filter_percent_le {events : List Progress}
    (h : events.Pairwise fun e later => e.percent.toRat < later.percent.toRat) (v : Rat) :
    (events.filter fun e => e.percent.toRat = v).length ≤ 1 := by
  induction events with
  | nil => simp
  | cons e events ih =>
      obtain ⟨hfirst, hrest⟩ := List.pairwise_cons.mp h
      by_cases he : e.percent.toRat = v
      · have hnone : events.filter (fun e => e.percent.toRat = v) = [] := by
          apply List.filter_eq_nil_iff.mpr
          intro later hlater
          have hlt := hfirst later hlater
          rw [he] at hlt
          simpa using hlt.ne'
        simp [he, hnone]
      · simpa [he] using ih hrest

/-- What holds of each call and those before it, for one more call. -/
theorem forall_prefix_concat {handled : List Handled} {new : Handled}
    {P : List Handled → Handled → Prop} (h : ∀ before h, before ++ [h] <+: handled → P before h)
    (hnew : P handled new) : ∀ before h, before ++ [h] <+: handled ++ [new] → P before h := by
  intro before last hprefix
  rcases List.prefix_concat_iff.mp hprefix with heq | hprefix
  · obtain ⟨rfl, hlast⟩ := List.append_inj' heq rfl
    obtain rfl := List.singleton_inj.mp hlast
    exact hnew
  · exact h before last hprefix

/-- A log accounts for some calls. -/
structure Accounts (log : Log) (calls : List Call) : Prop where
  /-- Each call is handled in turn. -/
  handled : log.handled.map (·.call) = calls
  /-- Exactly those calls are forwarded that are higher than all that were forwarded before. -/
  forwards : ∀ before h, before ++ [h] <+: log.handled → (h.forwarded.isSome ↔
    ∃ v, h.call.height? = some v ∧ ∀ e ∈ before.filterMap (·.forwarded), e.percent.toRat < v)
  /-- They are forwarded as they are, with the percent in the bounds. -/
  event : ∀ h ∈ log.handled, ∀ e ∈ h.forwarded,
    e = h.call.clampedEvent ∧ ∃ v, h.call.height? = some v ∧ e.percent.Has v
  /-- A report tells whether it was forwarded; the end has no answer. -/
  answer : ∀ h ∈ log.handled, h.answer = h.call.answer? h.forwarded.isSome

/-- A call that was held back. -/
theorem Accounts.hold (h : log.Accounts calls) {c : Call}
    (hheld : ∀ v, c.height? = some v →
      ∃ e, log.forwarded.getLast? = some e ∧ v ≤ e.percent.toRat) (t : Tracker) :
    Accounts ⟨t, log.handled ++ [⟨c, none, c.answer? false⟩]⟩ (calls ++ [c]) := by
  obtain ⟨hhandled, hforwards, hevent, hanswer⟩ := h
  refine ⟨by simp [hhandled], forall_prefix_concat hforwards (iff_of_false nofun ?_), ?_, ?_⟩
  · rintro ⟨v, hv, habove⟩
    obtain ⟨e, he, hle⟩ := hheld v hv
    exact absurd (habove e (List.mem_of_getLast? he)) (not_lt.mpr hle)
  · rw [List.forall_mem_append, List.forall_mem_singleton]
    refine ⟨hevent, ?_⟩
    rintro e ⟨⟩
  · rw [List.forall_mem_append, List.forall_mem_singleton]
    exact ⟨hanswer, rfl⟩

/-- A call that was forwarded. -/
theorem Accounts.forward (h : log.Accounts calls) {c : Call} (hv : c.height? = some v)
    (habove : ∀ e ∈ log.forwarded, e.percent.toRat < v) (t : Tracker) :
    Accounts ⟨t, log.handled ++ [⟨c, some c.clampedEvent, c.answer? true⟩]⟩ (calls ++ [c]) := by
  obtain ⟨hhandled, hforwards, hevent, hanswer⟩ := h
  refine ⟨by simp [hhandled],
    forall_prefix_concat hforwards (iff_of_true rfl ⟨v, hv, habove⟩), ?_, ?_⟩
  · rw [List.forall_mem_append, List.forall_mem_singleton]
    refine ⟨hevent, ?_⟩
    rintro e ⟨⟩
    exact ⟨rfl, v, hv, has_clamped hv⟩
  · rw [List.forall_mem_append, List.forall_mem_singleton]
    exact ⟨hanswer, rfl⟩

theorem accounts_run (calls : List Call) : (run calls).Accounts calls := by
  induction calls using List.reverseRecOn with
  | nil => refine ⟨rfl, ?_, ?_, ?_⟩ <;> simp [run]
  | append_singleton calls c ih =>
      rw [run_concat]
      rcases (sound_run calls).add_cases c with ⟨heq, hheld⟩ | ⟨v, hv, habove, heq⟩
      · rw [heq]
        exact ih.hold hheld _
      · rw [heq]
        exact ih.forward hv habove _

/-- Once the end was told, the last event is at 100. -/
theorem ended_run {calls : List Call} (h : .complete ∈ calls) :
    ∃ e, (run calls).forwarded.getLast? = some e ∧ e.percent.Has 100 := by
  induction calls using List.reverseRecOn with
  | nil => cases h
  | append_singleton calls c ih =>
      have hsound := sound_run calls
      rw [run_concat]
      rcases hsound.add_cases c with ⟨heq, hheld⟩ | ⟨v, hv, habove, heq⟩
      · have hsame : ((run calls).add c).forwarded = (run calls).forwarded := by
          simp [heq, forwarded]
        rw [hsame]
        rcases List.mem_append.mp h with hbefore | hlast
        · exact ih hbefore
        · obtain rfl := List.mem_singleton.mp hlast
          obtain ⟨e, he, hle⟩ := hheld 100 Call.height?_complete
          obtain ⟨hfinite, -, hhigh⟩ := hsound.bounds e (List.mem_of_getLast? he)
          exact ⟨e, he, hfinite, le_antisymm hhigh hle⟩
      · have hlast : ((run calls).add c).forwarded.getLast? = some c.clampedEvent := by
          simp [heq, forwarded]
        refine ⟨c.clampedEvent, hlast, ?_⟩
        rcases List.mem_append.mp h with hbefore | hlast
        · obtain ⟨e, he, hpercent⟩ := ih hbefore
          have hlt := habove e (List.mem_of_getLast? he)
          rw [hpercent.toRat_eq] at hlt
          exact absurd (Call.height?_bounds hv).2 (not_le.mpr hlt)
        · obtain rfl := List.mem_singleton.mp hlast
          exact has_clamped Call.height?_complete

/-- What a tracker owes to some calls. -/
structure Faithful (log : Log) (calls : List Call) : Prop extends Accounts log calls where
  /-- The percents rise, within `[0, 100]`. -/
  increasing : log.forwarded.Pairwise fun e later => e.percent.toRat < later.percent.toRat
  bounds : ∀ e ∈ log.forwarded, e.percent.Within 0 100
  /-- No more than one event is at 100. -/
  once : (log.forwarded.filter fun e => e.percent.toRat = 100).length ≤ 1
  /-- When the end was told, the last event is at 100. -/
  ended : .complete ∈ calls → ∃ e, log.forwarded.getLast? = some e ∧ e.percent.Has 100

/-- Whatever a tracker is told, it forwards the calls that go higher than all before. -/
theorem faithful_run (calls : List Call) : (run calls).Faithful calls := by
  have hsound := sound_run calls
  exact ⟨accounts_run calls, hsound.increasing, hsound.bounds,
    length_filter_percent_le hsound.increasing 100, ended_run⟩

example : (run [.report ⟨.probing, 5, none⟩, .report ⟨.encoding, Binary64.nan, none⟩,
    .report ⟨.encoding, -3, none⟩, .report ⟨.encoding, .infinite false, none⟩,
    .report ⟨.encoding, 250, some 0⟩, .complete]).handled.map (fun h => (h.answer, h.forwarded)) =
      [(some true, some ⟨.probing, 5, none⟩), (some false, none), (some false, none),
        (some false, none), (some true, some ⟨.encoding, 100, some 0⟩), (none, none)] := by
  decide +kernel

end Log

end Tracker

end Montage
