import Montage.Proofs.Render.Steps

/-! # How the events of a render go

The percents of a render start with 0 and rise. They stay at 99 or below, whatever the encoder says,
until it has succeeded and its output is there; the end is told then and only then. -/

namespace Montage

open Work (Leads)

/-! ## Sessions underway -/

theorem Session.invariant_underway (host : Host) (programs : List String) :
    Session.Invariant host programs (·.tracker.Underway) where
  reported _ _ hs he := hs.report he
  waited _ hs := hs
  ran _ _ _ _ _ _ _ _ hs' := ⟨hs', fun _ => hs'⟩
  allocated _ _ _ hs := hs
  wrote _ _ _ _ _ hs _ := hs
  madeDirectories _ _ hs := hs

theorem Session.invariant_true (host : Host) (programs : List String) :
    Session.Invariant host programs fun _ => True where
  reported _ _ _ _ := trivial
  waited _ _ := trivial
  ran _ _ _ _ _ _ _ _ _ := ⟨trivial, fun _ => trivial⟩
  allocated _ _ _ _ := trivial
  wrote _ _ _ _ _ _ _ := trivial
  madeDirectories _ _ _ := trivial

/-! ## What a result says -/

/-- The encoder was started with some arguments, it has ended with success, and its output is
there. -/
def Host.Encodes (host : Host) (program : String) (args : List String) (output : String) : Prop :=
  ∃ files run, host.launch program args files = .ok run ∧ run.status.isSuccess ∧
    run.files.has output

/-- The run of the encoder ends well only after success. -/
theorem Plan.leads_encode (host : Host) (ffmpegPath : String) (plan : Plan) :
    Leads (fun _ => True) (plan.encode host ffmpegPath)
      (fun _ _ => host.Encodes ffmpegPath plan.args plan.outputPath) fun _ _ => True := by
  refine .get fun s _ => ?_
  split
  case h_1 => exact .fail fun _ _ => trivial
  case h_2 run hlaunch =>
    refine .seq (S := fun _ _ => True) .unsaid fun _ => ?_
    refine .seq (S := fun _ s => s.files = run.files) ⟨fun _ _ => rfl⟩ fun _ => ?_
    refine .ite (fun _ => .fail_bind fun _ _ => trivial) fun hsuccess => ?_
    refine .get fun s hs => .ite (fun _ => .fail fun _ _ => trivial) fun houtput => .pure ?_
    rintro _ rfl
    rw [hs] at houtput
    exact ⟨_, run, hlaunch, by simpa using hsuccess, by simpa using houtput⟩

/-- A render returns a path only after the encoder has written it. -/
theorem Render.leads_inScratch (host : Host) (config : Config) (edit : Edit) :
    Leads (fun _ => True) (inScratch host config edit)
      (fun path _ => ∃ (program : Program) (encoder : Encoder),
        host.Encodes config.render.ffmpegPath (program.args (encoder.args config.render) path) path)
      fun _ _ => True := by
  have hplan := Plan.keeps_ofEdit (Session.invariant_true host config.render.tools) edit
  refine .seq (S := fun _ _ => True) .unsaid fun _ => ?_
  refine (Leads.of_keeps hplan fun _ _ _ _ => trivial).bind fun plan haims => ?_
  refine .seq (S := fun _ _ => True) .unsaid fun _ => ?_
  refine .seq (S := fun _ _ => host.Encodes config.render.ffmpegPath plan.args plan.outputPath)
    ?encoded fun _ => .pure fun _ hencodes => ⟨plan.program, plan.encoder, ?_⟩
  case encoded =>
    exact (Plan.leads_encode host config.render.ffmpegPath plan).tryCatch fun _ =>
      .seq (S := fun _ _ => True) .unsaid fun _ => ⟨fun _ _ => trivial⟩
  rwa [← haims.args]

/-! ## Renders -/

/-- How the events of a render go. -/
structure Rendered.Advances (host : Host) (config : Config) (r : Rendered) : Prop where
  starts : r.events.head? = some ⟨.preparing, 0, none⟩
  increasing : (r.events.map (·.percent)).Pairwise (· < ·)
  /-- The end comes last, and nothing before it passes 99. -/
  ends : ∃ before, (∀ e ∈ before, e.percent ≤ 99) ∧
    r.events = before ++ if r.result.isOk then [Progress.finished] else []
  finished_iff : (∃ e ∈ r.events, e.percent = 100) ↔ ∃ path, r.result = .ok path
  /-- The end is told of an encoder that has succeeded, with its output there. -/
  encoded : ∀ path, r.result = .ok path → ∃ (program : Program) (encoder : Encoder),
    host.Encodes config.render.ffmpegPath (program.args (encoder.args config.render) path) path

theorem Tracker.Underway.advances {host : Host} {config : Config} {tracker : Tracker}
    (h : tracker.Underway) {result : Outcome String} (files : FileTree)
    (hencoded : ∀ path, result = .ok path → ∃ (program : Program) (encoder : Encoder),
      host.Encodes config.render.ffmpegPath (program.args (encoder.args config.render) path) path) :
    Rendered.Advances host config ⟨result, files,
      Render.eventsOf (if result.isOk then tracker.complete else tracker)⟩ := by
  have hfirst : tracker.events.reverse.head? = some ⟨.preparing, 0, none⟩ := by
    rw [List.head?_reverse, h.first]
  have hrising : (tracker.events.reverse.map (·.percent)).Pairwise (· < ·) := by
    rw [List.pairwise_map, List.pairwise_reverse]
    exact h.increasing
  have hbelow : ∀ e ∈ tracker.events.reverse, e.percent ≤ Progress.ceiling :=
    fun e he => h.below e (List.mem_reverse.mp he)
  have hend := Progress.ceiling_lt_finished
  cases result with
  | ok path =>
      have hevents : Render.eventsOf (if (Except.ok path : Outcome String).isOk then
          tracker.complete else tracker) = tracker.events.reverse ++ [.finished] := by
        rw [if_pos (by rfl), h.complete]
        exact List.reverse_cons
      rw [hevents]
      refine ⟨by rw [List.head?_append, hfirst]; rfl, ?_, ⟨_, hbelow, rfl⟩, ?_, hencoded⟩
      · rw [List.map_append, List.pairwise_append]
        refine ⟨hrising, List.pairwise_singleton _ _, fun percent hpercent last hlast => ?_⟩
        obtain ⟨e, he, rfl⟩ := List.mem_map.mp hpercent
        obtain rfl := List.mem_singleton.mp hlast
        exact Binary64.lt_of_le_of_lt (hbelow e he) hend
      · exact ⟨fun _ => ⟨path, rfl⟩, fun _ => ⟨.finished, by simp, rfl⟩⟩
  | error failure =>
      refine ⟨hfirst, hrising, ⟨_, hbelow, (List.append_nil _).symm⟩, ⟨?_, nofun⟩, hencoded⟩
      rintro ⟨e, he, hpercent⟩
      have hle := hbelow e he
      rw [hpercent] at hle
      exact absurd hend (Binary64.not_lt_of_le hle)

/-- Whatever the encoder says, however it ends and wherever the render is cancelled, the percents
start with 0 and rise, stay at 99 or below until the encoder has succeeded with its output there,
and reach 100 exactly if the render returns a path. -/
theorem advances_render (host : Host) (config : Config) (edit : Edit)
    (cancelled : Nat → List Progress → Bool) (t : FileTree) :
    (render host config edit cancelled t).Advances host config := by
  have hstart := Tracker.underway_start
  rcases render_cases host config edit cancelled t with
    ⟨t₁, f, -, hrender⟩ | ⟨t₁, t₂, scratch, result, s, -, hperform, hrender⟩
  · rw [hrender]
    exact hstart.advances _ nofun
  rw [hrender]
  refine Tracker.Underway.advances ?_ _ fun path hpath => ?_
  · have hunderway := Session.invariant_underway host config.render.tools
    have hended := Render.inScratch_ended hunderway edit
      (s := { files := t₂, scratch, tracker := _, cancelled }) hstart
    rw [hperform] at hended
    obtain ⟨s', hs', files, -, rfl⟩ := hended.exists_within
    exact hs'
  · rw [hpath] at hperform
    exact (Render.leads_inScratch host config edit).of_ok trivial hperform

end Montage
