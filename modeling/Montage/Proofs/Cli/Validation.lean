import Montage.Cli.Tasks
import Montage.Proofs.Render.Planning

/-! # Valid edits are those that can be planned

The validation of an edit looks at its rules, its captions and its files. Planning does so too, and
also decodes the inline images of the stickers. -/

namespace Montage.Cli

namespace Console

variable {α β : Type} {c : Console} {last : String}

/-- The result of a computation and the console after it. -/
def run (w : M α) (c : Console) : Except String α × Console := Id.run (w.run.run c)

theorem run_bind (w : M α) (f : α → M β) (c : Console) :
    run (w >>= f) c =
      match run w c with
      | (.ok a, c') => run (f a) c'
      | (.error message, c') => (.error message, c') := by
  cases h : run w c with
  | mk result c' =>
      change Id.run (w.run.run c) = (result, c') at h
      cases result with
      | ok a => simp only [run, ExceptT.run_bind, StateT.run_bind, Id.run_bind, h]
      | error message =>
          simp only [run, ExceptT.run_bind, StateT.run_bind, Id.run_bind, h]
          rfl

/-- A computation ends well, and these are the last words that it has printed. -/
def Says (w : M Unit) (c : Console) (last : String) : Prop :=
  ∃ c' before, run w c = (.ok (), c') ∧ c'.output = before ++ last

theorem says_line {text : String} :
    Says (line text) c last ↔ ∃ before, c.output ++ (text ++ "\n") = before ++ last := by
  constructor
  · rintro ⟨c', before, hrun, hlast⟩
    cases hrun
    exact ⟨before, hlast⟩
  · rintro ⟨before, hlast⟩
    exact ⟨_, before, rfl, hlast⟩

theorem says_line_bind {text : String} {f : Unit → M Unit} : Says (line text >>= f) c last ↔
    Says (f ()) { c with output := c.output ++ (text ++ "\n") } last := .rfl

theorem says_tree_bind {f : FileTree → M Unit} :
    Says (tree >>= f) c last ↔ Says (f c.files) c last := .rfl

theorem says_orFail_bind {label : String} {x : Outcome α} {f : α → M Unit} :
    Says (orFail label x >>= f) c last ↔ ∃ a, x = .ok a ∧ Says (f a) c last := by
  cases x with
  | ok a => simp [Says, orFail, pure_bind]
  | error failure =>
      refine ⟨fun ⟨c', _, hrun, _⟩ => ?_, nofun⟩
      cases failure <;> cases hrun

/-- Lines are printed one after the other, and the rest goes on. -/
theorem says_lines_bind {text : β → String} {bs : List β} {f : PUnit → M Unit}
    (h : Says (forIn bs PUnit.unit (fun b _ => do
      line (text b)
      pure (ForInStep.yield PUnit.unit)) >>= f) c last) :
    ∃ printed, Says (f PUnit.unit) { c with output := c.output ++ printed } last := by
  induction bs generalizing c with
  | nil => exact ⟨"", by rwa [String.append_empty]⟩
  | cons b bs ih =>
      rw [List.forIn_cons] at h
      obtain ⟨printed, hrest⟩ := ih (c := { c with output := c.output ++ (text b ++ "\n") }) h
      refine ⟨text b ++ "\n" ++ printed, ?_⟩
      rwa [← String.append_assoc]

end Console

open Console

/-- The edit that a file holds. -/
def Loads (t : FileTree) (path : String) (e : Edit) : Prop :=
  (run (loadEdit path) { files := t }).1 = .ok e

/-- The validation of the edit in a file ends well, and its last line says that the edit is
valid. -/
def ReportsValid (t : FileTree) (spec : String) : Prop :=
  Says (validateTask spec) { files := t } "\nEdit is valid.\n"

/-- What was printed has no influence on what is read. -/
theorem run_loadEdit (path : String) (c : Console) :
    run (loadEdit path) c = ((run (loadEdit path) { files := c.files }).1, c) := by
  have hfiles (f : FileTree → M Edit) (c : Console) : run (tree >>= f) c = run (f c.files) c := rfl
  rw [loadEdit, hfiles, hfiles]
  cases c.files.readText path with
  | error e => rfl
  | ok text =>
      dsimp only
      cases Edit.ofText? text <;> rfl

theorem says_loadEdit_bind {path : String} {f : Edit → M Unit} {c : Console} {last : String} :
    Says (loadEdit path >>= f) c last ↔ ∃ e, Loads c.files path e ∧ Says (f e) c last := by
  rw [Says, run_bind, run_loadEdit]
  cases hload : (run (loadEdit path) { files := c.files }).1 with
  | error message => simp [Loads, hload]
  | ok e => simp [Loads, hload, Says]

/-- The last line for an edit with issues is not the one for a valid edit. -/
theorem not_ends_valid (printed before : String) (n : Nat) : printed ++
    (s!"\n{n} issue(s) found. Rendering will fail." ++ "\n") ≠ before ++ "\nEdit is valid.\n" := by
  intro h
  have hlists := congrArg String.toList h
  have hfail : " issue(s) found. Rendering will fail.".toList =
    " issue(s) found. Rendering will fa".toList ++ "il.".toList := by decide
  have hvalid : "\nEdit is valid.\n".toList =
    "\nEdit is val".toList ++ ("id.".toList ++ "\n".toList) := by decide
  simp only [String.toList_append, toString, hfail, hvalid, ← List.append_assoc] at hlists
  have hends := List.append_inj_right' (List.append_cancel_right hlists) (by decide)
  exact absurd hends (by decide)

/-- An edit is reported as valid exactly if it is accepted with the files that are there. -/
theorem reportsValid_iff {t : FileTree} {spec : String} :
    ReportsValid t spec ↔ ∃ e, Loads t spec e ∧ e.Accepted t.has := by
  rw [ReportsValid, validateTask]
  simp only [says_line_bind, says_loadEdit_bind, says_orFail_bind, says_tree_bind]
  constructor
  · rintro ⟨e, hload, clip, hclip, captions, hcaptions, hsays⟩
    refine ⟨e, hload, ⟨clip, hclip, captions, hcaptions⟩, ?_⟩
    split at hsays
    case h_1 hnone => exact hnone
    case h_2 =>
      obtain ⟨printed, hrest⟩ := says_lines_bind (says_line_bind.mp hsays)
      obtain ⟨before, hlast⟩ := says_line.mp hrest
      exact absurd hlast (not_ends_valid _ _ _)
  · rintro ⟨e, hload, ⟨clip, hclip, captions, hcaptions⟩, hnone⟩
    refine ⟨e, hload, clip, hclip, captions, hcaptions, ?_⟩
    rw [hnone]
    exact says_line_bind.mpr (says_line.mpr ⟨_, rfl⟩)

/-- With a scratch directory that takes the files of the plan, on a host whose tools take no place
in it away: the edit in a file can be planned exactly if it is reported as valid and all images of
the stickers in its clip can be decoded. -/
theorem planned_iff_reportsValid {host : Host} {config : Config} {t : FileTree} {spec : String}
    {scratch : Scratch} (hhost : ∀ path, Scratch.IsPlace scratch.root path →
      host.Preserves config.render.tools (·.Takes path))
    (hscratch : ∀ e, Loads t spec e → scratch.Takes t (e.stickers.length + 2)) :
    (∃ e, Loads t spec e ∧ ∃ plan s,
      (Plan.ofEdit host config e).perform { files := t, scratch } = (.ok plan, s)) ↔
    ReportsValid t spec ∧ ∀ e, Loads t spec e → ∀ clip, Clip.ofEdit e = .ok clip →
      ∀ s ∈ clip.stickers, s.Decodes := by
  have hready {e : Edit} (hload : Loads t spec e) :
      Session.Ready scratch.root (e.stickers.length + 2) { files := t, scratch } :=
    ⟨fun _ _ => rfl, rfl, hscratch e hload⟩
  have hplanned {e : Edit} (hload : Loads t spec e) :
      (∃ plan s, (Plan.ofEdit host config e).perform { files := t, scratch } = (.ok plan, s)) ↔
        e.Accepted t.has ∧ ∀ clip, Clip.ofEdit e = .ok clip → ∀ s ∈ clip.stickers, s.Decodes :=
    (Plan.leads_ofEdit_ready hhost (hready hload)).exists_ok_iff rfl
  rw [reportsValid_iff]
  constructor
  · rintro ⟨e, hload, hplan⟩
    obtain ⟨haccepted, hdecodes⟩ := (hplanned hload).mp hplan
    refine ⟨⟨e, hload, haccepted⟩, fun e' hload' => ?_⟩
    cases hload.symm.trans hload'
    exact hdecodes
  · rintro ⟨⟨e, hload, haccepted⟩, hdecodes⟩
    exact ⟨e, hload, (hplanned hload).mpr ⟨haccepted, hdecodes e hload⟩⟩

/-- A talk without layers can be planned. -/
theorem planned_iff_reportsValid_of_talk :
    let text := "\x7b\"sourcePath\":\"/a\",\"trimStartMs\":0,\"trimEndMs\":9," ++
      "\"targetFormat\":\"9:16\"\x7d"
    let t : FileTree :=
      { entries := [(Location.key ["a"], .file [120] false),
          (Location.key ["edit"], .file (Text.encodeUtf8 text) false),
          (Location.key ["scratch"], .directory)] }
    let host : Host :=
      { now := ⟨2026, 1, 2, 3, 4, 5⟩, suffix := "a", launch := fun _ _ _ => .error .notFound }
    let config : Config := { render := { preferHardwareEncoder := false } }
    let scratch : Scratch := { root := "/scratch" }
    ReportsValid t "/edit" ∧ ∃ e, Loads t "/edit" e ∧ ∃ plan s,
      (Plan.ofEdit host config e).perform { files := t, scratch } = (.ok plan, s) := by
  intro text t host config scratch
  have hfacts : (run (loadEdit "/edit") { files := t }).1.toOption.map (fun e =>
      (e.stickers, e.missingFiles t.has, (Clip.ofEdit e).toOption.map fun clip =>
        (clip.stickers.isEmpty, (Caption.ofClip clip).toOption.map (·.isEmpty)))) =
          some ([], [], some (true, some true)) := by
    decide +kernel
  obtain ⟨e, hload, he⟩ := Outcome.exists_of_map hfacts
  obtain ⟨hstickers, he⟩ := Prod.mk.inj he
  obtain ⟨hmissing, hclip⟩ := Prod.mk.inj he
  obtain ⟨clip, hclip, hfacts⟩ := Outcome.exists_of_map hclip
  obtain ⟨hnone, hcaptions⟩ := Prod.mk.inj hfacts
  obtain ⟨captions, hcaptions, -⟩ := Outcome.exists_of_map hcaptions
  have hvalid : ReportsValid t "/edit" :=
    reportsValid_iff.mpr ⟨e, hload, ⟨clip, hclip, captions, hcaptions⟩, hmissing⟩
  have hhost (path : String) (_ : Scratch.IsPlace scratch.root path) :
      host.Preserves config.render.tools (·.Takes path) := by
    intro program _ args now run hrun
    cases hrun
  have hscratch (e' : Edit) (hload' : Loads t "/edit" e') :
      scratch.Takes t (e'.stickers.length + 2) := by
    cases hload.symm.trans hload'
    rw [hstickers]
    decide +kernel
  refine ⟨hvalid, (planned_iff_reportsValid hhost hscratch).mpr ⟨hvalid, ?_⟩⟩
  intro e' hload' clip' hclip' s hs
  cases hload.symm.trans hload'
  cases hclip.symm.trans hclip'
  rw [List.isEmpty_iff.mp hnone] at hs
  cases hs

/-- A talk with a sticker whose inline image has no payload to decode is reported as valid, and
cannot be planned. -/
theorem reportsValid_and_not_planned_of_star :
    let text := "\x7b\"sourcePath\":\"/a\",\"trimStartMs\":0,\"trimEndMs\":9," ++
      "\"targetFormat\":\"9:16\",\"stickerLayers\":[[\x7b\"dataUrl\":" ++
      "\"data:image/png;base64,*\"\x7d,0,9,[0,0,1,1]]]\x7d"
    let t : FileTree :=
      { entries := [(Location.key ["a"], .file [120] false),
          (Location.key ["edit"], .file (Text.encodeUtf8 text) false),
          (Location.key ["scratch"], .directory)] }
    let host : Host :=
      { now := ⟨2026, 1, 2, 3, 4, 5⟩, suffix := "a", launch := fun _ _ _ => .error .notFound }
    let config : Config := { render := { preferHardwareEncoder := false } }
    let scratch : Scratch := { root := "/scratch" }
    ReportsValid t "/edit" ∧ ¬ ∃ e, Loads t "/edit" e ∧ ∃ plan s,
      (Plan.ofEdit host config e).perform { files := t, scratch } = (.ok plan, s) := by
  intro text t host config scratch
  have hfacts : (run (loadEdit "/edit") { files := t }).1.toOption.map (fun e =>
      (e.missingFiles t.has,
        (Clip.ofEdit e).toOption.map fun clip => (Caption.ofClip clip).toOption.map (·.isEmpty),
        ((Plan.ofEdit host config e).perform { files := t, scratch }).1.isOk)) =
      some ([], some (some true), false) := by
    decide +kernel
  obtain ⟨e, hload, he⟩ := Outcome.exists_of_map hfacts
  obtain ⟨hmissing, he⟩ := Prod.mk.inj he
  obtain ⟨hclip, hfails⟩ := Prod.mk.inj he
  obtain ⟨clip, hclip, hcaptions⟩ := Outcome.exists_of_map hclip
  obtain ⟨captions, hcaptions, -⟩ := Outcome.exists_of_map hcaptions
  refine ⟨reportsValid_iff.mpr ⟨e, hload, ⟨clip, hclip, captions, hcaptions⟩, hmissing⟩, ?_⟩
  rintro ⟨e', hload', plan, s, hplan⟩
  cases hload.symm.trans hload'
  rw [hplan] at hfails
  cases hfails

end Montage.Cli
