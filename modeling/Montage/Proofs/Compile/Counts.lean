import Montage.Proofs.Compile.Chains
import Montage.Proofs.Decimal.Digits

/-! # Counted pads

The number of pads that a filter takes and gives stands in its text, and the check of a graph never
looks there. In a program the two numbers agree, for every node. -/

namespace Montage

open Montage.Filter (withArgs)

/-! ## What the text of a filter says -/

namespace Filter

/-- The value of an option. Options stand between colons, each with a name and a value. -/
def option? (f : Filter) (name : String) : Option (List Char) := do
  let args ← f.args
  (args.toList.splitOn ':').findSome? fun option =>
    match option.splitOn '=' with
    | [found, value] => if found = name.toList then some value else none
    | _ => none

/-- The options of an argument are found by their names. -/
theorem option?_eq {f : Filter} {args : String} {options : List (List Char × List Char)}
    (hargs : f.args = some args)
    (htext : args.toList = [':'].intercalate (options.map fun o => o.1 ++ '=' :: o.2))
    (hclean : ∀ o ∈ options, (':' ∉ o.1 ∧ '=' ∉ o.1) ∧ ':' ∉ o.2 ∧ '=' ∉ o.2) (hne : options ≠ [])
    (name : String) : f.option? name = options.lookup name.toList := by
  have hsplit : args.toList.splitOn ':' = options.map fun o => o.1 ++ '=' :: o.2 := by
    rw [htext, List.splitOn_intercalate]
    · intro text htext
      obtain ⟨o, ho, rfl⟩ := List.mem_map.mp htext
      obtain ⟨⟨hname, -⟩, hvalue, -⟩ := hclean o ho
      simp [hname, hvalue]
    · simpa using hne
  rw [option?, hargs, Option.bind_eq_bind, Option.bind_some, hsplit]
  clear htext hne hsplit
  induction options with
  | nil => rfl
  | cons o options ih =>
      obtain ⟨⟨⟨-, hname⟩, -, hvalue⟩, hrest⟩ := List.forall_mem_cons.mp hclean
      have hparts : (o.1 ++ '=' :: o.2).splitOn '=' = [o.1, o.2] := by
        rw [List.splitOn_append_cons_self_of_not_mem hname, List.splitOn_eq_singleton hvalue]
      rw [List.map_cons, List.findSome?_cons, hparts, ih hrest, List.lookup_cons]
      by_cases heq : o.1 = name.toList
      · simp [heq]
      · simp [heq, beq_false_of_ne (Ne.symm heq)]

/-- How many streams a filter takes and how many it gives, if its text says so: copies of one
stream, one stream out of as many as the option tells, one out of two, one out of none, or one out
of one. -/
def streams? (f : Filter) : Option (Nat × Nat) :=
  if f.name = "split" ∨ f.name = "asplit" then do
    let args ← f.args
    return (1, ← Decimal.natOfText? args.toList)
  else if f.name = "vstack" ∨ f.name = "amix" then do
    let inputs ← f.option? "inputs"
    return (← Decimal.natOfText? inputs, 1)
  else if f.name = "overlay" ∨ f.name = "sidechaincompress" then some (2, 1)
  else if f.name = "anullsrc" then some (0, 1)
  else some (1, 1)

@[simp] theorem name_withArgs (name args : String) : (withArgs name args).name = name := rfl

/-- The filters with a number of streams of their own. -/
def manifold : List String :=
  ["split", "asplit", "vstack", "amix", "overlay", "sidechaincompress", "anullsrc"]

theorem streams?_plain {f : Filter} (h : f.name ∉ manifold) : f.streams? = some (1, 1) := by
  simp only [manifold, List.mem_cons, List.not_mem_nil, not_or] at h
  simp [streams?, h]

theorem streams?_split {name : String} (h : name = "split" ∨ name = "asplit") (count : Nat) :
    (withArgs name (toString count)).streams? = some (1, count) := by
  rw [streams?, name_withArgs, if_pos h]
  simp only [withArgs, Option.bind_eq_bind, Option.bind_some, Decimal.natOfText?_toString]
  rfl

theorem streams?_joined {name args : String} (h : name = "vstack" ∨ name = "amix") {count : Nat}
    (rest : List (List Char × List Char))
    (hargs : args.toList = [':'].intercalate
      ((("inputs".toList, (toString count).toList) :: rest).map fun o => o.1 ++ '=' :: o.2))
    (hclean : ∀ o ∈ rest, (':' ∉ o.1 ∧ '=' ∉ o.1) ∧ ':' ∉ o.2 ∧ '=' ∉ o.2) :
    (withArgs name args).streams? = some (count, 1) := by
  have hname : ¬ (name = "split" ∨ name = "asplit") := by
    rcases h with rfl | rfl <;> decide
  -- the digits of the count have no separator in them
  have hoption : (withArgs name args).option? "inputs" = some (toString count).toList := by
    have hfirst : (':' ∉ "inputs".toList ∧ '=' ∉ "inputs".toList) ∧
        ':' ∉ (toString count).toList ∧ '=' ∉ (toString count).toList :=
      ⟨by decide, Decimal.not_mem_toString (by decide) count,
        Decimal.not_mem_toString (by decide) count⟩
    rw [option?_eq rfl hargs (List.forall_mem_cons.mpr ⟨hfirst, hclean⟩) (List.cons_ne_nil _ _),
      List.lookup_cons_self]
  rw [streams?, name_withArgs, if_neg hname, if_pos h, hoption]
  simp only [Option.bind_eq_bind, Option.bind_some, Decimal.natOfText?_toString]
  rfl

end Filter

/-! ## Counted chains -/

/-- The first filter takes and gives as many streams as there are pads, and what follows it works on
one stream. -/
def Filter.Counted (filters : List Filter) (inputs outputs : Nat) : Prop :=
  ∃ first rest, filters = first :: rest ∧ first.streams? = some (inputs, outputs) ∧
    ∀ f ∈ rest, f.streams? = some (1, 1)

namespace Filter.Counted

theorem single {f : Filter} {inputs outputs : Nat} (h : f.streams? = some (inputs, outputs)) :
    Counted [f] inputs outputs :=
  ⟨f, [], rfl, h, by simp⟩

theorem plain {filters : List Filter} (hne : filters ≠ [])
    (h : ∀ f ∈ filters, f.name ∉ manifold) : Counted filters 1 1 := by
  obtain ⟨first, rest, rfl⟩ := List.exists_cons_of_ne_nil hne
  obtain ⟨hfirst, hrest⟩ := List.forall_mem_cons.mp h
  exact ⟨first, rest, rfl, streams?_plain hfirst, fun f hf => streams?_plain (hrest f hf)⟩

end Filter.Counted

/-- A node whose chain says how many pads it has. -/
def Node.Counted (n : Node) : Prop := Filter.Counted n.filters n.inputs.length n.outputs.length

open Filter.Counted (single plain)

/-- Filters with one stream in and one out, if they are there. -/
theorem Filter.name_optional {c : Bool} {f : Filter} (h : f.name ∉ manifold) :
    ∀ f' ∈ (if c then [f] else []), f'.name ∉ manifold := by
  cases c <;> simp [h]

theorem Video.name_gradeFilters {g : Grade} {filters : List Filter}
    (h : gradeFilters? g = some filters) : ∀ f ∈ filters, f.name ∉ Filter.manifold := by
  rw [gradeFilters?, Option.ite_none_left_eq_some] at h
  obtain ⟨-, h⟩ := h
  obtain rfl := Option.some.inj h
  simp only [List.forall_mem_append]
  refine ⟨⟨⟨?_, ?_⟩, ?_⟩, ?_⟩ <;> exact Filter.name_optional (by simp [Filter.manifold])

theorem Video.name_cutawayFilters (layer : ClipCutaway) (r : PixelRect) :
    ∀ f ∈ cutawayFilters layer r, f.name ∉ Filter.manifold := by
  rw [cutawayFilters, List.forall_mem_append]
  refine ⟨by simp [Filter.manifold], ?_⟩
  split <;> simp [Filter.manifold]

theorem Video.Chain.counted {clip : Clip} {assets : Assets} {filters : List Filter}
    {inputs outputs : Nat} (h : Chain clip assets filters inputs outputs) :
    Filter.Counted filters inputs outputs := by
  cases h with
  | split => exact single (Filter.streams?_split (.inl rfl) _)
  | stack =>
      refine single (Filter.streams?_joined (.inl rfl) [] ?_ (by simp))
      exact String.toList_append.trans (List.append_nil _).symm
  | overCutaway | overSticker | overMark => exact single rfl
  | grade hgrade => exact plain (gradeFilters?_ne_nil hgrade) (name_gradeFilters hgrade)
  | cutaway _ r => exact plain (by simp [cutawayFilters]) (name_cutawayFilters _ r)
  | crop | tempo | motion | sticker | subtitles | mark =>
      exact plain (by simp [cropScale, Zoom.filters])
        (by simp [cropScale, Zoom.filters, subtitleFilter, Filter.manifold])

theorem Audio.name_musicFilters (clip : Clip) (music : Music) :
    ∀ f ∈ musicFilters clip music, f.name ∉ Filter.manifold := by
  simp only [musicFilters, List.forall_mem_append]
  refine ⟨⟨⟨by simp [Filter.manifold], ?_⟩, ?_⟩, by simp [sampleFormat, Filter.manifold]⟩ <;>
    exact Filter.name_optional (by simp [Filter.manifold])

theorem Audio.name_sourceFilters (volume : Binary64) (factors : List Binary64) :
    ∀ f ∈ [withArgs "volume" (Decimal.fixed 3 volume)] ++
      factors.map (fun f => withArgs "atempo" (Decimal.fixed 6 f)) ++ [sampleFormat],
        f.name ∉ Filter.manifold := by
  simp only [List.forall_mem_append, List.forall_mem_map, List.forall_mem_singleton]
  exact ⟨⟨by simp [Filter.manifold], fun _ _ => by simp [Filter.manifold]⟩,
    by simp [sampleFormat, Filter.manifold]⟩

theorem Audio.Chain.counted {clip : Clip} {filters : List Filter} {inputs outputs : Nat}
    (h : Chain clip filters inputs outputs) : Filter.Counted filters inputs outputs := by
  cases h with
  | copies => exact single (Filter.streams?_split (.inr rfl) _)
  | flat => exact single (by decide +kernel)
  | mix count =>
      refine single (Filter.streams?_joined (.inr rfl)
        [("duration".toList, "first".toList), ("normalize".toList, "0".toList)] ?_ (by decide))
      exact String.toList_append.trans (congrArg (· ++ _) String.toList_append)
  | duck => exact single rfl
  | silence => exact ⟨_, _, rfl, rfl, by simp [Filter.streams?_plain, Filter.manifold]⟩
  | music => exact plain (by simp [musicFilters]) (name_musicFilters clip _)
  | source => exact plain (by simp) (name_sourceFilters _ _)
  | enhance | delay => exact plain (by simp) (by simp [sampleFormat, Filter.manifold])

/-- In the program of a clip, each node reads and declares as many pads as its filters say. -/
theorem Program.counted_of_compile {clip : Clip} {probe : Probe} {subjects : List Region}
    {assets : Assets} {p : Program} (h : compile clip probe subjects assets = .ok p) :
    ∀ n ∈ p.graph.nodes, n.Counted := by
  intro n hn
  rcases formed_of_compile h n hn with hpicture | hsound
  · exact hpicture.counted
  · exact hsound.counted

/-- Two speakers under a logo, with music that gives way and a sound at the caption. -/
theorem Program.counted_of_compile_debate :
    let e : Edit :=
      { sourcePath := "/media/debate.mp4", trimStartMs := 0, trimEndMs := 8000
        canvas := .portrait, subjectFraming := true, subjectCount := 2
        segments := [{ text := "one", startMs := 0, endMs := 2000 }]
        music := some { path := "/media/music.mp3" }, ducking := true, soundEffects := true
        watermark := some { path := "/media/logo.png" } }
    let probe : Probe := ⟨1920, 1080, some 10000, true, true⟩
    let subjects : List Region := [⟨480, 540, 0.9, .vision⟩, ⟨1440, 540, 0.8, .vision⟩]
    let assets : Assets :=
      { subtitlePath := some "/tmp/c.ass", soundEffectPath := some "/tmp/pop.wav" }
    ∃ clip p, Clip.ofEdit e = .ok clip ∧ compile clip probe subjects assets = .ok p ∧
      p.graph.nodes.map (fun n => (n.inputs.length, n.outputs.length)) =
        [(1, 2), (1, 1), (1, 1), (2, 1), (1, 1), (1, 1), (2, 1), -- the picture
          (1, 1), (1, 1), (1, 2), (2, 1), (2, 1), (1, 1), (2, 1)] ∧
      ∀ n ∈ p.graph.nodes, n.Counted := by
  intro e probe subjects assets
  have hrun : (do
      let p ← compile (← Clip.ofEdit e) probe subjects assets
      return p.graph.nodes.map fun n => (n.inputs.length, n.outputs.length) :
        Outcome (List (Nat × Nat))) =
      .ok [(1, 2), (1, 1), (1, 1), (2, 1), (1, 1), (1, 1), (2, 1),
        (1, 1), (1, 1), (1, 2), (2, 1), (2, 1), (1, 1), (2, 1)] := by
    decide +kernel
  obtain ⟨clip, hclip, hrun⟩ := bind_eq_ok_iff.mp hrun
  obtain ⟨p, hp, hcounts⟩ := bind_eq_ok_iff.mp hrun
  exact ⟨clip, p, hclip, hp, Except.ok.inj hcounts, counted_of_compile hp⟩

end Montage
