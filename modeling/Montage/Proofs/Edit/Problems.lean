import Mathlib.Data.List.Chain
import Montage.Edit.Check
import Montage.Proofs.Binary64.Values

/-! # An edit without problems

An edit has no problems exactly if its numbers are finite and in range, its ranges are not empty,
no two of its ramps overlap, and its inline images have the form of one. -/

namespace Montage

theorem Problem.ensure_eq_nil {kept : Bool} {problem : Problem} :
    ensure kept problem = [] ↔ kept = true := by
  cases kept <;> simp [ensure]

theorem Problem.mem_ensure {kept : Bool} {problem other : Problem} :
    other ∈ ensure kept problem ↔ other = problem ∧ kept = false := by
  cases kept <;> simp [ensure]

namespace Binary64

variable {x low high : Binary64} {l h : Rat}

theorem not_lt_iff_of_isFinite (hx : x.isFinite) (hlow : low.Has l) :
    x.lt low = false ↔ l ≤ x.toRat := by
  rw [Bool.eq_false_iff, ← not_lt]
  exact not_congr ((has_toRat hx).lt_iff hlow)

theorem not_gt_iff_of_isFinite (hx : x.isFinite) (hhigh : high.Has h) :
    high.lt x = false ↔ x.toRat ≤ h := by
  rw [Bool.eq_false_iff, ← not_lt]
  exact not_congr (hhigh.lt_iff (has_toRat hx))

theorem finiteFrom_iff (hlow : low.Has l) : x.finiteFrom low ↔ x.AtLeast l := by
  rw [finiteFrom, Bool.and_eq_true, Bool.not_eq_true', AtLeast]
  exact and_congr_right fun hx => not_lt_iff_of_isFinite hx hlow

theorem inUnit_iff : x.inUnit ↔ x.Within 0 1 := by
  rw [inUnit, Bool.and_eq_true, Within]
  constructor
  · rintro ⟨hzero, hone⟩
    have hx := isFinite_of_le_of_le has_zero.isFinite has_one.isFinite hzero hone
    exact ⟨hx, (has_zero.le_iff (has_toRat hx)).mp hzero, ((has_toRat hx).le_iff has_one).mp hone⟩
  · rintro ⟨hx, hzero, hone⟩
    exact ⟨(has_zero.le_iff (has_toRat hx)).mpr hzero, ((has_toRat hx).le_iff has_one).mpr hone⟩

theorem positive_iff : (x.isFinite && !x.le 0) ↔ x.Positive := by
  rw [Bool.and_eq_true, Bool.not_eq_true', Bool.eq_false_iff, Positive, ← not_le]
  exact and_congr_right fun hx => not_congr ((has_toRat hx).le_iff has_zero)

end Binary64

/-! ## The rules, one by one -/

/-- A place on the canvas and a positive size. -/
structure Placement.Proper (r : Placement) : Prop where
  x : r.x.isFinite
  y : r.y.isFinite
  width : r.width.Positive
  height : r.height.Positive

/-- Each control is in its range. -/
structure Grade.InRange (g : Grade) : Prop where
  brightness : g.brightness.Within (-1) 1
  contrast : g.contrast.Within 0 3
  saturation : g.saturation.Within 0 3
  hue : g.hue.Within (-180) 180
  temperature : g.temperature.Within (-1) 1
  vignette : g.vignette.Within 0 1

/-- No instant belongs to both ramps. -/
def ZoomRamp.Apart (a b : ZoomRamp) : Prop := a.endMs ≤ b.startMs ∨ b.endMs ≤ a.startMs

instance (a b : ZoomRamp) : Decidable (a.Apart b) := inferInstanceAs (Decidable (_ ∨ _))

/-- The text of an image that holds itself: a kind of image and a payload. -/
def IsImageUrl (url : String) : Prop :=
  ∃ kind payload : String, url = "data:image/" ++ kind ++ ";base64," ++ payload

/-- What the rules ask of an edit. -/
structure Edit.Lawful (e : Edit) : Prop where
  trim : e.trimStartMs < e.trimEndMs
  speed : e.speed.Positive
  volume : e.volume.AtLeast 0
  restZoom : e.restZoom.AtLeast 1
  subjectCount : 1 ≤ e.subjectCount ∧ e.subjectCount ≤ 3
  grade : e.grade.InRange
  ramps : ∀ r ∈ e.ramps, r.startMs < r.endMs ∧ r.zoomStart.AtLeast 1 ∧ r.zoomEnd.AtLeast 1
  rampsApart : e.ramps.Pairwise ZoomRamp.Apart
  cutaways : ∀ c ∈ e.cutaways,
    c.startMs < c.endMs ∧ c.opacity.Within 0 1 ∧ ∀ r ∈ c.placement, r.Proper
  stickers : ∀ s ∈ e.stickers,
    s.startMs < s.endMs ∧ s.placement.Proper ∧ ∀ url, s.source = .inline url → IsImageUrl url
  segments : ∀ s ∈ e.segments, s.startMs < s.endMs ∧ ∀ w ∈ s.words, w.startMs ≤ w.endMs
  music : ∀ m ∈ e.music, m.volume.AtLeast 0
  watermark : ∀ w ∈ e.watermark, (w.widthRatio.Positive ∧ w.widthRatio.toRat ≤ 1) ∧
    w.opacity.Within 0 1 ∧ w.marginRatio.Within 0 1

theorem Placement.isProper_iff {r : Placement} : r.isProper ↔ r.Proper := by
  have hwidth := Binary64.positive_iff (x := r.width)
  have hheight := Binary64.positive_iff (x := r.height)
  simp only [Bool.and_eq_true] at hwidth hheight
  simp only [isProper, Bool.and_eq_true]
  constructor
  · rintro ⟨⟨⟨⟨⟨hx, hy⟩, hw⟩, hh⟩, hw'⟩, hh'⟩
    exact ⟨hx, hy, hwidth.mp ⟨hw, hw'⟩, hheight.mp ⟨hh, hh'⟩⟩
  · rintro ⟨hx, hy, hw, hh⟩
    obtain ⟨hw, hw'⟩ := hwidth.mpr hw
    obtain ⟨hh, hh'⟩ := hheight.mpr hh
    exact ⟨⟨⟨⟨⟨hx, hy⟩, hw⟩, hh⟩, hw'⟩, hh'⟩

theorem Grade.outOfRange?_eq_none_iff {g : Grade} : g.outOfRange? = none ↔ g.InRange := by
  have hcontrol {x low high : Binary64} {l h : Rat} (hlow : low.Has l) (hhigh : high.Has h) :
      (!x.isFinite || x.lt low || high.lt x) = false ↔ x.Within l h := by
    simp only [Bool.or_eq_false_iff, Bool.not_eq_false', and_assoc, Binary64.Within]
    exact and_congr_right fun hx => and_congr (Binary64.not_lt_iff_of_isFinite hx hlow)
      (Binary64.not_gt_iff_of_isFinite hx hhigh)
  have hthree : (3 : Binary64).Has 3 := Binary64.has_literal 3 (by decide)
  have hhalf : (180 : Binary64).Has 180 := Binary64.has_literal 180 (by decide)
  simp only [outOfRange?, Option.map_eq_none_iff, controls, List.find?_eq_none, Bool.not_eq_true,
    List.forall_mem_cons, List.not_mem_nil, false_implies, implies_true, and_true,
    hcontrol Binary64.has_one.neg Binary64.has_one, hcontrol Binary64.has_zero hthree,
    hcontrol hhalf.neg hhalf, hcontrol Binary64.has_zero Binary64.has_one]
  exact ⟨fun ⟨h₁, h₂, h₃, h₄, h₅, h₆⟩ => ⟨h₁, h₂, h₃, h₄, h₅, h₆⟩,
    fun ⟨h₁, h₂, h₃, h₄, h₅, h₆⟩ => ⟨h₁, h₂, h₃, h₄, h₅, h₆⟩⟩

theorem Text.contains_iff {mark text : List Char} : Text.contains mark text ↔ mark <:+: text := by
  induction text with
  | nil => simp [Text.contains, splitAt?]
  | cons c text ih =>
      rw [Text.contains, splitAt?, List.infix_cons_iff, ← ih, Text.contains]
      split
      case isTrue h => simp [List.isPrefixOf_iff_prefix.mp h]
      case isFalse h =>
        have hbegun : ¬ mark <+: c :: text := fun h' => h (List.isPrefixOf_iff_prefix.mpr h')
        simp [hbegun]

/-- What begins with a character that a text does not have is not begun in that text. -/
theorem infix_of_infix_append {c : Char} {mark start rest : List Char} (hc : c ∉ start)
    (h : c :: mark <:+: start ++ rest) : c :: mark <:+: rest := by
  induction start with
  | nil => exact h
  | cons d start ih =>
      obtain ⟨hne, hstart⟩ := not_or.mp (List.mem_cons.not.mp hc)
      rcases List.infix_cons_iff.mp h with hbegun | hlater
      · exact absurd (List.cons_prefix_cons.mp hbegun).1 hne
      · exact ih hstart hlater

theorem toList_imageUrl (kind payload : String) :
    ("data:image/" ++ kind ++ ";base64," ++ payload).toList =
      inlineImageStart ++ (kind.toList ++ payloadMark ++ payload.toList) := by
  rw [String.toList_append, String.toList_append, String.toList_append, List.append_assoc,
    List.append_assoc, List.append_assoc]
  rfl

theorem isInlineImage_iff {url : String} : isInlineImage url ↔ IsImageUrl url := by
  rw [isInlineImage, Bool.and_eq_true, List.isPrefixOf_iff_prefix, Text.contains_iff]
  constructor
  · rintro ⟨⟨rest, hrest⟩, hmark⟩
    -- the mark begins with a character that the beginning does not have
    have hhead : payloadMark = ';' :: "base64,".toList := by decide
    rw [← hrest, hhead] at hmark
    obtain ⟨kind, payload, hsplit⟩ := infix_of_infix_append (by decide) hmark
    refine ⟨String.ofList kind, String.ofList payload, String.toList_inj.mp ?_⟩
    rw [toList_imageUrl, String.toList_ofList (l := kind), String.toList_ofList (l := payload),
      ← hrest, ← hsplit, hhead]
  · rintro ⟨kind, payload, rfl⟩
    rw [toList_imageUrl]
    exact ⟨List.prefix_append _ _, inlineImageStart ++ kind.toList, payload.toList,
      by simp only [List.append_assoc]⟩

/-! ## Ramps that do not overlap -/

theorem overlapProblems_eq_nil_iff {ramps : List (ZoomRamp × Nat)} :
    overlapProblems ramps = [] ↔ ramps.IsChain fun a b => a.1.endMs ≤ b.1.startMs := by
  induction ramps with
  | nil => simp [overlapProblems]
  | cons a rest ih =>
      cases rest with
      | nil => simp [overlapProblems]
      | cons b rest =>
          rw [overlapProblems, List.append_eq_nil_iff, ih, List.isChain_cons_cons,
            Problem.ensure_eq_nil, decide_eq_true_eq]

/-- In the order of their beginnings, ramps that are not empty overlap only if two neighbours do. -/
theorem isChain_iff_apart {ramps : List (ZoomRamp × Nat)}
    (hranges : ∀ r ∈ ramps, r.1.startMs < r.1.endMs)
    (hsorted : ramps.Pairwise fun a b => a.1.startMs ≤ b.1.startMs) :
    (ramps.IsChain fun a b => a.1.endMs ≤ b.1.startMs) ↔
      ramps.Pairwise fun a b => a.1.Apart b.1 := by
  constructor
  · intro h
    induction h with
    | nil => exact .nil
    | singleton => exact List.pairwise_singleton _ _
    | @cons_cons a b rest hab hrest ih =>
        obtain ⟨hfirst, hsorted⟩ := List.pairwise_cons.mp hsorted
        obtain ⟨hb, hlater⟩ := List.forall_mem_cons.mp (List.forall_mem_cons.mp hranges).2
        have htail := ih (List.forall_mem_cons.mpr ⟨hb, hlater⟩) hsorted
        refine List.pairwise_cons.mpr ⟨fun c hc => .inl ?_, htail⟩
        rcases List.mem_cons.mp hc with rfl | hc
        · exact hab
        · exact hab.trans ((List.pairwise_cons.mp hsorted).1 c hc)
  · intro h
    refine (List.Pairwise.imp_of_mem ?_ (hsorted.and h)).isChain
    intro a b _ hb ⟨hle, hapart⟩
    have := hranges b hb
    rcases hapart with h | h <;> omega

theorem ZoomRamp.apart_comm {a b : ZoomRamp} : a.Apart b ↔ b.Apart a := or_comm

theorem sortedRamps_apart_iff {ramps : List ZoomRamp} :
    ((ramps.zipIdx.mergeSort fun a b => a.1.startMs ≤ b.1.startMs).Pairwise
      fun a b => a.1.Apart b.1) ↔ ramps.Pairwise ZoomRamp.Apart := by
  rw [(List.mergeSort_perm _ _).pairwise_iff fun h => ZoomRamp.apart_comm.mp h,
    ← List.pairwise_map (f := Prod.fst), List.zipIdx_map_fst]

/-! ## All rules -/

/-- A check of each element at its place finds nothing if it finds nothing at any place. -/
theorem flatMap_zipIdx_eq_nil_iff {α : Type} {xs : List α} {f : Nat → α → List Problem}
    {P : α → Prop} (h : ∀ i x, f i x = [] ↔ P x) :
    xs.zipIdx.flatMap (fun (x, i) => f i x) = [] ↔ ∀ x ∈ xs, P x := by
  rw [List.flatMap_eq_nil_iff]
  constructor
  · intro hall x hx
    obtain ⟨i, hi, rfl⟩ := List.getElem_of_mem hx
    exact (h i _).mp (hall (xs[i], i) (List.mk_mem_zipIdx_iff_getElem?.mpr (by simp [hi])))
  · rintro hall ⟨x, i⟩ hx
    exact (h i x).mpr (hall x (List.mem_of_getElem? (List.mk_mem_zipIdx_iff_getElem?.mp hx)))

theorem rangeProblems_eq_nil_iff {part : Part} {startMs endMs : Nat} :
    rangeProblems part startMs endMs = [] ↔ startMs < endMs := by
  rw [rangeProblems, Problem.ensure_eq_nil, decide_eq_true_eq]

theorem ZoomRamp.problems_eq_nil_iff (index : Nat) (r : ZoomRamp) : r.problems index = [] ↔
    r.startMs < r.endMs ∧ r.zoomStart.AtLeast 1 ∧ r.zoomEnd.AtLeast 1 := by
  simp only [problems, List.append_eq_nil_iff, rangeProblems_eq_nil_iff, Problem.ensure_eq_nil,
    Binary64.finiteFrom_iff Binary64.has_one, and_assoc]

theorem rampProblems_eq_nil_iff {ramps : List ZoomRamp} : rampProblems ramps = [] ↔
    (∀ r ∈ ramps, r.startMs < r.endMs ∧ r.zoomStart.AtLeast 1 ∧ r.zoomEnd.AtLeast 1) ∧
      ramps.Pairwise ZoomRamp.Apart := by
  rw [rampProblems, List.append_eq_nil_iff,
    flatMap_zipIdx_eq_nil_iff ZoomRamp.problems_eq_nil_iff, overlapProblems_eq_nil_iff]
  refine and_congr_right fun hramps => ?_
  rw [isChain_iff_apart, sortedRamps_apart_iff]
  · intro r hr
    exact (hramps _ (List.fst_mem_of_mem_zipIdx (List.mem_mergeSort.mp hr))).1
  · refine (List.pairwise_mergeSort ?_ ?_ _).imp fun h => of_decide_eq_true h
    · intro a b c hab hbc
      exact decide_eq_true ((of_decide_eq_true hab).trans (of_decide_eq_true hbc))
    · intro a b
      simpa using le_total a.1.startMs b.1.startMs

theorem Cutaway.problems_eq_nil_iff (index : Nat) (c : Cutaway) : c.problems index = [] ↔
    c.startMs < c.endMs ∧ c.opacity.Within 0 1 ∧ ∀ r ∈ c.placement, r.Proper := by
  simp only [problems, List.append_eq_nil_iff, rangeProblems_eq_nil_iff, Problem.ensure_eq_nil,
    Binary64.inUnit_iff, and_assoc, Option.all_eq_true, Placement.isProper_iff, Option.mem_def]

theorem Sticker.problems_eq_nil_iff (index : Nat) (s : Sticker) : s.problems index = [] ↔
    s.startMs < s.endMs ∧ s.placement.Proper ∧
      ∀ url, s.source = .inline url → IsImageUrl url := by
  simp only [problems, List.append_eq_nil_iff, rangeProblems_eq_nil_iff, Problem.ensure_eq_nil,
    Placement.isProper_iff, and_assoc]
  refine and_congr_right fun _ => and_congr_right fun _ => ?_
  cases s.source with
  | file path => simp
  | inline url => simp [Problem.ensure_eq_nil, isInlineImage_iff]

theorem Segment.problems_eq_nil_iff (index : Nat) (s : Segment) : s.problems index = [] ↔
    s.startMs < s.endMs ∧ ∀ w ∈ s.words, w.startMs ≤ w.endMs := by
  simp only [problems, List.append_eq_nil_iff, rangeProblems_eq_nil_iff, List.flatMap_eq_nil_iff,
    Problem.ensure_eq_nil, decide_eq_true_eq]

theorem Music.problems_eq_nil_iff (m : Music) : m.problems = [] ↔ m.volume.AtLeast 0 := by
  rw [problems, Problem.ensure_eq_nil, Binary64.finiteFrom_iff Binary64.has_zero]

theorem Watermark.problems_eq_nil_iff (w : Watermark) : w.problems = [] ↔
    (w.widthRatio.Positive ∧ w.widthRatio.toRat ≤ 1) ∧
      w.opacity.Within 0 1 ∧ w.marginRatio.Within 0 1 := by
  have hwidth : (Binary64.lt 0 w.widthRatio && w.widthRatio.le 1) ↔
      w.widthRatio.Positive ∧ w.widthRatio.toRat ≤ 1 := by
    rw [Bool.and_eq_true]
    constructor
    · rintro ⟨hzero, hone⟩
      have hx := Binary64.isFinite_of_le_of_le Binary64.has_zero.isFinite
        Binary64.has_one.isFinite (Binary64.le_of_lt hzero) hone
      exact ⟨⟨hx, (Binary64.has_zero.lt_iff (Binary64.has_toRat hx)).mp hzero⟩,
        ((Binary64.has_toRat hx).le_iff Binary64.has_one).mp hone⟩
    · rintro ⟨⟨hx, hzero⟩, hone⟩
      exact ⟨(Binary64.has_zero.lt_iff (Binary64.has_toRat hx)).mpr hzero,
        ((Binary64.has_toRat hx).le_iff Binary64.has_one).mpr hone⟩
  simp only [problems, List.append_eq_nil_iff, Problem.ensure_eq_nil, hwidth, Binary64.inUnit_iff,
    and_assoc]

namespace Edit

/-- An edit has no problems exactly if it is as the rules ask. -/
theorem problems_eq_nil_iff {e : Edit} : e.problems = [] ↔ e.Lawful := by
  have hcount : (decide (1 ≤ e.subjectCount) && decide (e.subjectCount ≤ Problem.maxSubjects)) ↔
      1 ≤ e.subjectCount ∧ e.subjectCount ≤ 3 := by
    rw [Bool.and_eq_true, decide_eq_true_eq, decide_eq_true_eq, Problem.maxSubjects]
  simp only [problems, List.append_eq_nil_iff, Problem.ensure_eq_nil, decide_eq_true_eq,
    Binary64.positive_iff, Binary64.finiteFrom_iff Binary64.has_zero,
    Binary64.finiteFrom_iff Binary64.has_one, hcount, Option.toList_eq_nil_iff,
    Option.map_eq_none_iff, Grade.outOfRange?_eq_none_iff, rampProblems_eq_nil_iff,
    flatMap_zipIdx_eq_nil_iff Cutaway.problems_eq_nil_iff,
    flatMap_zipIdx_eq_nil_iff Sticker.problems_eq_nil_iff,
    flatMap_zipIdx_eq_nil_iff Segment.problems_eq_nil_iff, List.flatMap_eq_nil_iff,
    Music.problems_eq_nil_iff, Watermark.problems_eq_nil_iff, Option.mem_toList]
  constructor
  · rintro ⟨⟨⟨⟨⟨⟨⟨⟨⟨⟨⟨h₁, h₂⟩, h₃⟩, h₄⟩, h₅⟩, h₆⟩, h₇, h₈⟩, h₉⟩, h₁₀⟩, h₁₁⟩, h₁₂⟩, h₁₃⟩
    exact ⟨h₁, h₂, h₃, h₄, h₅, h₆, h₇, h₈, h₉, h₁₀, h₁₁, h₁₂, h₁₃⟩
  · rintro ⟨h₁, h₂, h₃, h₄, h₅, h₆, h₇, h₈, h₉, h₁₀, h₁₁, h₁₂, h₁₃⟩
    exact ⟨⟨⟨⟨⟨⟨⟨⟨⟨⟨⟨h₁, h₂⟩, h₃⟩, h₄⟩, h₅⟩, h₆⟩, h₇, h₈⟩, h₉⟩, h₁₀⟩, h₁₁⟩, h₁₂⟩, h₁₃⟩

/-! ## Times -/

/-- Each range of an edit is in order, and the source is played forward. -/
structure Timely (e : Edit) : Prop where
  trim : e.trimStartMs < e.trimEndMs
  speed_finite : e.speed.isFinite
  speed_positive : 0 < e.speed
  ramps : ∀ r ∈ e.ramps, r.startMs < r.endMs
  cutaways : ∀ c ∈ e.cutaways, c.startMs < c.endMs
  stickers : ∀ s ∈ e.stickers, s.startMs < s.endMs
  segments : ∀ s ∈ e.segments, s.startMs < s.endMs
  words : ∀ s ∈ e.segments, ∀ w ∈ s.words, w.startMs ≤ w.endMs

/-- An edit that keeps the rules has all its times in order. -/
theorem timely_of_problems {e : Edit} (h : e.problems = []) : e.Timely := by
  obtain ⟨htrim, ⟨hfinite, hpos⟩, -, -, -, -, hramps, -, hcutaways, hstickers, hsegments, -, -⟩ :=
    problems_eq_nil_iff.mp h
  exact {
    trim := htrim
    speed_finite := hfinite
    speed_positive := (Binary64.has_zero.lt_iff (Binary64.has_toRat hfinite)).mpr hpos
    ramps := fun r hr => (hramps r hr).1
    cutaways := fun c hc => (hcutaways c hc).1
    stickers := fun s hs => (hstickers s hs).1
    segments := fun s hs => (hsegments s hs).1
    words := fun s hs => (hsegments s hs).2 }

end Edit

end Montage
