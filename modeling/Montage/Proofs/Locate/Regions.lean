import Montage.Edit.Subject
import Montage.Locate.Chain
import Montage.Proofs.Binary64.Bounds
import Montage.Proofs.Lists

/-! # The form of every answer

Sorting is stable for the total order of the centres. An answer with regions is cut and filled up to
the count that was asked for and stays in order; the evenly spaced centres are in order as well. -/

namespace Montage.Region

/-- Regions from left to right. -/
def Ordered (regions : List Region) : Prop :=
  regions.Pairwise fun a b => a.centerX.totalLe b.centerX

/-- `regions` are those of `answer` from left to right, those with the same centre in the order that
they were given in. -/
structure Arranged (answer regions : List Region) : Prop where
  perm : regions.Perm answer
  ordered : Ordered regions
  stable : ∀ x, (regions.filter fun r => r.centerX = x) = answer.filter fun r => r.centerX = x

theorem arranged_sorted (answer : List Region) : Arranged answer (sorted answer) := by
  have htrans (a b c : Region) : a.centerX.totalLe b.centerX → b.centerX.totalLe c.centerX →
      a.centerX.totalLe c.centerX := Binary64.totalLe_trans
  have htotal (a b : Region) : (a.centerX.totalLe b.centerX || b.centerX.totalLe a.centerX) := by
    simpa using Binary64.totalLe_total a.centerX b.centerX
  refine ⟨List.mergeSort_perm _ _, List.pairwise_mergeSort htrans htotal answer, fun x => ?_⟩
  apply filter_mergeSort htrans htotal
  intro a b ha hb
  rw [of_decide_eq_true ha, of_decide_eq_true hb]
  exact Binary64.totalLe_refl x

/-! ## Cut and filled up -/

/-- `found` are the first `count` regions of `answer` from left to right; where `answer` has fewer,
its last one is repeated. -/
def FilledFrom (count : Nat) (answer found : List Region) : Prop :=
  ∃ arranged last, Arranged answer arranged ∧ arranged.getLast? = some last ∧
    found = arranged.take count ++ List.replicate (count - arranged.length) last

theorem normalized?_nil (count : Nat) : normalized? [] count = none := rfl

theorem exists_normalized? {answer : List Region} (h : answer ≠ []) {count : Nat}
    (hcount : 1 ≤ count) : ∃ found, normalized? answer count = some found ∧
      FilledFrom count answer found := by
  have harranged := arranged_sorted answer
  have hlength := harranged.perm.length_eq
  have hpos : 0 < answer.length := List.length_pos_iff.mpr h
  obtain ⟨last, hlast⟩ : ∃ last, (sorted answer).getLast? = some last := by
    have hne : sorted answer ≠ [] := List.ne_nil_of_length_pos (by omega)
    exact ⟨_, List.getLast?_eq_some_getLast hne⟩
  refine ⟨_, ?_, sorted answer, last, harranged, hlast, rfl⟩
  rw [normalized?, if_neg h, Nat.max_eq_left hcount, Option.some.injEq, padded]
  by_cases hfewer : (sorted answer).length ≤ count
  · rw [List.take_of_length_le hfewer, hlast]
  · have hcut : ((sorted answer).take count).length = count := by
      rw [List.length_take]
      omega
    rw [hcut, Nat.sub_self, Nat.sub_eq_zero_of_le (by omega)]
    simp only [List.replicate_zero, List.append_nil]
    split <;> rfl

namespace FilledFrom

variable {count : Nat} {answer found : List Region}

theorem length (h : FilledFrom count answer found) : found.length = count := by
  obtain ⟨arranged, last, -, -, rfl⟩ := h
  rw [List.length_append, List.length_take, List.length_replicate]
  omega

theorem ordered (h : FilledFrom count answer found) : Ordered found := by
  obtain ⟨arranged, last, ⟨-, hordered, -⟩, hlast, rfl⟩ := h
  refine List.pairwise_append.mpr ⟨hordered.take, ?_, ?_⟩
  · exact List.pairwise_replicate.mpr (.inr (Binary64.totalLe_refl _))
  · intro a ha b hb
    obtain rfl : b = last := List.eq_of_mem_replicate hb
    obtain ⟨before, rfl⟩ := List.getLast?_eq_some_iff.mp hlast
    rcases List.mem_append.mp (List.mem_of_mem_take ha) with ha | ha
    · exact (List.pairwise_append.mp hordered).2.2 a ha b (List.mem_singleton_self b)
    · rw [List.mem_singleton.mp ha]
      exact Binary64.totalLe_refl _

end FilledFrom

/-! ## Evenly spaced -/

theorem length_evenlySpaced (width height count : Nat) :
    (evenlySpaced width height count).length = max count 1 := by
  simp [evenlySpaced]

theorem ordered_evenlySpaced (width height count : Nat) :
    Ordered (evenlySpaced width height count) := by
  refine List.pairwise_map.mpr (List.pairwise_lt_range.imp ?_)
  intro i j hij
  have hwidth := Binary64.unsigned_ofNat width
  have hi : 0 < Binary64.ofNat (2 * i + 1) := Binary64.pos_ofNat (by omega)
  have hj : 0 < Binary64.ofNat (2 * j + 1) := Binary64.pos_ofNat (by omega)
  exact Binary64.div_totalLe
    (Binary64.scaled_mul hwidth (Binary64.unsigned_ofNat _) hi)
    (Binary64.scaled_mul hwidth (Binary64.unsigned_ofNat _) hj)
    (Binary64.unsigned_ofNat _) (Binary64.pos_ofNat (by omega))
    (Binary64.mul_totalLe hwidth (Binary64.unsigned_ofNat _) (Binary64.unsigned_ofNat _) hi
      (Binary64.ofNat_mono (by omega)))

/-- Centres that are spread over a picture. Its width is cut into as many equal parts as there are
centres, and a centre is in the middle of its part, but for a `2 ^ 51`-th of the width; all of them
are at half the height. -/
structure Spread (width height count : Nat) (regions : List Region) : Prop where
  length : regions.length = count
  middle : ∀ (i : Nat) (r : Region), regions[i]? = some r → ∃ x, r.centerX.Has x ∧
    |x - (width : Rat) * (2 * i + 1) / (2 * count)| ≤ width / 2 ^ 51
  half : ∀ r ∈ regions, r.centerY.Has (height / 2)
  guessed : ∀ r ∈ regions, r.confidence = 0 ∧ r.method = .fallback

theorem spread_evenlySpaced {width height count : Nat} (hwidth : width ≤ Binary64.top32)
    (hheight : height ≤ Binary64.top32) (hcount : 1 ≤ count) (hcount_le : count ≤ 2 ^ 52) :
    Spread width height count (evenlySpaced width height count) where
  length := (length_evenlySpaced width height count).trans (Nat.max_eq_left hcount)
  middle := by
    intro i r hr
    simp only [evenlySpaced, Nat.max_eq_left hcount, List.getElem?_map, Option.map_eq_some_iff,
      List.getElem?_eq_some_iff, List.getElem_range, List.length_range] at hr
    obtain ⟨_, ⟨hi, rfl⟩, rfl⟩ := hr
    have hpart : 2 * i + 1 < 2 * count := by omega
    have hwhole : 2 * count ≤ Binary64.mantBound := by
      norm_num
      omega
    have hnear := Binary64.abs_rounded_fraction_sub_le hpart hwhole width
    push_cast at hnear
    exact ⟨_, (Binary64.has_fraction hpart hwhole (Binary64.le_mantBound_of_le_top32 hwidth)).1,
      by push_cast; exact hnear⟩
  half := by
    intro r hr
    obtain ⟨i, -, rfl⟩ := List.mem_map.mp hr
    exact Binary64.has_half (Binary64.le_mantBound_of_le_top32 hheight)
  guessed := by
    intro r hr
    obtain ⟨i, -, rfl⟩ := List.mem_map.mp hr
    exact ⟨rfl, rfl⟩

/-! ## From left to right -/

theorem leftToRight_of_ordered {regions : List Region} (h : Ordered regions)
    (hnumber : ∀ r ∈ regions, r.centerX.isNaN = false) : leftToRight regions = true := by
  induction regions with
  | nil => rfl
  | cons a rest ih =>
      obtain ⟨hfirst, hrest⟩ := List.pairwise_cons.mp h
      cases rest with
      | nil => rfl
      | cons b rest =>
          have hle : a.centerX ≤ b.centerX :=
            Binary64.le_of_totalLe (hfirst b (by simp)) (hnumber a (by simp)) (hnumber b (by simp))
          have htail := ih hrest fun r hr => hnumber r (List.mem_cons_of_mem a hr)
          rw [leftToRight, Bool.and_eq_true]
          exact ⟨hle, htail⟩

end Montage.Region

/-! ## The first answer

The tiers before the one that answers have nothing to say, and those behind it are not asked. The
result is that answer in its form, or the evenly spaced centres; there are as many regions
as were asked for, in order. -/

namespace Montage

/-- A tier that can be asked and has regions to give. -/
def Tier.Answers (t : Tier) (frame : Frame) (count : Nat) : Prop :=
  t.isUsable frame ∧ ∃ answer, t.locate frame count = some answer ∧ answer ≠ []

namespace Locator

variable {frame : Frame} {count : Nat} {t : Tier} {tiers rest : List Tier}

/-! ### One tier -/

theorem answer?_eq_none (h : ¬ t.Answers frame count) (husable : t.isUsable frame) :
    t.answer? frame count = none := by
  rw [Tier.answer?]
  cases hlocate : t.locate frame count with
  | none => rfl
  | some answer =>
      by_cases hne : answer = []
      · rw [hne]
        exact Region.normalized?_nil count
      · exact absurd ⟨husable, answer, hlocate, hne⟩ h

theorem consult_of_silent (h : ¬ t.Answers frame count) :
    consult frame count (t :: rest) =
      (t.isUsable frame :: (consult frame count rest).1, (consult frame count rest).2) := by
  by_cases husable : t.isUsable frame
  · rw [consult, if_pos husable, answer?_eq_none h husable, husable]
  · rw [consult, if_neg husable, Bool.eq_false_iff.mpr husable]

theorem consult_of_answer {answer : List Region} (husable : t.isUsable frame)
    (hlocate : t.locate frame count = some answer) (hne : answer ≠ []) (hcount : 1 ≤ count) :
    ∃ found, Region.FilledFrom count answer found ∧
      consult frame count (t :: rest) = (true :: rest.map fun _ => false, some found) := by
  obtain ⟨found, hfound, hfilled⟩ := Region.exists_normalized? hne hcount
  have hanswer : t.answer? frame count = some found := by
    rw [Tier.answer?, hlocate]
    exact hfound
  refine ⟨found, hfilled, ?_⟩
  rw [consult, if_pos husable, hanswer]

/-! ### All tiers -/

/-- Which tiers are asked, and what comes of it. -/
inductive Consulted (frame : Frame) (count : Nat) (tiers : List Tier) :
    List Bool → List Region → Prop
  | answered {before after : List Tier} {t : Tier} {answer found : List Region}
      (split : tiers = before ++ t :: after)
      (silent : ∀ earlier ∈ before, ¬ earlier.Answers frame count)
      (usable : t.isUsable frame)
      (given : t.locate frame count = some answer)
      (nonempty : answer ≠ [])
      (filled : Region.FilledFrom count answer found) :
      Consulted frame count tiers
        (before.map (·.isUsable frame) ++ true :: after.map fun _ => false) found
  | unanswered (silent : ∀ t ∈ tiers, ¬ t.Answers frame count) :
      Consulted frame count tiers (tiers.map (·.isUsable frame))
        (Region.evenlySpaced frame.width frame.height count)

theorem Consulted.cons_of_silent {asked : List Bool} {found : List Region}
    (h : ¬ t.Answers frame count) (hrest : Consulted frame count rest asked found) :
    Consulted frame count (t :: rest) (t.isUsable frame :: asked) found := by
  cases hrest with
  | @answered before _ _ _ _ split silent usable given nonempty filled =>
      have hsilent : ∀ earlier ∈ t :: before, ¬ earlier.Answers frame count :=
        List.forall_mem_cons.mpr ⟨h, silent⟩
      exact .answered (congrArg (t :: ·) split) hsilent usable given nonempty filled
  | unanswered silent => exact .unanswered (List.forall_mem_cons.mpr ⟨h, silent⟩)

theorem Consulted.form {asked : List Bool} {found : List Region}
    (h : Consulted frame count tiers asked found) (hcount : 1 ≤ count) :
    found.length = count ∧ Region.Ordered found := by
  cases h with
  | answered split silent usable given nonempty filled => exact ⟨filled.length, filled.ordered⟩
  | unanswered silent =>
      have hlength := Region.length_evenlySpaced frame.width frame.height count
      exact ⟨hlength.trans (Nat.max_eq_left hcount), Region.ordered_evenlySpaced _ _ _⟩

theorem consulted (frame : Frame) (hcount : 1 ≤ count) (tiers : List Tier) :
    Consulted frame count tiers (consult frame count tiers).1
      ((consult frame count tiers).2.getD
        (Region.evenlySpaced frame.width frame.height count)) := by
  induction tiers with
  | nil => exact .unanswered (by simp)
  | cons t rest ih =>
      by_cases h : t.Answers frame count
      · obtain ⟨husable, answer, hlocate, hne⟩ := h
        obtain ⟨found, hfilled, hconsult⟩ := consult_of_answer husable hlocate hne hcount
        rw [hconsult]
        exact .answered (List.nil_append _).symm (List.forall_mem_nil _) husable hlocate hne hfilled
      · rw [consult_of_silent h]
        exact ih.cons_of_silent h

/-! ### The result -/

theorem consulted_locate (tiers : List Tier) (frame : Frame) (count : Nat) :
    Consulted frame (max count 1) tiers (consult frame (max count 1) tiers).1
      (locate tiers frame count) :=
  consulted frame (Nat.le_max_right count 1) tiers

theorem length_locate (tiers : List Tier) (frame : Frame) (count : Nat) :
    (locate tiers frame count).length = max count 1 :=
  ((consulted_locate tiers frame count).form (Nat.le_max_right count 1)).1

theorem Consulted.spread {asked : List Bool} {found : List Region}
    (h : Consulted frame count tiers asked found) (hcount : 1 ≤ count) (hcount_le : count ≤ 2 ^ 52)
    (hwidth : frame.width ≤ Binary64.top32) (hheight : frame.height ≤ Binary64.top32)
    (hsilent : ∀ t ∈ tiers, ¬ t.Answers frame count) :
    Region.Spread frame.width frame.height count found := by
  cases h with
  | @answered before after t answer _ split _ usable given nonempty _ =>
      exact absurd ⟨usable, answer, given, nonempty⟩ (hsilent t (by simp [split]))
  | unanswered _ => exact Region.spread_evenlySpaced hwidth hheight hcount hcount_le

/-- What a caller relies on: the first answer decides, and there are `count` regions in order. When
no tier answers they are spread over the picture, whose sides can be counted with 32 bits. -/
structure Located (frame : Frame) (count : Nat) (tiers : List Tier) (asked : List Bool)
    (found : List Region) : Prop where
  consulted : Consulted frame count tiers asked found
  spread : (∀ t ∈ tiers, ¬ t.Answers frame count) → frame.width ≤ Binary64.top32 →
    frame.height ≤ Binary64.top32 → count ≤ 2 ^ 52 →
    Region.Spread frame.width frame.height count found
  length : found.length = count
  ordered : Region.Ordered found
  leftToRight : (∀ r ∈ found, r.centerX.isNaN = false) → Region.leftToRight found = true

theorem located_locate (tiers : List Tier) (frame : Frame) (count : Nat) :
    Located frame (max count 1) tiers (consult frame (max count 1) tiers).1
      (locate tiers frame count) := by
  have hconsulted := consulted_locate tiers frame count
  have hcount : 1 ≤ max count 1 := Nat.le_max_right count 1
  obtain ⟨hlength, hordered⟩ := hconsulted.form hcount
  exact {
    consulted := hconsulted
    spread := fun hsilent hwidth hheight hcount_le =>
      hconsulted.spread hcount hcount_le hwidth hheight hsilent
    length := hlength
    ordered := hordered
    leftToRight := Region.leftToRight_of_ordered hordered }

end Locator

end Montage
