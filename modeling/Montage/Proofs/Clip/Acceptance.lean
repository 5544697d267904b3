import Montage.Proofs.Caption.Timing
import Montage.Proofs.Caption.Words
import Montage.Proofs.Clip.Guarded

/-! # Which edits are accepted

An edit has a clip exactly if it is as the rules ask and its clip lasts; any other edit has a
fault. In both cases no step of the translation is left out, and neither is one of the captions of
the clip. -/

namespace Montage

/-! ## How long a clip is -/

namespace Binary64

theorem half_has : (0.5 : Binary64).Has (1 / 2) := ⟨by decide +kernel, by decide +kernel⟩

/-- A number without sign is rounded to zero exactly if it is below a half. -/
theorem toNat64_round_ne_zero_iff {x : Binary64} (hx : x.Unsigned) :
    x.round.toNat64 ≠ 0 ↔ 0.5 ≤ x := by
  have hhalf : (0.5 : Binary64).Unsigned := ⟨by decide +kernel, by decide +kernel⟩
  constructor
  · intro h
    by_contra hlt
    have hbelow := Binary64.lt_of_not_le hhalf.number hx.number hlt
    have hfinite := hx.isFinite_of_le (Binary64.le_of_lt hbelow) half_has.isFinite
    have hvalue := ((has_toRat hfinite).lt_iff half_has).mp hbelow
    have hnearest : Rounding.nearestAway x.toRat = 0 := by
      have hnonneg := hx.toRat_nonneg
      rw [Rounding.nearestAway_of_nonneg hnonneg]
      have hlow : 0 ≤ (x.toRat + 1 / 2).floor := Rat.le_floor_iff.mpr (by push_cast; linarith)
      have hhigh : ((x.toRat + 1 / 2).floor : Rat) < 1 := by
        have := Rat.floor_le (x.toRat + 1 / 2)
        linarith
      have hhigh' : (x.toRat + 1 / 2).floor < 1 := by exact_mod_cast hhigh
      omega
    rw [round_eq_ofRat hx hfinite, hnearest] at h
    exact h (by decide +kernel)
  · intro h
    have hone : (0.5 : Binary64).round.toNat64 = 1 := by decide +kernel
    have hmono : (0.5 : Binary64).round.toNat64 ≤ x.round.toNat64 :=
      toNatUpTo_mono _ (unsigned_round hhalf) (unsigned_round hx) (round_mono hhalf hx h)
    omega

/-- A quotient is not below a half exactly if the exact one is not. -/
theorem half_le_div_iff {n : Nat} {x : Binary64} (hx : x.Positive) :
    0.5 ≤ ofNat n / x ↔ 1 / 2 ≤ rounded n / x.toRat := by
  obtain ⟨hfinite, hpos⟩ := hx
  have hx := has_toRat hfinite
  have hn : (0 : Rat) ≤ n := Nat.cast_nonneg n
  have hpositive : 0 < x := (has_zero.lt_iff hx).mpr hpos
  by_cases hlarge : |rounded (n : Rat)| < overflow
  · have hvalue : (ofNat n).Has (rounded n) := has_ofRat hlarge
    rw [div_eq_ofRat (unsigned_ofNat n) hvalue.isFinite hfinite hpositive, hvalue.toRat_eq]
    constructor
    · intro h
      by_contra hlt
      have hbelow := hvalue.rounded_div_lt_half hx hpos (not_le.mp hlt)
      have hnonneg := rounded_nonneg (div_nonneg (rounded_nonneg hn) hpos.le)
      have hsmall : |rounded (rounded n / x.toRat)| < overflow := by
        rw [abs_of_nonneg hnonneg]
        exact hbelow.trans (by decide +kernel)
      exact absurd ((half_has.le_iff (has_ofRat hsmall)).mp h) (not_le.mpr hbelow)
    · intro h
      have hmono := ofRat_mono (by norm_num) h
      rwa [show ofRat (1 / 2) = 0.5 by decide +kernel] at hmono
  · -- what is too great for a number is so for the quotient by any number
    have hbound : overflow ≤ rounded n := by
      rwa [not_lt, abs_of_nonneg (rounded_nonneg hn)] at hlarge
    have hn : (0 : Rat) < n := by
      refine hn.lt_of_ne fun hzero => hlarge ?_
      rw [← hzero, rounded_zero, abs_zero]
      exact zpow_pos (by norm_num) _
    have hinfinite : ofNat n = infinite false :=
      (unsigned_ofNat n).eq_infinite fun hfin => hlarge ((isFinite_ofRat_iff hn).mp hfin)
    rw [hinfinite, infinite_div hfinite hpositive]
    have hless : x.toRat < overflow := (le_abs_self _).trans_lt hx.abs_lt_overflow
    have hquotient : 1 / 2 ≤ rounded n / x.toRat := by
      rw [le_div_iff₀ hpos]
      linarith
    exact ⟨fun _ => hquotient, fun _ => by decide +kernel⟩

end Binary64

namespace Edit

/-- The length of the clip before it is rounded: the length of the trimmed range, as a number, over
the speed. -/
def exactDuration (e : Edit) : Rat :=
  Binary64.rounded (e.trimEndMs - e.trimStartMs : Nat) / e.speed.toRat

/-- An edit that is as the rules ask and whose clip lasts. -/
structure Acceptable (e : Edit) : Prop extends e.Lawful where
  lasts : 1 ≤ Rounding.nearestAway e.exactDuration

/-- The clip of an edit lasts exactly if its length is rounded to a millisecond or more. -/
theorem duration_ne_zero_iff {e : Edit} (ordered : e.trimStartMs ≤ e.trimEndMs)
    (hspeed : e.speed.Positive) :
    (e.timeline ordered).duration ≠ 0 ↔ 1 ≤ Rounding.nearestAway e.exactDuration := by
  have hpositive : 0 < e.speed :=
    (Binary64.has_zero.lt_iff (Binary64.has_toRat hspeed.1)).mpr hspeed.2
  have hnonneg : 0 ≤ e.exactDuration :=
    div_nonneg (Binary64.rounded_nonneg (Nat.cast_nonneg _)) hspeed.2.le
  have helapsed : clampNat e.trimStartMs e.trimEndMs e.trimEndMs = e.trimEndMs := by
    simp only [clampNat]
    omega
  have hduration : (e.timeline ordered).duration =
      (Binary64.ofNat (e.trimEndMs - e.trimStartMs) / e.speed).round.toNat64 := by
    conv_rhs => rw [← helapsed]
    rfl
  rw [hduration, Binary64.toNat64_round_ne_zero_iff
    (Binary64.unsigned_div (Binary64.unsigned_ofNat _) hspeed.1 hpositive),
    Binary64.half_le_div_iff hspeed, ← exactDuration, Rounding.nearestAway_of_nonneg hnonneg,
    Rat.le_floor_iff]
  constructor <;> intro h <;> push_cast at h ⊢ <;> linarith

end Edit

namespace Clip

theorem exists_ofEdit_iff {e : Edit} : (∃ clip, ofEdit e = .ok clip) ↔ e.Acceptable := by
  constructor
  · rintro ⟨clip, h⟩
    obtain ⟨hproblems, ordered, -, -, hduration, -⟩ := ofEdit_eq_ok h
    have hlawful := Edit.problems_eq_nil_iff.mp hproblems
    exact ⟨hlawful, (Edit.duration_ne_zero_iff ordered hlawful.speed).mp hduration⟩
  · intro h
    obtain ⟨clip, hclip, -⟩ := exists_ofEdit h.toLawful
      ((Edit.duration_ne_zero_iff h.trim.le h.speed).mpr h.lasts)
    exact ⟨clip, hclip⟩

/-- What is not a clip is a fault: nothing breaks. -/
theorem ofEdit_cases (e : Edit) :
    (∃ clip, ofEdit e = .ok clip) ∨ ∃ message, ofEdit e = .fail (.graph message) := by
  cases hproblems : e.problems with
  | cons problem others => exact .inr ⟨_, ofEdit_of_problems hproblems⟩
  | nil =>
      have hlawful := Edit.problems_eq_nil_iff.mp hproblems
      by_cases hduration : (e.timeline hlawful.trim.le).duration = 0
      · exact .inr ⟨_, ofEdit_of_duration hproblems hduration⟩
      · obtain ⟨clip, hclip, -⟩ := exists_ofEdit hlawful hduration
        exact .inl ⟨clip, hclip⟩

/-- Whatever an edit holds, each step of its translation can be taken. It has a clip exactly if it
is acceptable, and otherwise a fault; the captions of the clip have all their boundaries. -/
theorem judged_ofEdit (e : Edit) :
    guarded? e = some (ofEdit e) ∧ ((∃ clip, ofEdit e = .ok clip) ↔ e.Acceptable) ∧
      (¬ e.Acceptable → ∃ message, ofEdit e = .fail (.graph message)) ∧
      ∀ clip, ofEdit e = .ok clip → Caption.ofClip clip ≠ .error .broken ∧
        ∀ s ∈ clip.segments, s.words ≠ [] →
          ∃ bounds, Caption.boundaries? s = some bounds ∧ bounds.length = s.words.length + 1 := by
  refine ⟨guarded?_eq e, exists_ofEdit_iff, fun hunlawful => ?refused, fun clip hclip => ?captions⟩
  case refused =>
    exact (ofEdit_cases e).resolve_left fun haccepted => hunlawful (exists_ofEdit_iff.mp haccepted)
  case captions =>
    refine ⟨(inTime_ofEdit hclip).captions.1, fun s hs hwords => ?_⟩
    have hle := ((inTime_ofEdit hclip).segments s hs).start_lt_end.le
    exact ⟨_, Caption.boundaries?_eq hle hwords, by rw [List.length_map, List.length_range]⟩

/-- A talk with a segment of two words is accepted; with a speed that is not a number it is not. -/
theorem judged_ofEdit_of_talk :
    let e : Edit :=
      { sourcePath := "/media/talk.mp4", trimStartMs := 1000, trimEndMs := 4000,
        canvas := .portrait, speed := 1.5,
        ramps := [⟨500, 2500, 1, 2⟩],
        stickers := [⟨.inline "data:image/png;base64,iVBORw0KGgo=", 0, 2000, ⟨2, -1, 0.5, 9⟩⟩],
        segments := [{ text := "so far", startMs := 3000, endMs := 4500, words :=
          [⟨"so", 3000, 3300⟩, ⟨"far", 3400, 4400⟩] }] }
    let unclear : Edit := { e with speed := .nan }
    e.Acceptable ∧ (∃ clip, ofEdit e = .ok clip ∧ Caption.ofClip clip ≠ .error .broken) ∧
      ¬ unclear.Acceptable ∧ ∃ message, ofEdit unclear = .fail (.graph message) := by
  intro e unclear
  obtain ⟨-, haccepted, -, hcaptions⟩ := judged_ofEdit e
  obtain ⟨-, -, hrefused, -⟩ := judged_ofEdit unclear
  have hsome : (ofEdit e).toOption.isSome = true := by decide +kernel
  have hunclear : ¬ unclear.Acceptable := fun h => absurd h.speed.1 (by decide)
  cases h : ofEdit e with
  | error failure => rw [h] at hsome; cases hsome
  | ok clip =>
      exact ⟨haccepted.mp ⟨clip, h⟩, ⟨clip, rfl, (hcaptions clip h).1⟩, hunclear, hrefused hunclear⟩

end Clip

end Montage
