import Montage.Proofs.Compile.StageFilters
import Montage.Proofs.Edit.Problems
import Montage.Proofs.Decimal.Value
import Montage.Proofs.Graph.Reading

/-! # The tempo as it is written

Picture and sound are sped up by texts of their own. The picture has one divisor with six places.
The sound has a chain of factors, whose product before they are written is exactly the speed; the
one factor that is not a power of two is at least a half, so that six places are enough for it
whatever the speed. -/

namespace Montage

open Montage.Filter (withArgs)

/-! ## The factors of a tempo -/

namespace Tempo

open Binary64 (Has rounded mantBound overflow)

variable {x : Binary64} {v : Rat}

theorem most_has : most.Has 2 := Binary64.has_literal 2 (by decide)

theorem least_has : least.Has (1 / 2) := ⟨by decide +kernel, by decide +kernel⟩

/-- Half of a number above two is exact. -/
theorem has_div_most (h : x.Has v) (hv : 2 < v) : (x / most).Has (v / 2) := by
  obtain ⟨m, e, hvalue, hm, -⟩ := Binary64.exists_toRat_eq h.isFinite
  rw [h.toRat_eq] at hvalue
  have hplace : 1 - 53 < e := by
    refine Binary64.lt_place hm ?_
    rw [← hvalue, zpow_one]
    exact hv.le.trans (le_abs_self v)
  have hexact : rounded (v / 2) = v / 2 := by
    have hhalf : v / 2 = m * (2 : Rat) ^ (e - 1) := by
      rw [hvalue, zpow_sub₀ two_ne_zero, zpow_one, mul_div_assoc]
    rw [hhalf]
    exact Binary64.rounded_mul_zpow hm.le (by omega)
  have hdiv := h.div most_has two_ne_zero ?_
  · rwa [hexact] at hdiv
  · rw [hexact]
    have hbound := h.abs_lt_overflow
    rw [abs_of_pos (by linarith)] at hbound ⊢
    linarith

/-- Twice a number is exact. -/
theorem has_div_least (h : x.Has v) (hpos : 0 < v) (hv : v < 1 / 2) :
    (x / least).Has (v / (1 / 2)) := by
  obtain ⟨m, e, hvalue, hm, he, -⟩ := Binary64.exists_toRat_eq h.isFinite
  rw [h.toRat_eq] at hvalue
  have hexact : rounded (v / (1 / 2)) = v / (1 / 2) := by
    have htwice : v / (1 / 2) = m * (2 : Rat) ^ (e + 1) := by
      rw [hvalue, zpow_add₀ two_ne_zero, zpow_one]
      ring
    rw [htwice]
    exact Binary64.rounded_mul_zpow hm.le (by omega)
  have hdiv := h.div least_has (by norm_num) (Binary64.abs_rounded_lt_overflow ?_)
  · rwa [hexact] at hdiv
  · rw [abs_of_pos (by positivity)]
    calc v / (1 / 2) ≤ 1 := by linarith
      _ ≤ (2 : Rat) ^ (1023 : Int) := one_le_zpow₀ (by norm_num) (by norm_num)

/-- The factor `most` is taken out until the rest is small enough. -/
theorem takeMost_spec {n : Nat} (h : x.Has v) (hv : 0 < v) (hn : v ≤ 2 * 2 ^ n) :
    ∃ j rest w, takeMost n x = (List.replicate j most, rest) ∧ rest.Has w ∧ 0 < w ∧ w ≤ 2 ∧
      2 ^ j * w = v ∧ (j = 0 ∨ 1 < w) := by
  induction n generalizing x v with
  | zero => exact ⟨0, x, v, rfl, h, hv, by simpa using hn, by simp, .inl rfl⟩
  | succ n ih =>
      rw [takeMost]
      split
      case isTrue hlt =>
        rw [most_has.lt_iff h] at hlt
        obtain ⟨j, rest, w, htake, hrest, hpos, hle, hprod, hlast⟩ :=
          ih (has_div_most h hlt) (by linarith) (by rw [pow_succ] at hn; linarith)
        refine ⟨j + 1, rest, w, by rw [htake]; rfl, hrest, hpos, hle, ?_, .inr ?_⟩
        · rw [pow_succ]
          linarith
        · rcases hlast with rfl | hlt'
          · rw [pow_zero, one_mul] at hprod
            linarith
          · exact hlt'
      case isFalse hle =>
        rw [most_has.lt_iff h, not_lt] at hle
        exact ⟨0, x, v, rfl, h, hv, hle, by simp, .inl rfl⟩

/-- The factor `least` is taken out until the rest is great enough. -/
theorem takeLeast_spec {n : Nat} (h : x.Has v) (hv : 0 < v) (hn : 1 ≤ v * 2 * 2 ^ n) :
    ∃ j rest w, takeLeast n x = (List.replicate j least, rest) ∧ rest.Has w ∧ 1 / 2 ≤ w ∧
      (1 / 2) ^ j * w = v ∧ (j = 0 ∨ w < 1) := by
  induction n generalizing x v with
  | zero => exact ⟨0, x, v, rfl, h, by linarith, by simp, .inl rfl⟩
  | succ n ih =>
      rw [takeLeast]
      split
      case isTrue hlt =>
        have hlt : v < 1 / 2 := (h.lt_iff least_has).mp hlt
        obtain ⟨j, rest, w, htake, hrest, hge, hprod, hlast⟩ :=
          ih (has_div_least h hv hlt) (by positivity) (by rw [pow_succ] at hn; linarith)
        refine ⟨j + 1, rest, w, by rw [htake]; rfl, hrest, hge, ?_, .inr ?_⟩
        · rw [pow_succ]
          linarith
        · rcases hlast with rfl | hlt'
          · rw [pow_zero, one_mul] at hprod
            linarith
          · exact hlt'
      case isFalse hle =>
        have hle : 1 / 2 ≤ v := not_lt.mp fun hlt => hle ((h.lt_iff least_has).mpr hlt)
        exact ⟨0, x, v, rfl, h, hle, by simp, .inl rfl⟩

/-- A number whose computed distance to one is at most a bound is closer to one than any greater
number. -/
theorem abs_sub_one_lt {bound : Binary64} {c : Rat} (h : x.Has v) (hv : 0 ≤ v)
    (hbound : bound.isFinite) (hkept : rounded c = c) (hlt : bound.toRat < c)
    (hnear : ¬ bound.lt (x - 1).abs) : |v - 1| < c := by
  have hdiff := (h.sub_of_nonneg Binary64.has_one hv zero_le_one).abs
  have hle : |rounded (v - 1)| ≤ bound.toRat :=
    not_lt.mp fun hlt => hnear (((Binary64.has_toRat hbound).lt_iff hdiff).mpr hlt)
  by_contra hfar
  have hmono := Binary64.rounded_mono (not_lt.mp hfar)
  rw [hkept, ← Binary64.abs_rounded] at hmono
  linarith

/-- The rest of a tempo that is left out is close to one. -/
theorem abs_sub_one_le {bound : Binary64} {k : Int} (h : x.Has v) (hv : 0 ≤ v)
    (hbound : bound.isFinite) (hk : -1074 ≤ k) (hlt : bound.toRat < (2 : Rat) ^ k)
    (hnear : ¬ bound.lt (x - 1).abs) : |v - 1| ≤ (2 : Rat) ^ k := by
  have hkept : rounded ((2 : Rat) ^ k) = (2 : Rat) ^ k := by
    simpa using Binary64.rounded_mul_zpow (m := 1) (e := k) (by decide) hk
  exact (abs_sub_one_lt h hv hbound hkept hlt hnear).le

/-- The two loops come to an end before their bound does, and one of them takes nothing out. -/
theorem loops_spec (h : x.Has v) (hv : 0 < v) :
    ∃ j middle j' rest w, takeMost steps x = (List.replicate j most, middle) ∧
      takeLeast steps middle = (List.replicate j' least, rest) ∧ ¬ most < middle ∧
      rest.Has w ∧ 1 / 2 ≤ w ∧ w ≤ 2 ∧ 2 ^ j * ((1 / 2) ^ j' * w) = v ∧ (j = 0 ∨ j' = 0) := by
  -- more steps than there are powers of two
  have hsteps : (2 : Rat) * 2 ^ steps = (2 : Rat) ^ (1101 : Int) := by
    rw [← pow_succ', ← zpow_natCast]
    rfl
  have hhigh : v ≤ 2 * 2 ^ steps := by
    rw [hsteps]
    calc v ≤ |v| := le_abs_self v
      _ ≤ (2 : Rat) ^ (1024 : Int) := h.abs_lt_overflow.le
      _ ≤ (2 : Rat) ^ (1101 : Int) := zpow_le_zpow_right₀ (by norm_num) (by norm_num)
  obtain ⟨j, middle, u, hmost, hmiddle, hpos, hle, hprod, hlast⟩ := takeMost_spec h hv hhigh
  have hlow : 1 ≤ u * 2 * 2 ^ steps := by
    have hleast : (2 : Rat) ^ (-1074 : Int) ≤ u := hmiddle.le_of_pos hpos
    rw [mul_assoc, hsteps]
    calc (1 : Rat) ≤ (2 : Rat) ^ (-1074 : Int) * (2 : Rat) ^ (1101 : Int) := by
          rw [← zpow_add₀ two_ne_zero]
          exact one_le_zpow₀ (by norm_num) (by norm_num)
      _ ≤ u * (2 : Rat) ^ (1101 : Int) :=
          mul_le_mul_of_nonneg_right hleast (zpow_pos (by norm_num) _).le
  obtain ⟨j', rest, w, hleast, hrest, hge, hprod', hlast'⟩ := takeLeast_spec hmiddle hpos hlow
  have hbelow : ¬ most < middle := fun hlt => absurd ((most_has.lt_iff hmiddle).mp hlt) hle.not_gt
  have hw : w ≤ 2 := by
    rcases hlast' with rfl | hlt
    · rw [pow_zero, one_mul] at hprod'
      linarith
    · linarith
  refine ⟨j, middle, j', rest, w, hmost, hleast, hbelow, hrest, hge, hw, by rw [hprod', hprod], ?_⟩
  -- if anything was taken out first, what is left is above one
  rcases hlast with hzero | hgt
  · exact .inl hzero
  · refine .inr (hlast'.resolve_right fun hlt => ?_)
    have hpow : (1 / 2 : Rat) ^ j' ≤ 1 := pow_le_one₀ (by norm_num) (by norm_num)
    have : (1 / 2 : Rat) ^ j' * w ≤ w := mul_le_of_le_one_left (by linarith) hpow
    linarith

theorem factors_eq (h : x.Has v) (hv : 0 < v) {high low : List Binary64} {middle rest : Binary64}
    (hmost : takeMost steps x = (high, middle)) (hleast : takeLeast steps middle = (low, rest)) :
    factors x = high ++ low ++ if tolerance.lt (rest - 1).abs then [rest] else [] := by
  have hpositive : Binary64.lt 0 x := (Binary64.has_zero.lt_iff h).mpr hv
  rw [factors, if_pos ⟨h.isFinite, hpositive⟩]
  simp only [hmost, hleast]

/-- The factors of a tempo: one factor some times, and a rest between a half and two unless that is
close to one. Their product is the tempo. -/
theorem factors_spec (h : x.Has v) (hv : 0 < v) :
    ∃ factor ∈ [most, least], ∃ j rest w, factors x = List.replicate j factor ++
        (if tolerance.lt (rest - 1).abs then [rest] else []) ∧
      rest.Has w ∧ 1 / 2 ≤ w ∧ w ≤ 2 ∧ factor.toRat ^ j * w = v := by
  obtain ⟨j, middle, j', rest, w, hmost, hleast, -, hrest, hge, hle, hprod, hone⟩ := loops_spec h hv
  have hfactors := factors_eq h hv hmost hleast
  rcases hone with rfl | rfl
  · refine ⟨least, by simp, j', rest, w, by simpa using hfactors, hrest, hge, hle, ?_⟩
    rwa [least_has.toRat_eq, ← one_mul (_ * w), ← pow_zero 2]
  · refine ⟨most, by simp, j, rest, w, by simpa using hfactors, hrest, hge, hle, ?_⟩
    rwa [most_has.toRat_eq, ← one_mul w, ← pow_zero (1 / 2 : Rat)]

theorem isFinite_of_mem_factors (h : x.Has v) (hv : 0 < v) : ∀ f ∈ factors x, f.isFinite := by
  obtain ⟨factor, hfactor, j, rest, w, hfactors, hrest, -⟩ := factors_spec h hv
  have hfinite : factor.isFinite := by
    rcases List.mem_pair.mp hfactor with rfl | rfl
    · exact most_has.isFinite
    · exact least_has.isFinite
  rw [hfactors, List.forall_mem_append]
  refine ⟨fun f hf => List.eq_of_mem_replicate hf ▸ hfinite, ?_⟩
  split
  · exact List.forall_mem_singleton.mpr hrest.isFinite
  · simp

/-- A factor as it is written. -/
def written (factor : Binary64) : Rat := Decimal.roundedTo 6 factor.toRat

/-- The product of the factors as they are written is as good as their six places. -/
theorem abs_prod_written_sub_le (h : x.Has v) (hv : 0 < v) :
    |((factors x).map written).prod - v| ≤ v / 1000000 := by
  obtain ⟨factor, hfactor, j, rest, w, hfactors, hrest, hlow, -, hprod⟩ := factors_spec h hv
  have hexact : written factor = factor.toRat := by
    rcases List.mem_pair.mp hfactor with rfl | rfl
    · rw [written, most_has.toRat_eq]
      exact_mod_cast Decimal.roundedTo_intCast 6 2
    · rw [written, least_has.toRat_eq]
      decide +kernel
  have hpos : 0 < factor.toRat := by
    rcases List.mem_pair.mp hfactor with rfl | rfl
    · rw [most_has.toRat_eq]; norm_num
    · rw [least_has.toRat_eq]; norm_num
  -- the last factor as it is written, or one if it is left out
  obtain ⟨u, hu, hnear⟩ : ∃ u : Rat, ((factors x).map written).prod = factor.toRat ^ j * u ∧
      |u - w| ≤ 1 / 2000000 := by
    rw [hfactors, List.map_append, List.prod_append, List.map_replicate, List.prod_replicate,
      hexact]
    split
    case isTrue =>
      refine ⟨written rest, by simp, ?_⟩
      rw [written, hrest.toRat_eq]
      exact (Decimal.abs_roundedTo_sub_le 6 w).trans (by norm_num)
    case isFalse hnear =>
      refine ⟨1, by simp, ?_⟩
      rw [abs_sub_comm]
      exact (abs_sub_one_le (k := -29) hrest (by linarith) (by decide +kernel) (by decide)
        (by decide +kernel) hnear).trans (by norm_num)
  have hpow : 0 < factor.toRat ^ j := pow_pos hpos j
  rw [hu, ← hprod, ← mul_sub, abs_mul, abs_of_pos hpow]
  have hrel : |u - w| ≤ w / 1000000 := by linarith
  calc factor.toRat ^ j * |u - w| ≤ factor.toRat ^ j * (w / 1000000) :=
        mul_le_mul_of_nonneg_left hrel hpow.le
    _ = factor.toRat ^ j * w / 1000000 := by ring

end Tempo

/-! ## What a program says of its tempo -/

/-- The number by which a filter divides the times of the picture. -/
def Filter.divisor? (f : Filter) : Option Rat :=
  if f.name = "setpts" then do
    let args ← f.args
    let text ← Text.after? "(PTS-STARTPTS)/".toList args.toList
    Decimal.value? text
  else none

/-- The number by which a filter multiplies the tempo of the sound. -/
def Filter.tempo? (f : Filter) : Option Rat :=
  if f.name = "atempo" then do
    let args ← f.args
    Decimal.value? args.toList
  else none

/-- How fast the picture is shown, by the filters of its tempo. -/
def Graph.pictureSpeed? (g : Graph) : Option Rat :=
  ((g.stageFilters .tempo).mapM Filter.divisor?).map List.prod

/-- How fast the source is heard, by those filters of its sound that change the tempo. -/
def Graph.soundSpeed? (g : Graph) : Option Rat :=
  (((g.stageFilters .primary).filter fun f => f.name = "atempo").mapM Filter.tempo?).map List.prod

/-- Picture and sound are sped up alike, to five places. -/
def Program.EvenlyPaced (p : Program) : Prop :=
  ∃ picture sound, p.graph.pictureSpeed? = some picture ∧ p.graph.soundSpeed? = some sound ∧
    0 < picture ∧ |picture - sound| ≤ sound / 100000

theorem Filter.divisor?_tempo {x : Binary64} {v : Rat} (h : x.Has v) :
    (withArgs "setpts" s!"(PTS-STARTPTS)/{Decimal.fixed 6 x}").divisor? =
      some (Decimal.roundedTo 6 v) := by
  have htext : (s!"(PTS-STARTPTS)/{Decimal.fixed 6 x}").toList =
      "(PTS-STARTPTS)/".toList ++ (Decimal.fixed 6 x).toList := by
    exact String.toList_append
  simp only [divisor?, withArgs, if_true, Option.bind_eq_bind, Option.bind_some, htext,
    Text.after?_append, Decimal.value?_fixed h]

/-- How fast the picture is shown. -/
theorem Program.pictureSpeed?_of_compile {clip : Clip} {probe : Probe} {subjects : List Region}
    {assets : Assets} {p : Program} (h : compile clip probe subjects assets = .ok p) {v : Rat}
    (hspeed : clip.speed.Has v) :
    p.graph.pictureSpeed? = some (if Video.unitStep.lt (clip.speed - 1).abs then
      Decimal.roundedTo 6 v else 1) := by
  obtain ⟨htempo, -, -⟩ := stageFilters_of_compile h
  rw [Graph.pictureSpeed?, htempo, Video.tempoFilters]
  split
  · simp [Filter.divisor?_tempo hspeed]
  · rfl

theorem Filter.mapM_tempo? {factors : List Binary64} (h : ∀ f ∈ factors, f.isFinite) :
    (factors.map fun f => withArgs "atempo" (Decimal.fixed 6 f)).mapM Filter.tempo? =
      some (factors.map Tempo.written) := by
  refine Grammar.mapM_map fun f hf => ?_
  exact Decimal.value?_fixed (Binary64.has_toRat (h f hf)) 6

/-- How fast the source is heard. -/
theorem Program.soundSpeed?_of_compile {clip : Clip} {probe : Probe} {subjects : List Region}
    {assets : Assets} {p : Program} (h : compile clip probe subjects assets = .ok p)
    (haudio : probe.hasAudio = true) (hfinite : ∀ f ∈ Tempo.factors clip.speed, f.isFinite) :
    p.graph.soundSpeed? = some ((Tempo.factors clip.speed).map Tempo.written).prod := by
  obtain ⟨-, -, hprimary⟩ := stageFilters_of_compile h
  have hall : ((Tempo.factors clip.speed).map fun f => withArgs "atempo" (Decimal.fixed 6 f)).filter
      (fun f => f.name = "atempo") =
        (Tempo.factors clip.speed).map fun f => withArgs "atempo" (Decimal.fixed 6 f) :=
    List.filter_eq_self.mpr (List.forall_mem_map.mpr fun f _ => rfl)
  have hchain : ((Audio.primaryFilters clip probe).filter fun f => f.name = "atempo") =
      (Tempo.factors clip.speed).map fun f => withArgs "atempo" (Decimal.fixed 6 f) := by
    rw [Audio.primaryFilters, if_pos haudio, List.filter_append, List.filter_append, hall]
    simp [withArgs, Audio.sampleFormat]
  rw [Graph.soundSpeed?, hprimary, hchain, Filter.mapM_tempo? hfinite, Option.map_some]

namespace Program

theorem evenlyPaced_iff {p : Program} {picture sound : Rat}
    (hpicture : p.graph.pictureSpeed? = some picture) (hsound : p.graph.soundSpeed? = some sound) :
    p.EvenlyPaced ↔ 0 < picture ∧ |picture - sound| ≤ sound / 100000 := by
  simp [EvenlyPaced, hpicture, hsound]

/-- The divisor of the picture has the speed to six places, also where it is left out. -/
theorem abs_divisor_sub_le {x : Binary64} {v : Rat} (h : x.Has v) (hv : 0 < v) :
    let picture := if Video.unitStep.lt (x - 1).abs then Decimal.roundedTo 6 v else 1
    |picture - v| ≤ 1 / 2000000 ∧ (0 < picture ↔ 1 / 2000000 < v) := by
  intro picture
  by_cases hfar : Video.unitStep.lt (x - 1).abs
  · rw [show picture = Decimal.roundedTo 6 v from if_pos hfar, Decimal.roundedTo_pos_iff]
    exact ⟨(Decimal.abs_roundedTo_sub_le 6 v).trans (by norm_num), by norm_num⟩
  · have hnear := Tempo.abs_sub_one_le (k := -51) h hv.le (by decide +kernel) (by decide)
      (by decide +kernel) hfar
    rw [show picture = 1 from if_neg hfar, abs_sub_comm]
    have hsmall : |v - 1| ≤ 1 / 2000000 := hnear.trans (by norm_num)
    refine ⟨hsmall, iff_of_true one_pos ?_⟩
    linarith [(abs_le.mp hsmall).1]

section Paces

variable {v picture sound : Rat}

/-- A divisor that is close enough to the speed is paced as the sound, whose tempo has the speed to
six places. -/
theorem paced_of_near (hv : 0 < v) (hsound : |sound - v| ≤ v / 1000000)
    (hnear : |picture - v| ≤ v * (899 / 100000000)) :
    0 < picture ∧ |picture - sound| ≤ sound / 100000 := by
  obtain ⟨hlow, hhigh⟩ := abs_le.mp hsound
  obtain ⟨hlow', hhigh'⟩ := abs_le.mp hnear
  refine ⟨by linarith, abs_le.mpr ⟨?_, ?_⟩⟩ <;> linarith

/-- One that is paced as the sound is not much farther off. -/
theorem near_of_paced (hv : 0 < v) (hsound : |sound - v| ≤ v / 1000000)
    (hpaced : |picture - sound| ≤ sound / 100000) :
    |picture - v| ≤ v * (11001 / 1000000000) := by
  obtain ⟨hlow, hhigh⟩ := abs_le.mp hsound
  obtain ⟨hlow', hhigh'⟩ := abs_le.mp hpaced
  exact abs_le.mpr ⟨by linarith, by linarith⟩

end Paces

variable {e : Edit} {clip : Clip} {probe : Probe} {subjects : List Region} {assets : Assets}
  {p : Program}

/-- The sound of an accepted edit has the tempo of the edit to six places, and so has the picture,
but its places are those of the whole divisor. So both are paced alike, unless the edit is so slow
that six places are too few. -/
theorem evenlyPaced_ofEdit (hclip : Clip.ofEdit e = .ok clip) (haudio : probe.hasAudio = true)
    (h : compile clip probe subjects assets = .ok p) :
    ∃ picture sound, p.graph.pictureSpeed? = some picture ∧ p.graph.soundSpeed? = some sound ∧
      |sound - e.speed.toRat| ≤ e.speed.toRat / 1000000 ∧
      |picture - e.speed.toRat| ≤ 1 / 2000000 ∧
      (0 < picture ↔ 1 / 2000000 < e.speed.toRat) ∧
      (|picture - e.speed.toRat| ≤ e.speed.toRat * (899 / 100000000) → p.EvenlyPaced) ∧
      (p.EvenlyPaced → |picture - e.speed.toRat| ≤ e.speed.toRat * (11001 / 1000000000)) ∧
      (557 / 10000 ≤ e.speed.toRat → p.EvenlyPaced) := by
  obtain ⟨hproblems, ordered, cutaways, stickers, -, -, -, rfl⟩ := Clip.ofEdit_eq_ok hclip
  have htimely := Edit.timely_of_problems hproblems
  obtain ⟨hpos, -⟩ := Binary64.toRat_pos htimely.speed_finite htimely.speed_positive
  have hspeed := Binary64.has_toRat htimely.speed_finite
  generalize e.speed.toRat = v at hpos hspeed ⊢
  have hpicture := pictureSpeed?_of_compile h hspeed
  have hsound := soundSpeed?_of_compile h haudio (Tempo.isFinite_of_mem_factors hspeed hpos)
  have hnear := Tempo.abs_prod_written_sub_le hspeed hpos
  obtain ⟨hplaces, hpositive⟩ := abs_divisor_sub_le hspeed hpos
  have hpaced := evenlyPaced_iff hpicture hsound
  refine ⟨_, _, hpicture, hsound, hnear, hplaces, hpositive, ?_, ?_, ?_⟩
  · exact fun hclose => hpaced.mpr (paced_of_near hpos hnear hclose)
  · exact fun heven => near_of_paced hpos hnear (hpaced.mp heven).2
  · intro hfast
    exact hpaced.mpr (paced_of_near hpos hnear (hplaces.trans (by linarith)))

/-- A minute of a talk at one and a half times its speed. -/
theorem evenlyPaced_of_talk :
    let e : Edit :=
      { sourcePath := "/media/talk.mp4", trimStartMs := 0, trimEndMs := 60000,
        canvas := .portrait, speed := 1.5 }
    let probe : Probe := ⟨1920, 1080, some 60000, true, true⟩
    ∃ clip p picture sound, Clip.ofEdit e = .ok clip ∧ probe.hasAudio = true ∧
      compile clip probe [] {} = .ok p ∧ p.graph.pictureSpeed? = some picture ∧
      p.graph.soundSpeed? = some sound ∧ |sound - 3 / 2| ≤ 3 / 2 / 1000000 ∧
      |picture - 3 / 2| ≤ 1 / 2000000 ∧ p.EvenlyPaced := by
  intro e probe
  have hspeed : e.speed.toRat = 3 / 2 := by decide +kernel
  have hrun : (do compile (← Clip.ofEdit e) probe [] {} : Outcome Program).isOk := by
    decide +kernel
  cases hrun' : (do compile (← Clip.ofEdit e) probe [] {} : Outcome Program) with
  | error failure => rw [hrun'] at hrun; cases hrun
  | ok p =>
      obtain ⟨clip, hclip, hp⟩ := bind_eq_ok_iff.mp hrun'
      obtain ⟨picture, sound, hpicture, hsound, hnear, hplaces, -, -, -, heven⟩ :=
        evenlyPaced_ofEdit hclip rfl hp
      rw [hspeed] at hnear hplaces heven
      exact ⟨clip, p, picture, sound, hclip, rfl, hp, hpicture, hsound, hnear, hplaces,
        heven (by norm_num)⟩

/-- A picture that is slowed down by ten million is divided by nothing at all. -/
theorem not_evenlyPaced_of_slow :
    let e : Edit :=
      { sourcePath := "/media/talk.mp4", trimStartMs := 0, trimEndMs := 3000,
        canvas := .portrait, speed := 0.0000001 }
    let probe : Probe := ⟨1920, 1080, some 10000, true, true⟩
    ∃ clip p, Clip.ofEdit e = .ok clip ∧ probe.hasAudio = true ∧
      compile clip probe [] {} = .ok p ∧ p.graph.pictureSpeed? = some 0 ∧ ¬ p.EvenlyPaced := by
  intro e probe
  have hrun : (do
      let p ← compile (← Clip.ofEdit e) probe [] {}
      return p.graph.pictureSpeed? : Outcome (Option Rat)) = .ok (some 0) := by
    decide +kernel
  obtain ⟨clip, hclip, hrun⟩ := bind_eq_ok_iff.mp hrun
  obtain ⟨p, hp, hpicture⟩ := bind_eq_ok_iff.mp hrun
  have hpicture : p.graph.pictureSpeed? = some 0 := Except.ok.inj hpicture
  refine ⟨clip, p, hclip, rfl, hp, hpicture, ?_⟩
  rintro ⟨picture, sound, hpicture', -, hpos, -⟩
  rw [hpicture, Option.some.injEq] at hpicture'
  exact hpos.ne hpicture'

end Program

end Montage
