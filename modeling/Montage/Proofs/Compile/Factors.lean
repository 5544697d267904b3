import Montage.Proofs.Binary64.Bounds
import Montage.Proofs.Compile.Tempo

/-! # The factors of a tempo

Two loops take a factor out of a tempo as long as the rest is beyond it. They come to an end for
every positive number, the least and the greatest ones included: nothing is lost in a division, so
that the rest is halved or doubled each time, and what the first loop leaves is never small enough
for the second. The factors multiply exactly to the tempo, up to a last rest that is one to nine
places. -/

namespace Montage.Tempo

/-! ## Loops -/

/-- A loop without a bound takes a factor out of what is left while that is wanted. The rules do
not mention the functions that split a tempo. -/
inductive Taken (wanted : Binary64 → Prop) (factor : Binary64) :
    Binary64 → List Binary64 → Binary64 → Prop where
  | done {rest} (h : ¬ wanted rest) : Taken wanted factor rest [] rest
  | step {left factors rest} (h : wanted left) :
      Taken wanted factor (left / factor) factors rest →
      Taken wanted factor left (factor :: factors) rest

/-- A loop has one outcome. -/
theorem Taken.unique {wanted : Binary64 → Prop} {factor left rest rest' : Binary64}
    {factors factors' : List Binary64} (h : Taken wanted factor left factors rest)
    (h' : Taken wanted factor left factors' rest') : factors' = factors ∧ rest' = rest := by
  induction h generalizing factors' with
  | done hleft =>
      cases h' with
      | done => exact ⟨rfl, rfl⟩
      | step hwanted => exact absurd hwanted hleft
  | step hwanted _ ih =>
      cases h' with
      | done hleft => exact absurd hwanted hleft
      | step _ hlater =>
          obtain ⟨rfl, rfl⟩ := ih hlater
          exact ⟨rfl, rfl⟩

/-- What the loop for great tempos and after it the one for small tempos take out, and the rest. -/
def Leaves (speed : Binary64) (factors : List Binary64) (rest : Binary64) : Prop :=
  ∃ high low middle, Taken (most < ·) most speed high middle ∧
    Taken (· < least) least middle low rest ∧ factors = high ++ low

theorem Leaves.unique {speed rest rest' : Binary64} {factors factors' : List Binary64}
    (h : Leaves speed factors rest) (h' : Leaves speed factors' rest') :
    factors' = factors ∧ rest' = rest := by
  obtain ⟨high, low, middle, hhigh, hlow, rfl⟩ := h
  obtain ⟨high', low', middle', hhigh', hlow', rfl⟩ := h'
  obtain ⟨rfl, rfl⟩ := hhigh.unique hhigh'
  obtain ⟨rfl, rfl⟩ := hlow.unique hlow'
  exact ⟨rfl, rfl⟩

variable {x rest : Binary64} {v w : Rat}

/-- A loop with a bound on its steps that ends where nothing more is wanted was not stopped by the
bound. -/
theorem taken_of_bounded {wanted : Binary64 → Prop} [DecidablePred wanted] {factor : Binary64}
    {take : Nat → Binary64 → List Binary64 × Binary64} (hzero : ∀ x, take 0 x = ([], x))
    (hstep : ∀ n x, take (n + 1) x =
      if wanted x then (factor :: (take n (x / factor)).1, (take n (x / factor)).2) else ([], x))
    {n : Nat} {factors : List Binary64} (h : take n x = (factors, rest)) (hrest : ¬ wanted rest) :
    Taken wanted factor x factors rest := by
  induction n generalizing x factors with
  | zero =>
      rw [hzero] at h
      obtain ⟨rfl, rfl⟩ := Prod.mk.inj h
      exact .done hrest
  | succ n ih =>
      rw [hstep] at h
      by_cases hwanted : wanted x
      · rw [if_pos hwanted] at h
        obtain ⟨rfl, rfl⟩ := Prod.mk.inj h
        exact .step hwanted (ih rfl)
      · rw [if_neg hwanted] at h
        obtain ⟨rfl, rfl⟩ := Prod.mk.inj h
        exact .done hrest

theorem taken_of_takeMost {n : Nat} {factors : List Binary64} (h : takeMost n x = (factors, rest))
    (hrest : ¬ most < rest) : Taken (most < ·) most x factors rest :=
  taken_of_bounded (fun _ => rfl) (fun _ _ => rfl) h hrest

theorem taken_of_takeLeast {n : Nat} {factors : List Binary64}
    (h : takeLeast n x = (factors, rest)) (hrest : ¬ rest < least) :
    Taken (· < least) least x factors rest :=
  taken_of_bounded (fun _ => rfl) (fun _ _ => rfl) h hrest

/-! ## What is left out -/

/-- From a half on, the distance to one is a number of whole last places. -/
theorem exists_sub_one_eq (h : x.Has v) (hlow : 1 / 2 ≤ v) :
    ∃ k : Int, v - 1 = k * (2 : Rat) ^ (-53 : Int) := by
  obtain ⟨m, e, hvalue, hm, -⟩ := Binary64.exists_toRat_eq h.isFinite
  rw [h.toRat_eq] at hvalue
  have hplace : -1 - 53 < e := by
    refine Binary64.lt_place hm ?_
    rw [← hvalue, zpow_neg_one, ← one_div]
    exact hlow.trans (le_abs_self v)
  obtain ⟨j, hj⟩ : ∃ j : Nat, e = j + (-53) := ⟨(e + 53).toNat, by omega⟩
  refine ⟨m * 2 ^ j - 2 ^ 53, ?_⟩
  rw [hvalue, hj, zpow_add₀ two_ne_zero, zpow_natCast, Int.cast_sub, Int.cast_mul, Int.cast_pow,
    Int.cast_pow, Int.cast_ofNat, sub_mul, ← mul_assoc]
  norm_num

/-- A rest that is left out is one to nine places. The bound that is compared with is a little above
that, but there is no rest between. -/
theorem abs_sub_one_le_of_near (h : x.Has v) (hlow : 1 / 2 ≤ v)
    (hnear : ¬ tolerance.lt (x - 1).abs) : |v - 1| ≤ 1 / 10 ^ 9 := by
  have hlt : |v - 1| < ((9007200 : Int) : Rat) * (2 : Rat) ^ (-53 : Int) :=
    abs_sub_one_lt h (by linarith) (by decide +kernel)
      (Binary64.rounded_mul_zpow (by decide) (by decide)) (by decide +kernel) hnear
  obtain ⟨k, hk⟩ := exists_sub_one_eq h hlow
  have hpow : (0 : Rat) < (2 : Rat) ^ (-53 : Int) := by positivity
  rw [hk, abs_mul, abs_of_pos hpow] at hlt ⊢
  have hplaces : |k| < 9007200 := by exact_mod_cast lt_of_mul_lt_mul_right hlt hpow.le
  have hplaces' : |(k : Rat)| ≤ 9007199 := by exact_mod_cast Int.lt_add_one_iff.mp hplaces
  calc |(k : Rat)| * (2 : Rat) ^ (-53 : Int)
      ≤ 9007199 * (2 : Rat) ^ (-53 : Int) := mul_le_mul_of_nonneg_right hplaces' hpow.le
    _ ≤ 1 / 10 ^ 9 := by norm_num

/-! ## How many factors there are -/

/-- No number is so great that more than 1024 doublings lead to it. -/
theorem le_of_two_pow_mul {j : Nat} (h : x.Has v) (hw : 1 / 2 ≤ w) (hprod : 2 ^ j * w = v) :
    j ≤ 1024 := by
  by_contra hmany
  have hpow : (2 : Rat) ^ (1025 : Nat) ≤ 2 ^ j := pow_le_pow_right₀ one_le_two (by omega)
  have hgreat : (2 : Rat) ^ (1024 : Int) ≤ v := by
    calc (2 : Rat) ^ (1024 : Int) = 2 ^ (1025 : Nat) * (1 / 2) := by
          rw [← zpow_natCast, one_div, ← zpow_neg_one, ← zpow_add₀ two_ne_zero]
          rfl
      _ ≤ 2 ^ j * w := mul_le_mul hpow hw (by norm_num) (by positivity)
      _ = v := hprod
  exact absurd ((le_abs_self v).trans_lt h.abs_lt_overflow) hgreat.not_gt

/-- No positive number is so small that more than 1075 halvings lead to it. -/
theorem le_of_half_pow_mul {j : Nat} (h : x.Has v) (hv : 0 < v) (hw : w ≤ 2)
    (hprod : (1 / 2) ^ j * w = v) : j ≤ 1075 := by
  by_contra hmany
  have hpow : (1 / 2 : Rat) ^ j ≤ (1 / 2) ^ (1076 : Nat) :=
    pow_le_pow_of_le_one (by norm_num) (by norm_num) (by omega)
  have hsmall : v < (2 : Rat) ^ (-1074 : Int) := by
    calc v = (1 / 2) ^ j * w := hprod.symm
      _ ≤ (1 / 2) ^ j * 2 := mul_le_mul_of_nonneg_left hw (by positivity)
      _ ≤ (1 / 2) ^ (1076 : Nat) * 2 := mul_le_mul_of_nonneg_right hpow (by norm_num)
      _ < (2 : Rat) ^ (-1074 : Int) := by
          rw [one_div, inv_pow, ← zpow_natCast, ← zpow_neg, ← zpow_add_one₀ two_ne_zero]
          exact zpow_lt_zpow_right₀ (by norm_num) (by norm_num)
  exact absurd (h.le_of_pos hv) hsmall.not_ge

/-- What the loops leave of a positive number: a rest between a half and two, of which the number is
the exact multiple. -/
theorem exists_leaves (h : x.Has v) (hv : 0 < v) :
    ∃ taken rest w, Leaves x taken rest ∧ rest.Has w ∧ 1 / 2 ≤ w ∧ w ≤ 2 ∧
      taken.length ≤ 1075 ∧ (∀ factor ∈ taken, factor.Within (1 / 2) 2) ∧
      (taken.map Binary64.toRat).prod * w = v ∧
      factors x = taken ++ if tolerance.lt (rest - 1).abs then [rest] else [] := by
  obtain ⟨j, middle, j', rest, w, hmost, hleast, hbelow, hrest, hge, hle, hprod, hone⟩ :=
    loops_spec h hv
  have habove : ¬ rest < least := fun hlt => absurd ((hrest.lt_iff least_has).mp hlt) hge.not_gt
  refine ⟨List.replicate j most ++ List.replicate j' least, rest, w,
    ⟨_, _, middle, taken_of_takeMost hmost hbelow, taken_of_takeLeast hleast habove, rfl⟩,
    hrest, hge, hle, ?length, ?within, ?product, factors_eq h hv hmost hleast⟩
  case length =>
    rw [List.length_append, List.length_replicate, List.length_replicate]
    rcases hone with rfl | rfl
    · have := le_of_half_pow_mul h hv hle (by rwa [pow_zero, one_mul] at hprod)
      omega
    · have := le_of_two_pow_mul h hge (by rwa [pow_zero, one_mul] at hprod)
      omega
  case within =>
    intro factor hfactor
    rcases List.mem_append.mp hfactor with hmem | hmem
    · rw [List.eq_of_mem_replicate hmem]
      exact most_has.within (by norm_num) le_rfl
    · rw [List.eq_of_mem_replicate hmem]
      exact least_has.within le_rfl (by norm_num)
  case product =>
    rw [List.map_append, List.prod_append, List.map_replicate, List.map_replicate,
      List.prod_replicate, List.prod_replicate, most_has.toRat_eq, least_has.toRat_eq, mul_assoc,
      hprod]

/-! ## Chains -/

/-- The product of some factors, without rounding. -/
def product (factors : List Binary64) : Rat := (factors.map Binary64.toRat).prod

/-- Factors that one filter can each have, and that together make up a tempo. The loops leave one
rest, which is the last factor or, if it is one to nine places, left out. -/
structure Chain (speed : Binary64) (chain : List Binary64) : Prop where
  length_le : chain.length ≤ 1100
  within : ∀ factor ∈ chain, factor.Within (1 / 2) 2
  product : ∃ taken rest,
    (∀ taken' rest', Leaves speed taken' rest' ↔ taken' = taken ∧ rest' = rest) ∧
      ((chain = taken ∨ chain = taken ++ [rest]) ∧ product chain = speed.toRat ∨
        chain = taken ∧ 0 < |rest.toRat - 1| ∧ |rest.toRat - 1| ≤ 1 / 10 ^ 9 ∧
          product chain = speed.toRat / rest.toRat)

theorem chain_of_positive {speed : Binary64} (h : speed.Positive) :
    Chain speed (factors speed) := by
  obtain ⟨hfinite, hpos⟩ := h
  obtain ⟨taken, rest, w, hleaves, hrest, hge, hle, hlength, hwithin, hprod, hfactors⟩ :=
    exists_leaves (Binary64.has_toRat hfinite) hpos
  have houtcome (taken' : List Binary64) (rest' : Binary64) :
      Leaves speed taken' rest' ↔ taken' = taken ∧ rest' = rest :=
    ⟨hleaves.unique, fun ⟨htaken, hrest⟩ => htaken ▸ hrest ▸ hleaves⟩
  by_cases hfar : tolerance.lt (rest - 1).abs
  · rw [if_pos hfar] at hfactors
    rw [hfactors]
    refine ⟨?_, ?_, taken, rest, houtcome, .inl ⟨.inr rfl, ?_⟩⟩
    · rw [List.length_append, List.length_singleton]
      omega
    · intro factor hfactor
      rcases List.mem_append.mp hfactor with hmem | hmem
      · exact hwithin factor hmem
      · rw [List.mem_singleton.mp hmem]
        exact hrest.within hge hle
    · rw [product, List.map_append, List.prod_append, List.map_singleton, List.prod_singleton,
        hrest.toRat_eq, hprod]
  · rw [if_neg hfar, List.append_nil] at hfactors
    rw [hfactors]
    refine ⟨by omega, hwithin, taken, rest, houtcome, ?_⟩
    rw [hrest.toRat_eq]
    by_cases hone : w = 1
    · rw [hone, mul_one] at hprod
      exact .inl ⟨.inl rfl, hprod⟩
    · have hnear := abs_sub_one_le_of_near hrest hge hfar
      refine .inr ⟨rfl, abs_pos.mpr (sub_ne_zero.mpr hone), hnear, ?_⟩
      exact eq_div_of_mul_eq (by linarith) hprod

/-- Every positive number has a chain of factors, which the two loops find without a bound on their
steps; what is no positive number has none. -/
theorem chain_factors (speed : Binary64) :
    (speed.Positive → Chain speed (factors speed)) ∧ (¬ speed.Positive → factors speed = []) := by
  refine ⟨chain_of_positive, fun hnone => if_neg fun ⟨hfinite, hlt⟩ => hnone ⟨hfinite, ?_⟩⟩
  exact (Binary64.has_zero.lt_iff (Binary64.has_toRat hfinite)).mp hlt

/-- Of the number next above two, the rest is left out. The least number of all has a chain, a
negative zero has none. -/
theorem chain_factors_of_limits :
    let next : Binary64 := .finite false 0x10000000000001 (-51) (by decide)
    let tiny : Binary64 := .finite false 1 (-1074) (by decide)
    next.Positive ∧ factors next = [2] ∧ Chain next [2] ∧ tiny.Positive ∧
      Chain tiny (factors tiny) ∧ ¬ (-0 : Binary64).Positive ∧ factors (-0) = [] := by
  intro next tiny
  have hnext : next.Positive := by decide +kernel
  have htiny : tiny.Positive := by decide +kernel
  have hzero : ¬ (-0 : Binary64).Positive := by decide +kernel
  have hfactors : factors next = [2] := by decide +kernel
  have hchain := (chain_factors next).1 hnext
  rw [hfactors] at hchain
  exact ⟨hnext, hfactors, hchain, htiny, (chain_factors tiny).1 htiny, hzero,
    (chain_factors (-0)).2 hzero⟩

end Montage.Tempo
