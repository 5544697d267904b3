import Mathlib.Data.List.Nodup
import Montage.Proofs.Compile.ZoomBounds

/-! # Which ramp decides

The expression of some ramps asks them in the order of their beginnings. So the zoom at a time is
that of the ramp that begins first among those whose written windows contain the time, ends
included, and of ramps that begin together that of the one listed first. Outside all windows it is
the constant zoom. -/

namespace Montage

open Binary64 (Has rounded)

/-! ## What is written of a ramp -/

/-- A ramp at clip times of 64 bits, from one finite zoom to another over a finite change. -/
structure ClipRamp.Writable (r : ClipRamp) : Prop where
  startMs_le : r.window.startMs ≤ Binary64.top64
  endMs_le : r.window.endMs ≤ Binary64.top64
  zoomStart : r.zoomStart.isFinite
  zoomEnd : r.zoomEnd.isFinite
  change : (r.zoomEnd - r.zoomStart).isFinite

namespace Zoom

open Montage.Zoom.Expr (numberText written)

/-- The value of a number as an expression writes it. -/
def read? (x : Binary64) : Option Rat := Decimal.value? (numberText x).toList

/-- The numbers that the expression of a ramp has. -/
structure Constants where
  startAt : Rat
  endAt : Rat
  first : Rat
  change : Rat
  length : Rat
  deriving DecidableEq

namespace Constants

/-- A time between the ends, both included. -/
def Contains (c : Constants) (t : Rat) : Prop := c.startAt ≤ t ∧ t ≤ c.endAt

/-- The zoom at a time. -/
def valueAt (c : Constants) (t : Rat) : Rat := c.first + c.change * (t - c.startAt) / c.length

end Constants

/-- The constants of a ramp, as they are written. -/
def constants? (r : ClipRamp) : Option Constants := do
  return {
    startAt := ← read? r.window.startSeconds
    endAt := ← read? r.window.endSeconds
    first := ← read? r.zoomStart
    change := ← read? (r.zoomEnd - r.zoomStart)
    length := ← read? ((r.window.endSeconds - r.window.startSeconds).maximum leastRamp) }

/-- A ramp whose written window contains a time. -/
def Shows (r : ClipRamp) (t : Rat) : Prop := ∃ c, constants? r = some c ∧ c.Contains t

/-- The ramp at a place of a list decides at a time if its window contains the time, and of the
ramps with such windows it begins first, or is the first of those that begin first. -/
structure Decides (ramps : List ClipRamp) (t : Rat) (i : Nat) (r : ClipRamp) : Prop where
  listed : ramps[i]? = some r
  shows : Shows r t
  first : ∀ j other, ramps[j]? = some other → Shows other t →
    r.window.startMs < other.window.startMs ∨ r.window.startMs = other.window.startMs ∧ i ≤ j

theorem read?_eq {x : Binary64} (h : x.isFinite) : read? x = some (written x) := by
  rw [read?, numberText, Decimal.value?_fixed (Binary64.has_toRat h), Expr.written_eq]

variable {r : ClipRamp} {t : Rat}

/-- The expression of a ramp is read as its constants say. -/
theorem exists_constants (h : r.Writable) :
    ∃ c, constants? r = some c ∧ ∀ t, (rampExpr r).Fits t ∧ (rampExpr r).eval t = c.valueAt t ∧
      (c.Contains t ↔ written r.window.startSeconds ≤ t ∧ t ≤ written r.window.endSeconds) := by
  obtain ⟨a, ha, hstart⟩ := Window.exists_has_seconds h.startMs_le
  obtain ⟨b, hb, hend⟩ := Window.exists_has_seconds h.endMs_le
  have hlength := (hend.sub_of_nonneg hstart hb ha).maximum leastRamp_has
  have hpos : 0 < written ((Window.seconds r.window.endMs - Window.seconds r.window.startMs).maximum
      leastRamp) := by
    have hleast : 0 < Decimal.roundedTo 6 leastRamp.toRat := by decide +kernel
    rw [Expr.written_of_has hlength]
    exact hleast.trans_le (Decimal.roundedTo_mono 6 (le_max_right _ _))
  refine ⟨_, by simp only [constants?, Window.startSeconds, Window.endSeconds,
    read?_eq hstart.isFinite, read?_eq hend.isFinite, read?_eq h.zoomStart, read?_eq h.change,
    read?_eq hlength.isFinite]; rfl, fun t => ⟨?_, rfl, Iff.rfl⟩⟩
  exact ⟨h.zoomStart, ⟨⟨h.change, ⟨trivial, hstart.isFinite, rfl⟩, rfl, rfl⟩, hlength.isFinite,
    rfl, rfl, hpos.ne'⟩, rfl⟩

theorem shows_iff (h : r.Writable) : Shows r t ↔
    written r.window.startSeconds ≤ t ∧ t ≤ written r.window.endSeconds := by
  obtain ⟨c, hc, hspec⟩ := exists_constants h
  rw [← (hspec t).2.2, Shows, hc]
  simp

/-! ## The order in which ramps are asked -/

/-- Whether a ramp begins no later than another one. -/
def notLater (a b : ClipRamp) : Bool := a.window.startMs ≤ b.window.startMs

theorem notLater_trans (a b c : ClipRamp) (hab : notLater a b) (hbc : notLater b c) :
    notLater a c :=
  decide_eq_true ((of_decide_eq_true hab).trans (of_decide_eq_true hbc))

theorem notLater_total (a b : ClipRamp) : notLater a b || notLater b a := by
  simpa [notLater] using le_total a.window.startMs b.window.startMs

theorem zipIdxLE_notLater {a b : ClipRamp × Nat} : List.zipIdxLE notLater a b ↔
    a.1.window.startMs < b.1.window.startMs ∨
      a.1.window.startMs = b.1.window.startMs ∧ a.2 ≤ b.2 := by
  simp only [List.zipIdxLE, notLater, decide_eq_true_eq]
  split_ifs <;> simp <;> omega

/-- Ramps in the order in which they are asked, with their places in the list. -/
def inOrder (ramps : List ClipRamp) : List (ClipRamp × Nat) :=
  ramps.zipIdx.mergeSort (List.zipIdxLE notLater)

/-- Some ramps, each tried before the later ones. -/
def tryAll (ramps : List ClipRamp) (rest : Binary64) : Expr :=
  ramps.foldr (fun r tail => .within r.window.startSeconds r.window.endSeconds (rampExpr r) tail)
    (.number rest)

theorem rampsExpr_eq (ramps : List ClipRamp) (rest : Binary64) :
    rampsExpr ramps rest = tryAll ((inOrder ramps).map Prod.fst) rest := by
  rw [inOrder, List.mergeSort_zipIdx]
  rfl

theorem mem_inOrder {ramps : List ClipRamp} {i : Nat} :
    (r, i) ∈ inOrder ramps ↔ ramps[i]? = some r := by
  rw [inOrder, List.mem_mergeSort, List.mk_mem_zipIdx_iff_getElem?]

theorem pairwise_inOrder (ramps : List ClipRamp) :
    (inOrder ramps).Pairwise fun a b => List.zipIdxLE notLater a b :=
  List.pairwise_mergeSort (List.zipIdxLE_trans notLater_trans)
    (List.zipIdxLE_total notLater_total) _

/-- What is tried is read, and the value is that of the first ramp whose window contains the time,
or the rest. -/
theorem tryAll_spec {pairs : List (ClipRamp × Nat)} (h : ∀ p ∈ pairs, p.1.Writable)
    (hordered : pairs.Pairwise fun a b => List.zipIdxLE notLater a b) {rest : Binary64}
    (hrest : rest.isFinite) (t : Rat) :
    (tryAll (pairs.map Prod.fst) rest).Fits t ∧
      ((∃ p ∈ pairs, ∃ c, constants? p.1 = some c ∧ c.Contains t ∧
          (∀ q ∈ pairs, Shows q.1 t → List.zipIdxLE notLater p q) ∧
          (tryAll (pairs.map Prod.fst) rest).eval t = c.valueAt t) ∨
        (∀ p ∈ pairs, ¬ Shows p.1 t) ∧
          (tryAll (pairs.map Prod.fst) rest).eval t = written rest) := by
  induction pairs with
  | nil => exact ⟨hrest, .inr ⟨by simp, rfl⟩⟩
  | cons p pairs ih =>
      obtain ⟨hp, hlater⟩ := List.forall_mem_cons.mp h
      obtain ⟨hfirst, hordered⟩ := List.pairwise_cons.mp hordered
      obtain ⟨hfits, hchoice⟩ := ih hlater hordered
      obtain ⟨c, hc, hspec⟩ := exists_constants hp
      obtain ⟨hramp, hvalue, hcontains⟩ := hspec t
      obtain ⟨_, -, hstart⟩ := Window.exists_has_seconds hp.startMs_le
      obtain ⟨_, -, hend⟩ := Window.exists_has_seconds hp.endMs_le
      refine ⟨⟨hstart.isFinite, hend.isFinite, hramp, hfits⟩, ?_⟩
      rw [List.map_cons, tryAll, List.foldr_cons, Expr.eval]
      by_cases hshows : c.Contains t
      case pos =>
        rw [if_pos (hcontains.mp hshows), hvalue]
        refine .inl ⟨p, List.mem_cons_self, c, hc, hshows, ?_, rfl⟩
        rintro q hq -
        rcases List.mem_cons.mp hq with rfl | hq
        · exact zipIdxLE_notLater.mpr (.inr ⟨rfl, le_rfl⟩)
        · exact hfirst q hq
      case neg =>
        have hnot : ¬ Shows p.1 t := by rwa [shows_iff hp, ← hcontains]
        rw [if_neg (mt hcontains.mpr hshows)]
        rcases hchoice with ⟨q, hq, d, hd, hcontains, hleast, hvalue⟩ | ⟨hnone, hvalue⟩
        · refine .inl ⟨q, List.mem_cons_of_mem _ hq, d, hd, hcontains, ?_, hvalue⟩
          exact List.forall_mem_cons.mpr ⟨fun hshows => absurd hshows hnot, hleast⟩
        · exact .inr ⟨List.forall_mem_cons.mpr ⟨hnot, hnone⟩, hvalue⟩

/-- Ramps that begin at different times are asked in the order of their beginnings, however they
are listed. -/
theorem rampsExpr_perm {ramps others : List ClipRamp} (hperm : others.Perm ramps)
    (hstarts : (ramps.map (·.window.startMs)).Nodup) (rest : Binary64) :
    rampsExpr others rest = rampsExpr ramps rest := by
  have hpairwise (rs : List ClipRamp) : (rs.mergeSort notLater).Pairwise fun a b => notLater a b :=
    List.pairwise_mergeSort notLater_trans notLater_total rs
  have hsorted : others.mergeSort notLater = ramps.mergeSort notLater := by
    have hall := (List.mergeSort_perm others notLater).trans
      (hperm.trans (List.mergeSort_perm ramps notLater).symm)
    refine List.Perm.eq_of_pairwise (fun a b ha hb hab hba => ?_) (hpairwise others)
      (hpairwise ramps) hall
    refine List.inj_on_of_nodup_map hstarts (hperm.mem_iff.mp (List.mem_mergeSort.mp ha))
      (List.mem_mergeSort.mp hb) ?_
    exact le_antisymm (of_decide_eq_true hab) (of_decide_eq_true hba)
  exact congrArg (fun sorted => tryAll sorted rest) hsorted

/-- What is read of some ramps: at each time the value of the ramp that decides, or the rest where
none does. Ramps that begin at different times can be listed in any order. -/
theorem value?_rampsExpr {ramps : List ClipRamp} (h : ∀ r ∈ ramps, r.Writable) {rest : Binary64}
    (hrest : rest.isFinite) :
    (∀ r ∈ ramps, (constants? r).isSome) ∧ (read? rest).isSome ∧
    (∀ t, let value := Expression.value? t (rampsExpr ramps rest).text.toList
      (∃ i r c, Decides ramps t i r ∧ constants? r = some c ∧ value = some (c.valueAt t)) ∨
        (∀ r ∈ ramps, ¬ Shows r t) ∧ value = read? rest) ∧
    ((ramps.map (·.window.startMs)).Nodup → ∀ others : List ClipRamp, others.Perm ramps →
      (rampsExpr others rest).text = (rampsExpr ramps rest).text) := by
  have hlisted {r : ClipRamp} {i : Nat} (hr : (r, i) ∈ inOrder ramps) : r ∈ ramps :=
    List.mem_of_getElem? (mem_inOrder.mp hr)
  refine ⟨fun r hr => ?constants, by rw [read?_eq hrest]; rfl, fun t => ?value, ?order⟩
  case constants =>
    obtain ⟨c, hc, -⟩ := exists_constants (h r hr)
    rw [hc]
    rfl
  case value =>
    obtain ⟨hfits, hchoice⟩ := tryAll_spec (fun p hp => h p.1 (hlisted hp)) (pairwise_inOrder ramps)
      hrest t
    rw [← rampsExpr_eq] at hfits hchoice
    rw [Expr.value?_text hfits, read?_eq hrest]
    rcases hchoice with ⟨⟨r, i⟩, hr, c, hc, hcontains, hleast, hvalue⟩ | ⟨hnone, hvalue⟩
    · have hfirst (j : Nat) (other : ClipRamp) (hother : ramps[j]? = some other)
          (hshows : Shows other t) :=
        zipIdxLE_notLater.mp (hleast (other, j) (mem_inOrder.mpr hother) hshows)
      exact .inl ⟨i, r, c, ⟨mem_inOrder.mp hr, ⟨c, hc, hcontains⟩, hfirst⟩, hc,
        congrArg some hvalue⟩
    · refine .inr ⟨fun r hr => ?_, congrArg some hvalue⟩
      obtain ⟨i, hi⟩ := List.mem_iff_getElem?.mp hr
      exact hnone (r, i) (mem_inOrder.mpr hi)
  case order =>
    exact fun hstarts others hperm => congrArg Expr.text (rampsExpr_perm hperm hstarts rest)

/-- Two ramps that touch, the later one listed first. At the instant they share the earlier one
decides, and before both the rest. -/
theorem value?_rampsExpr_of_touching :
    let ramps : List ClipRamp := [⟨⟨1000, 2000⟩, 3, 1⟩, ⟨⟨0, 1000⟩, 1, 2.5⟩]
    (rampsExpr ramps.reverse 1.25).text = (rampsExpr ramps 1.25).text ∧
      Expression.value? 1 (rampsExpr ramps 1.25).text.toList = some (5 / 2) ∧
      Expression.value? (-1) (rampsExpr ramps 1.25).text.toList = some (5 / 4) := by
  intro ramps
  have hwritable : ∀ r ∈ ramps, r.Writable := by
    simp only [ramps, List.forall_mem_cons, List.not_mem_nil, false_implies, implies_true, and_true]
    exact ⟨⟨by decide, by decide, by decide +kernel, by decide +kernel, by decide +kernel⟩,
      ⟨by decide, by decide, by decide +kernel, by decide +kernel, by decide +kernel⟩⟩
  have hlate : constants? ⟨⟨1000, 2000⟩, 3, 1⟩ = some ⟨1, 2, 3, -2, 1⟩ := by decide +kernel
  have hearly : constants? ⟨⟨0, 1000⟩, 1, 2.5⟩ = some ⟨0, 1, 1, 3 / 2, 1⟩ := by decide +kernel
  obtain ⟨-, -, hvalue, horder⟩ := value?_rampsExpr hwritable
    (by decide +kernel : (1.25 : Binary64).isFinite)
  refine ⟨horder (by decide) _ (List.reverse_perm ramps), ?_, ?_⟩
  · have hshows : Shows ⟨⟨0, 1000⟩, 1, 2.5⟩ 1 := ⟨_, hearly, by decide +kernel, by decide +kernel⟩
    rcases hvalue 1 with ⟨i, r, c, hdecides, hc, hread⟩ | ⟨hnone, -⟩
    · have hfirst := hdecides.first 1 _ rfl hshows
      have hr := List.mem_of_getElem? hdecides.listed
      simp only [ramps, List.mem_cons, List.not_mem_nil, or_false] at hr
      rcases hr with rfl | rfl
      · simp at hfirst
      · cases hearly.symm.trans hc
        rw [hread]
        decide +kernel
    · exact absurd hshows (hnone _ (by simp [ramps]))
  · rcases hvalue (-1) with ⟨i, r, c, hdecides, hc, -⟩ | ⟨-, hread⟩
    · obtain ⟨d, hd, hcontains⟩ := hdecides.shows
      have hr := List.mem_of_getElem? hdecides.listed
      simp only [ramps, List.mem_cons, List.not_mem_nil, or_false] at hr
      rcases hr with rfl | rfl
      · cases hlate.symm.trans hd
        exact absurd hcontains.1 (by norm_num)
      · cases hearly.symm.trans hd
        exact absurd hcontains.1 (by norm_num)
    · rw [hread]
      decide +kernel

/-- Finite zooms whose difference is beyond all numbers: the change is written as no number. -/
theorem value?_rampsExpr_of_steep :
    let r : ClipRamp := ⟨⟨0, 1000⟩, -1e308, 1e308⟩
    r.zoomStart.isFinite ∧ r.zoomEnd.isFinite ∧ read? r.window.startSeconds = some 0 ∧
      read? r.window.endSeconds = some 1 ∧
      Expression.value? (1 / 2) (rampsExpr [r] 1).text.toList = none := by
  intro r
  refine ⟨by decide +kernel, by decide +kernel, by decide +kernel, by decide +kernel, ?_⟩
  rw [rampsExpr, List.mergeSort_singleton]
  simp only [List.foldr_cons, List.foldr_nil, rampExpr, Expr.text.eq_def, numberText, Decimal.fixed,
    String.toList_append, String.toList_ofList, toString]
  decide +kernel

end Zoom

end Montage
