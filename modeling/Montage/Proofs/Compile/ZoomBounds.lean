import Montage.Proofs.Clip.Layers
import Montage.Proofs.Clip.Seconds
import Montage.Proofs.Compile.Expression

/-! # How far a zoom goes

The constants of a zoom are rounded one by one when they are written. A zoom is at least one all the
same: times are written exactly, and the first zoom of a ramp and the change over the ramp are
rounded the same way, so that a ramp down to one ends at one. -/

/-! ## The zoom as it is read

What the filters read of a zoom is what the zoom's expression says of it. -/

namespace Montage.Zoom

open Expression (Sum Term Atom)

namespace Expr

/-! ## Reading the expression -/

/-- An expression that needs no bracket anywhere. -/
def isAtom : Expr → Bool
  | time | number _ | bracket _ | min .. | within .. => true
  | _ => false

/-- An expression that needs no bracket unless something is divided by it. -/
def isTerm : Expr → Bool
  | add .. | sub .. => false
  | _ => true

/-- An expression whose brackets are those that its shape needs, and whose numbers are finite.
Nothing in it is divided by zero. -/
def Fits (t : Rat) : Expr → Prop
  | time => True
  | number value => value.isFinite
  | bracket inner => inner.Fits t
  | add left right | sub left right => left.Fits t ∧ right.Fits t ∧ right.isTerm
  | mul left right => left.Fits t ∧ right.Fits t ∧ left.isTerm ∧ right.isAtom
  | div left right =>
      left.Fits t ∧ right.Fits t ∧ left.isTerm ∧ right.isAtom ∧ right.eval t ≠ 0
  | min left right => left.Fits t ∧ right.Fits t
  | within startAt endAt inside outside =>
      startAt.isFinite ∧ endAt.isFinite ∧ inside.Fits t ∧ outside.Fits t

theorem written_eq (value : Binary64) : written value = Decimal.roundedTo 6 value.toRat := by
  rw [written, Decimal.roundedTo]
  norm_num

theorem atom_number {t : Rat} {value : Binary64} (h : value.isFinite) :
    Atom t (numberText value).toList (written value) := by
  rw [written_eq]
  exact .fixed (Binary64.has_toRat h) 6

/-- What is read of an expression. -/
structure Read (t : Rat) (e : Expr) : Prop where
  sum : Sum t e.text.toList (e.eval t)
  term : e.isTerm → Term t e.text.toList (e.eval t)
  atom : e.isAtom → Atom t e.text.toList (e.eval t)

theorem Read.of_atom {t : Rat} {e : Expr} (h : Atom t e.text.toList (e.eval t)) : e.Read t where
  sum := h.term.sum
  term := fun _ => h.term
  atom := fun _ => h

theorem Read.of_term {t : Rat} {e : Expr} (h : Term t e.text.toList (e.eval t))
    (hatom : e.isAtom = false) : e.Read t where
  sum := h.sum
  term := fun _ => h
  atom := fun heq => absurd (hatom.symm.trans heq) (by decide)

theorem Read.of_sum {t : Rat} {e : Expr} (h : Sum t e.text.toList (e.eval t))
    (hterm : e.isTerm = false) (hatom : e.isAtom = false) : e.Read t where
  sum := h
  term := fun heq => absurd (hterm.symm.trans heq) (by decide)
  atom := fun heq => absurd (hatom.symm.trans heq) (by decide)

theorem read_of_fits {t : Rat} {e : Expr} (h : e.Fits t) : e.Read t := by
  induction e with
  | time =>
      refine .of_atom ?_
      rw [text.eq_def, eval]
      exact Atom.time
  | number value =>
      refine .of_atom ?_
      rw [text.eq_def, eval]
      exact atom_number h
  | bracket inner ih =>
      refine .of_atom ?_
      rw [text.eq_def]
      simpa [eval, toString] using Atom.bracket (ih h).sum
  | add left right ihl ihr =>
      refine .of_sum ?_ rfl rfl
      rw [text.eq_def]
      simpa [eval, toString] using (ihl h.1).sum.add ((ihr h.2.1).term h.2.2)
  | sub left right ihl ihr =>
      refine .of_sum ?_ rfl rfl
      rw [text.eq_def]
      simpa [eval, toString] using (ihl h.1).sum.sub ((ihr h.2.1).term h.2.2)
  | mul left right ihl ihr =>
      refine .of_term ?_ rfl
      rw [text.eq_def]
      simpa [eval, toString] using ((ihl h.1).term h.2.2.1).mul ((ihr h.2.1).atom h.2.2.2)
  | div left right ihl ihr =>
      refine .of_term ?_ rfl
      obtain ⟨hl, hr, hterm, hatom, hne⟩ := h
      rw [text.eq_def]
      simpa [eval, toString] using ((ihl hl).term hterm).div ((ihr hr).atom hatom) hne
  | min left right ihl ihr =>
      refine .of_atom ?_
      have hcall := Atom.call (t := t) "min".toList (by decide)
        (.cons (ihl h.1).sum (.cons (ihr h.2).sum .nil)) (by simp) rfl
      rw [text.eq_def]
      simpa [eval, toString, min_def] using hcall
  | within startAt endAt inside outside ihi iho =>
      refine .of_atom ?_
      obtain ⟨hstart, hend, hinside, houtside⟩ := h
      have hbetween := Atom.call (t := t) "between".toList (by decide)
        (.cons Atom.time.term.sum (.cons (atom_number hstart).term.sum
          (.cons (atom_number hend).term.sum .nil))) (by simp) rfl
      have hcall := Atom.call (t := t) "if".toList (by decide)
        (.cons hbetween.term.sum (.cons (ihi hinside).sum (.cons (iho houtside).sum .nil)))
        (by simp) rfl
      rw [text.eq_def]
      simpa [eval, toString] using hcall

/-- An expression is read as it is meant. -/
theorem value?_text {t : Rat} {e : Expr} (h : e.Fits t) :
    Expression.value? t e.text.toList = some (e.eval t) :=
  Expression.value?_of_sum (read_of_fits h).sum

end Expr

end Montage.Zoom

namespace Montage

open Binary64 (Has rounded)

/-! ## Times -/

namespace Window

variable {ms : Nat}

theorem has_seconds_of_lt (h : ms < 2 ^ 36) : (seconds ms).Has (rounded ((ms : Rat) / 1000)) :=
  has_seconds (h.le.trans (by norm_num))

theorem abs_seconds_sub_le_of_lt (h : ms < 2 ^ 36) :
    |rounded ((ms : Rat) / 1000) - ms / 1000| ≤ 1 / 2 ^ 27 :=
  (abs_seconds_sub_le (k := 27) (h.le.trans (by norm_num))).trans_eq (by norm_num)

end Window

namespace Zoom.Expr

theorem written_of_has {x : Binary64} {v : Rat} (h : x.Has v) :
    written x = Decimal.roundedTo 6 v := by
  rw [written_eq, h.toRat_eq]

theorem one_le_written {x : Binary64} {v : Rat} (h : x.Has v) (hv : 1 ≤ v) : 1 ≤ written x := by
  rw [written_of_has h, ← Int.cast_one, ← Decimal.roundedTo_intCast 6 1]
  exact Decimal.roundedTo_mono 6 (by exact_mod_cast hv)

/-- A number of milliseconds is written exactly. -/
theorem written_eq_of_near {x : Binary64} {v : Rat} (h : x.Has v) (ms : Int)
    (hv : |v - ms / 1000| ≤ 1 / 2 ^ 24) : written x = ms / 1000 := by
  have hscaled : |v * 10 ^ 6 - ((ms * 1000 : Int) : Rat)| < 1 / 2 := by
    have hsplit : v * 10 ^ 6 - ((ms * 1000 : Int) : Rat) = (v - ms / 1000) * 10 ^ 6 := by
      push_cast
      ring
    rw [hsplit, abs_mul, abs_of_pos (by norm_num : (0 : Rat) < 10 ^ 6)]
    calc |v - ms / 1000| * 10 ^ 6 ≤ 1 / 2 ^ 24 * 10 ^ 6 :=
          mul_le_mul_of_nonneg_right hv (by norm_num)
      _ < 1 / 2 := by norm_num
  rw [written_of_has h, Decimal.roundedTo_eq hscaled]
  push_cast
  ring

theorem written_seconds {ms : Nat} (h : ms < 2 ^ 36) : written (Window.seconds ms) = ms / 1000 := by
  refine written_eq_of_near (Window.has_seconds_of_lt h) ms ?_
  rw [Int.cast_natCast]
  exact (Window.abs_seconds_sub_le_of_lt h).trans (by norm_num)

end Zoom.Expr

/-- On a share of the way from one zoom to another the zoom is at least one, if the whole way leads
to one or above. -/
theorem Zoom.one_le_of_share {first change share : Rat} (hfirst : 1 ≤ first)
    (hchange : 1 - first ≤ change) (hshare : 0 ≤ share) (hshare' : share ≤ 1) :
    1 ≤ first + change * share := by
  calc (1 : Rat) = first + (1 - first) * 1 := by ring
    _ ≤ first + (1 - first) * share := by
        linarith [mul_le_mul_of_nonpos_left hshare' (sub_nonpos.mpr hfirst)]
    _ ≤ first + change * share := by linarith [mul_le_mul_of_nonneg_right hchange hshare]

/-! ## The zoom of a ramp where it is cut -/

namespace ZoomRamp

variable {r : ZoomRamp} {instantMs : Nat}

/-- How far into a ramp an instant is, from zero to one, however long the ramp is. -/
theorem share_spec (hrange : r.startMs < r.endMs) (hinstant : instantMs - r.startMs < 2 ^ 53) :
    let share : Binary64 := .ofNat (instantMs - r.startMs) / .ofNat (r.endMs - r.startMs)
    ∃ s, ((share.clamp? 0 1).getD share).Has s ∧ 0 ≤ s ∧ s ≤ 1 := by
  intro share
  have hpart := Binary64.has_ofNat hinstant.le
  have hspan : 0 < Binary64.ofNat (r.endMs - r.startMs) := Binary64.pos_ofNat (by omega)
  have hnumber : share.isNaN = false := by
    by_cases hfinite : (Binary64.ofNat (r.endMs - r.startMs)).isFinite
    · rw [show share = _ from
        Binary64.div_eq_ofRat (Binary64.unsigned_ofNat _) hpart.isFinite hfinite hspan]
      exact Binary64.isNaN_ofRat _
    · -- a ramp without end: nothing of it is over
      have hinfinite := (Binary64.unsigned_ofNat (r.endMs - r.startMs)).eq_infinite hfinite
      obtain ⟨_, _, _, _, hvalue⟩ := Binary64.exists_eq_finite hpart.isFinite
      simp only [share, hinfinite, hvalue]
      rfl
  obtain ⟨y, hy⟩ := Option.isSome_iff_exists.mp
    ((Binary64.clamp?_isSome (x := share)).mpr (by decide +kernel : (0 : Binary64) ≤ 1))
  obtain ⟨hfinite, hlow, hhigh⟩ :=
    Binary64.within_of_clamp? hnumber Binary64.has_zero Binary64.has_one hy
  rw [hy]
  exact ⟨y.toRat, Binary64.has_toRat hfinite, hlow, hhigh⟩

/-- Rounding the way from one zoom to another never goes below one: the way down to one has no more
places than the first zoom. -/
theorem zoomAt_within (hrange : r.startMs < r.endMs) (hinstant : instantMs - r.startMs < 2 ^ 53)
    (hstart : r.zoomStart.Within 1 (2 ^ 40)) (hend : r.zoomEnd.Within 1 (2 ^ 40)) :
    (r.zoomAt instantMs).Within 1 (2 ^ 41) := by
  obtain ⟨s, hshare, hs, hs'⟩ := share_spec hrange hinstant
  obtain ⟨hfinite, ha, ha'⟩ := hstart
  obtain ⟨hfinite', hb, hb'⟩ := hend
  have hdown := Binary64.rounded_one_sub hfinite ha (ha'.trans_lt (by norm_num))
  have hfirst := Binary64.has_toRat hfinite
  have hlast := Binary64.has_toRat hfinite'
  revert ha ha' hb hb' hdown hfirst hlast
  generalize r.zoomStart.toRat = a
  generalize r.zoomEnd.toRat = b
  intro ha ha' hb hb' hdown hfirst hlast
  -- between the way down to one and the greatest zoom, rounding changes nothing of the bounds
  have hkept {q : Rat} (hlow : 1 - a ≤ q) (hhigh : q ≤ 2 ^ 40) :
      1 - a ≤ rounded q ∧ rounded q ≤ 2 ^ 40 ∧ |rounded q| < Binary64.overflow := by
    have hlow' : 1 - a ≤ rounded q := hdown.ge.trans (Binary64.rounded_mono hlow)
    have hhigh' : rounded q ≤ 2 ^ 40 := Binary64.rounded_le_two_pow hhigh
    have habs : |rounded q| ≤ 2 ^ 40 := abs_le.mpr ⟨by linarith, hhigh'⟩
    exact ⟨hlow', hhigh', habs.trans_lt (by decide +kernel)⟩
  have hchange := hlast.sub_of_nonneg hfirst (by linarith) (by linarith)
  obtain ⟨hlow, hhigh, -⟩ := hkept (q := b - a) (by linarith) (by linarith)
  have hpartlow : 1 - a ≤ rounded (b - a) * s := by
    linarith [Zoom.one_le_of_share ha hlow hs hs']
  have hparthigh : rounded (b - a) * s ≤ 2 ^ 40 := by nlinarith
  obtain ⟨hlow', hhigh', hsmall⟩ := hkept hpartlow hparthigh
  have hpart := hchange.mul hshare hsmall
  have hone := Binary64.one_le_rounded (q := a + rounded (rounded (b - a) * s)) (by linarith)
  have hmost := Binary64.rounded_le_two_pow (q := a + rounded (rounded (b - a) * s)) (k := 41)
    (by linarith)
  have hzoom := hfirst.add hpart
    ((abs_le.mpr ⟨by linarith, hmost⟩).trans_lt (by decide +kernel))
  exact ⟨hzoom.isFinite, hone.trans hzoom.toRat_eq.ge, hzoom.toRat_eq.le.trans hmost⟩

end ZoomRamp

/-! ## Ramps of a clip -/

/-- A ramp that lasts, in a clip of at most two years, between zooms that are at least one and have
places to spare. -/
structure ClipRamp.Moderate (r : ClipRamp) : Prop where
  ordered : r.window.startMs < r.window.endMs
  end_lt : r.window.endMs < 2 ^ 36
  zoomStart : r.zoomStart.Within 1 (2 ^ 41)
  zoomEnd : r.zoomEnd.Within 1 (2 ^ 41)

namespace Zoom

open Montage.Zoom.Expr (written)

theorem leastRamp_has : leastRamp.Has leastRamp.toRat := ⟨by decide +kernel, rfl⟩

theorem leastClip_has : leastClip.Has (rounded (1 / 1000)) := ⟨by decide +kernel, by decide +kernel⟩

variable {r : ClipRamp}

/-- The length of a ramp is written exactly; no ramp is as short as the shortest one. -/
theorem written_length (h : r.Moderate) :
    let length := (r.window.endSeconds - r.window.startSeconds).maximum leastRamp
    length.isFinite ∧
      written length = ((r.window.endMs : Rat) - r.window.startMs) / 1000 := by
  obtain ⟨v, hdiff, hnear⟩ :=
    Window.has_seconds_sub (k := 27) h.ordered.le (h.end_lt.le.trans (by norm_num)) (by decide)
  have hlasts : (r.window.startMs : Rat) + 1 ≤ r.window.endMs := by exact_mod_cast h.ordered
  have hleast : leastRamp.toRat < 1 / 5000 := by decide +kernel
  have hlow := (abs_le.mp hnear).1
  norm_num at hlow
  have hlength := hdiff.maximum leastRamp_has
  rw [max_eq_left (by linarith)] at hlength
  refine ⟨hlength.isFinite, (Expr.written_eq_of_near hlength
    ((r.window.endMs : Int) - r.window.startMs) ?_).trans (by push_cast; rfl)⟩
  rw [Int.cast_sub, Int.cast_natCast, Int.cast_natCast]
  exact hnear.trans (by norm_num)

/-- The change of a zoom that stays at one or above. -/
theorem has_change (h : r.Moderate) :
    (r.zoomEnd - r.zoomStart).Has (rounded (r.zoomEnd.toRat - r.zoomStart.toRat)) :=
  (Binary64.has_toRat h.zoomEnd.1).sub_of_nonneg (Binary64.has_toRat h.zoomStart.1)
    (zero_le_one.trans h.zoomEnd.2.1) (zero_le_one.trans h.zoomStart.2.1)

/-- The way down to one is written as what is missing to one. -/
theorem one_sub_written_le (h : r.Moderate) :
    1 - written r.zoomStart ≤ written (r.zoomEnd - r.zoomStart) := by
  rw [Expr.written_of_has (Binary64.has_toRat h.zoomStart.1), Expr.written_of_has (has_change h),
    ← Decimal.roundedTo_one_sub (by norm_num)]
  refine Decimal.roundedTo_mono 6 ?_
  rw [← Binary64.rounded_one_sub h.zoomStart.1 h.zoomStart.2.1
    (h.zoomStart.2.2.trans_lt (by norm_num))]
  exact Binary64.rounded_mono (by linarith [h.zoomEnd.2.1])

/-- A ramp is read as it is meant and stays at one or above between its ends. -/
theorem rampExpr_spec (h : r.Moderate) (t : Rat) :
    (rampExpr r).Fits t ∧ (written r.window.startSeconds ≤ t → t ≤ written r.window.endSeconds →
      1 ≤ (rampExpr r).eval t) := by
  obtain ⟨hlength, hwritten⟩ := written_length h
  have hfirst := Window.has_seconds_of_lt (h.ordered.trans h.end_lt)
  have hordered : (r.window.startMs : Rat) < r.window.endMs := by exact_mod_cast h.ordered
  have hpos : (0 : Rat) < (r.window.endMs - r.window.startMs) / 1000 :=
    div_pos (by linarith) (by norm_num)
  refine ⟨⟨h.zoomStart.1, ⟨⟨(has_change h).isFinite, ⟨trivial, hfirst.isFinite, rfl⟩, rfl, rfl⟩,
    hlength, rfl, rfl, ?_⟩, rfl⟩, fun hlow hhigh => ?_⟩
  · rw [Expr.eval, hwritten]
    exact hpos.ne'
  · simp only [rampExpr, Expr.eval, hwritten]
    rw [Window.startSeconds, Expr.written_seconds (h.ordered.trans h.end_lt)] at hlow ⊢
    rw [Window.endSeconds, Expr.written_seconds h.end_lt] at hhigh
    rw [mul_div_assoc]
    refine one_le_of_share (Expr.one_le_written (Binary64.has_toRat h.zoomStart.1) h.zoomStart.2.1)
      (one_sub_written_le h) (div_nonneg (by linarith) hpos.le) ?_
    rw [div_le_one hpos]
    linarith

/-- Ramps are read as they are meant, and never go below one. -/
theorem rampsExpr_spec {ramps : List ClipRamp} (h : ∀ r ∈ ramps, r.Moderate) {rest : Binary64}
    (hrest : rest.AtLeast 1) (t : Rat) :
    (rampsExpr ramps rest).Fits t ∧ 1 ≤ (rampsExpr ramps rest).eval t := by
  have hvalue := Binary64.has_toRat hrest.1
  have hsorted : ∀ r ∈ ramps.mergeSort fun a b => a.window.startMs ≤ b.window.startMs,
      r.Moderate := fun r hr => h r (List.mem_mergeSort.mp hr)
  rw [rampsExpr]
  generalize ramps.mergeSort (fun a b => a.window.startMs ≤ b.window.startMs) = sorted at hsorted ⊢
  -- outside the first ramp the later ones decide, and outside all of them the rest
  induction sorted with
  | nil => exact ⟨hrest.1, Expr.one_le_written hvalue hrest.2⟩
  | cons r sorted ih =>
      obtain ⟨hr, hlater⟩ := List.forall_mem_cons.mp hsorted
      obtain ⟨hfits, hone⟩ := ih hlater
      obtain ⟨hramp, hinside⟩ := rampExpr_spec hr t
      have hfirst := (Window.has_seconds_of_lt (hr.ordered.trans hr.end_lt)).isFinite
      have hlast := (Window.has_seconds_of_lt hr.end_lt).isFinite
      refine ⟨⟨hfirst, hlast, hramp, hfits⟩, ?_⟩
      rw [List.foldr_cons, Expr.eval]
      split
      case isTrue hbetween => exact hinside hbetween.1 hbetween.2
      case isFalse => exact hone

/-! ## The automatic zoom -/

/-- The automatic zoom rises evenly from its base until it reaches its cap. -/
theorem creepExpr_spec {base cap : Binary64} {durationMs : Nat} (hbase : base.AtLeast 1)
    (hcap : cap.isFinite) (hle : base.toRat ≤ cap.toRat) (hlasts : 1 ≤ durationMs)
    (hduration : durationMs < 2 ^ 36) :
    ∃ slope : Rat, 0 ≤ slope ∧ ∀ t, (creepExpr base cap (Window.seconds durationMs)).Fits t ∧
      (creepExpr base cap (Window.seconds durationMs)).eval t =
        min (written cap) (written base + slope * t) := by
  have hlow := Binary64.has_toRat hbase.1
  have hhigh := Binary64.has_toRat hcap
  have hrise := hhigh.sub_of_nonneg hlow (zero_le_one.trans (hbase.2.trans hle))
    (zero_le_one.trans hbase.2)
  have hlength := (Window.has_seconds_of_lt hduration).maximum leastClip_has
  have hlasts' : (1 : Rat) ≤ durationMs := by exact_mod_cast hlasts
  rw [max_eq_left (Binary64.rounded_mono (by linarith))] at hlength
  have hwritten : written ((Window.seconds durationMs).maximum leastClip) = durationMs / 1000 := by
    rw [Expr.written_of_has hlength, ← Expr.written_of_has (Window.has_seconds_of_lt hduration),
      Expr.written_seconds hduration]
  have hpos : (0 : Rat) < durationMs / 1000 := by positivity
  have hrises : 0 ≤ written (cap - base) := by
    rw [Expr.written_of_has hrise, ← Int.cast_zero, ← Decimal.roundedTo_intCast 6 0]
    refine Decimal.roundedTo_mono 6 ?_
    exact_mod_cast Binary64.rounded_nonneg (by linarith)
  refine ⟨written (cap - base) / (durationMs / 1000), div_nonneg hrises hpos.le, fun t => ⟨?_, ?_⟩⟩
  · refine ⟨hcap, hbase.1, ⟨⟨hrise.isFinite, trivial, rfl, rfl⟩, hlength.isFinite, rfl, rfl, ?_⟩,
      rfl⟩
    rw [Expr.eval, hwritten]
    exact hpos.ne'
  · simp only [creepExpr, Expr.eval, hwritten, ← min_def]
    rw [div_mul_eq_mul_div]

end Zoom

/-! ## Any zoom of a clip -/

/-- A clip of at most two years with zooms that are at least one and have places to spare. -/
structure Clip.Moderate (clip : Clip) : Prop where
  lasts : 1 ≤ clip.durationMs
  duration_lt : clip.durationMs < 2 ^ 36
  restZoom : clip.restZoom.AtLeast 1
  ramps : ∀ r ∈ clip.ramps, r.Moderate

/-- The clip of an accepted edit, if the edit has moderate zooms: those of a ramp stay moderate
where the ramp is cut. -/
theorem Clip.moderate_ofEdit {e : Edit} {clip : Clip} (h : ofEdit e = .ok clip)
    (htrim : e.trimEndMs < 2 ^ 36) (hduration : clip.durationMs < 2 ^ 36)
    (hzooms : ∀ r ∈ e.ramps, r.zoomStart.toRat < 2 ^ 40 ∧ r.zoomEnd.toRat < 2 ^ 40) :
    clip.Moderate := by
  have hin := inTime_ofEdit h
  have hlasts : 1 ≤ clip.durationMs := by
    obtain ⟨_, hmoved⟩ := moved_ofEdit h
    exact hmoved.lasts
  obtain ⟨hproblems, ordered, cutaways, stickers, -, -, -, rfl⟩ := ofEdit_eq_ok h
  have hlawful := Edit.problems_eq_nil_iff.mp hproblems
  refine ⟨hlasts, hduration, hlawful.restZoom, fun c hc => ?_⟩
  obtain ⟨r, hr, hshown⟩ := List.mem_filterMap.mp hc
  obtain ⟨-, hstart, hend⟩ := ZoomRamp.toClip?_eq_some.mp hshown
  obtain ⟨hrange, hzoom, hzoom'⟩ := hlawful.ramps r hr
  obtain ⟨hsmall, hsmall'⟩ := hzooms r hr
  have hwithin {instantMs : Nat} (hinstant : instantMs - r.startMs < 2 ^ 53) :
      (r.zoomAt instantMs).Within 1 (2 ^ 41) :=
    ZoomRamp.zoomAt_within hrange hinstant ⟨hzoom.1, hzoom.2, hsmall.le⟩
      ⟨hzoom'.1, hzoom'.2, hsmall'.le⟩
  have hlt := hlawful.trim
  obtain ⟨hordered, hle⟩ := hin.ramps c hc
  refine ⟨hordered, hle.trans_lt hduration, ?_, ?_⟩
  · rw [hstart]
    exact hwithin (by norm_num at htrim ⊢; omega)
  · rw [hend]
    exact hwithin (by norm_num at htrim ⊢; omega)

namespace Zoom

open Montage.Zoom.Expr (written)

variable {clip : Clip} {autoZoomMax : Binary64} {zoom : Expr} {t : Rat}

/-- The cap of the automatic zoom is finite and no less than its base. -/
theorem cap_spec (h : clip.Moderate) (hmax : autoZoomMax.isFinite) :
    (autoZoomMax.maximum clip.restZoom).isFinite ∧
      clip.restZoom.toRat ≤ (autoZoomMax.maximum clip.restZoom).toRat := by
  have hcap := (Binary64.has_toRat hmax).maximum (Binary64.has_toRat h.restZoom.1)
  exact ⟨hcap.isFinite, (le_max_right _ _).trans hcap.toRat_eq.ge⟩

/-- A zoom is read as it is meant, and it is at least one. -/
theorem expr?_spec (h : clip.Moderate) (hmax : autoZoomMax.isFinite)
    (hzoom : expr? clip autoZoomMax = some zoom) (ht : 0 ≤ t) :
    zoom.Fits t ∧ 1 ≤ zoom.eval t := by
  have hrest := Binary64.has_toRat h.restZoom.1
  obtain ⟨hcap, hle⟩ := cap_spec h hmax
  rw [expr?] at hzoom
  split_ifs at hzoom with hramps hauto hconstant
  · cases hzoom
    exact rampsExpr_spec h.ramps h.restZoom t
  · cases hzoom
    obtain ⟨slope, hslope, hcreep⟩ := creepExpr_spec h.restZoom hcap hle h.lasts h.duration_lt
    obtain ⟨hfits, heval⟩ := hcreep t
    refine ⟨hfits, ?_⟩
    rw [Clip.durationSeconds, heval]
    have hbase := Expr.one_le_written hrest h.restZoom.2
    have hhigh := Expr.one_le_written (Binary64.has_toRat hcap) (h.restZoom.2.trans hle)
    exact le_min hhigh (by linarith [mul_nonneg hslope ht])
  · cases hzoom
    exact ⟨h.restZoom.1, Expr.one_le_written hrest h.restZoom.2⟩

/-- Without ramps the zoom never falls, and it stays at the cap of the automatic zoom or below. -/
theorem expr?_rises (h : clip.Moderate) (hmax : autoZoomMax.isFinite)
    (hzoom : expr? clip autoZoomMax = some zoom) (hramps : clip.ramps = []) :
    Monotone (fun t => zoom.eval t) ∧
      ∀ t, zoom.eval t ≤ written (autoZoomMax.maximum clip.restZoom) := by
  have hrest := Binary64.has_toRat h.restZoom.1
  obtain ⟨hcap, hle⟩ := cap_spec h hmax
  rw [expr?, if_neg (not_not.mpr hramps)] at hzoom
  split_ifs at hzoom with hrises hconstant
  · cases hzoom
    obtain ⟨slope, hslope, hcreep⟩ := creepExpr_spec h.restZoom hcap hle h.lasts h.duration_lt
    have heval (t : Rat) := (hcreep t).2
    simp only [Clip.durationSeconds, heval]
    exact ⟨fun t t' ht => min_le_min_left _ (by linarith [mul_le_mul_of_nonneg_left ht hslope]),
      fun t => min_le_left _ _⟩
  · cases hzoom
    refine ⟨monotone_const, fun t => ?_⟩
    rw [Expr.eval, Expr.written_of_has hrest, Expr.written_of_has (Binary64.has_toRat hcap)]
    exact Decimal.roundedTo_mono 6 hle

end Zoom

end Montage
