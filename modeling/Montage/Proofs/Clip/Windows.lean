import Mathlib.Data.List.Forall2
import Montage.Proofs.Binary64.Accuracy
import Montage.Proofs.Clip.Translation

/-! # Windows of the clip

Clip time grows with the time of the source, at any speed an edit may have. So the window of a
source range lies inside the clip, and only what misses the trimmed range or is too short for a
millisecond of the clip has none. The layers of the clip are those of the edit that have a window,
in the same order. -/

namespace Montage

/-- A window that is not empty and ends no later than a clip of the given length. -/
structure Window.Inside (w : Window) (durationMs : Nat) : Prop where
  start_lt_end : w.startMs < w.endMs
  end_le : w.endMs ≤ durationMs

/-- A window that lies inside another one; it may be empty. -/
structure Window.Within (w outer : Window) : Prop where
  start_le : outer.startMs ≤ w.startMs
  ordered : w.startMs ≤ w.endMs
  le_end : w.endMs ≤ outer.endMs

theorem clampNat_mono (low high : Nat) {a b : Nat} (h : a ≤ b) :
    clampNat low high a ≤ clampNat low high b := by
  simp only [clampNat]
  omega

theorem le_clampNat {low high : Nat} (h : low ≤ high) (n : Nat) : low ≤ clampNat low high n := by
  simp only [clampNat]
  omega

theorem clampNat_le (low high n : Nat) : clampNat low high n ≤ high := Nat.min_le_right _ _

/-! ## Clip time -/

namespace Timeline

/-- The source is played forward, at a speed that is a number. -/
structure Forward (t : Timeline) : Prop where
  finite : t.speed.isFinite
  positive : 0 < t.speed

/-- Whether a source range has something in common with the trimmed one and is long enough for a
millisecond of the clip. -/
def shows (t : Timeline) (startMs endMs : Nat) : Bool :=
  t.overlaps startMs endMs && t.toClip startMs != t.toClip endMs

/-- The window of the clip over which a source range is shown. -/
def windowOf (t : Timeline) (startMs endMs : Nat) : Window := ⟨t.toClip startMs, t.toClip endMs⟩

variable {t : Timeline} {startMs endMs : Nat} {w : Window}

/-- A later instant of the source is not earlier in the clip. -/
theorem toClip_mono (h : t.Forward) {a b : Nat} (hab : a ≤ b) : t.toClip a ≤ t.toClip b := by
  have hclamp := clampNat_mono t.trimStartMs t.trimEndMs hab
  have hmono := Binary64.ofNat_mono (Nat.sub_le_sub_right hclamp t.trimStartMs)
  have hunsigned (n : Nat) : (Binary64.ofNat n / t.speed).Unsigned :=
    Binary64.unsigned_div (Binary64.unsigned_ofNat n) h.finite h.positive
  have hdiv := Binary64.div_mono (Binary64.unsigned_ofNat _) (Binary64.unsigned_ofNat _) hmono
    h.finite h.positive
  exact Binary64.toNatUpTo_mono _ (Binary64.unsigned_round (hunsigned _))
    (Binary64.unsigned_round (hunsigned _))
    (Binary64.round_mono (hunsigned _) (hunsigned _) hdiv)

/-- Nothing is shown after the end of the clip. -/
theorem toClip_le_duration (h : t.Forward) (instantMs : Nat) :
    t.toClip instantMs ≤ t.duration := by
  have hclamp : t.toClip instantMs =
      t.toClip (clampNat t.trimStartMs t.trimEndMs instantMs) := by
    have hidem : clampNat t.trimStartMs t.trimEndMs (clampNat t.trimStartMs t.trimEndMs instantMs) =
        clampNat t.trimStartMs t.trimEndMs instantMs := by
      simp only [clampNat]
      have := t.ordered
      omega
    rw [toClip, toClip, hidem]
  rw [hclamp]
  exact toClip_mono h (clampNat_le _ _ _)

theorem window?_eq_some : t.window? startMs endMs = some w ↔
    t.overlaps startMs endMs ∧ t.toClip startMs < t.toClip endMs ∧
      w = t.windowOf startMs endMs := by
  rw [window?, Option.ite_none_right_eq_some]
  constructor
  · rintro ⟨⟨hoverlaps, hlt⟩, hw⟩
    exact ⟨hoverlaps, hlt, (Option.some.inj hw).symm⟩
  · rintro ⟨hoverlaps, hlt, rfl⟩
    exact ⟨⟨hoverlaps, hlt⟩, rfl⟩

/-- The window of a source range lies inside the clip. -/
theorem inside_of_window? (h : t.Forward) (hw : t.window? startMs endMs = some w) :
    w.Inside t.duration := by
  obtain ⟨-, hlt, rfl⟩ := window?_eq_some.mp hw
  exact ⟨hlt, toClip_le_duration h endMs⟩

/-- A source range has a window exactly if it is shown. -/
theorem isSome_window? (h : t.Forward) (hle : startMs ≤ endMs) :
    (t.window? startMs endMs).isSome = t.shows startMs endMs := by
  have hlt : t.toClip startMs < t.toClip endMs ↔ t.toClip startMs ≠ t.toClip endMs :=
    ⟨Nat.ne_of_lt, Nat.lt_of_le_of_ne (toClip_mono h hle)⟩
  rw [Bool.eq_iff_iff, Option.isSome_iff_exists]
  simp [window?_eq_some, shows, hlt]

end Timeline

/-! ## Layers -/

/-- What a partial function makes of a list are its values on those elements that have one, in
order. -/
theorem forall₂_filterMap {α β : Type} {f : α → Option β} {p : α → Bool} {xs : List α}
    (h : ∀ x ∈ xs, (f x).isSome = p x) :
    List.Forall₂ (fun x y => f x = some y) (xs.filter p) (xs.filterMap f) := by
  induction xs with
  | nil => exact .nil
  | cons x xs ih =>
      have hrest := ih fun y hy => h y (List.mem_cons_of_mem _ hy)
      have hhead := h x List.mem_cons_self
      cases hf : f x with
      | none =>
          rw [hf] at hhead
          rw [List.filter_cons_of_neg (by simp [← hhead]), List.filterMap_cons_none hf]
          exact hrest
      | some y =>
          rw [hf] at hhead
          rw [List.filter_cons_of_pos (by simp [← hhead]), List.filterMap_cons_some hf]
          exact .cons hf hrest

/-- What becomes of some layers of an edit: the clip has those that are shown, in the same order,
each over the window of its range. -/
def Timeline.Moves {α β : Type} (t : Timeline) (range : α → Nat × Nat) (window : β → Window)
    (same : α → β → Prop) (layers : List α) (moved : List β) : Prop :=
  List.Forall₂
    (fun layer m => window m = t.windowOf (range layer).1 (range layer).2 ∧ same layer m)
    (layers.filter fun layer => t.shows (range layer).1 (range layer).2) moved

namespace Timeline

variable {α β : Type} {t : Timeline} {range : α → Nat × Nat} {window : β → Window}
  {same : α → β → Prop} {layers : List α} {moved : List β}

/-- Layers whose ranges are moved one by one. -/
theorem moves_of_filterMap {γ : Type} {f : α → Option γ} {wrap : β → γ} (h : t.Forward)
    (hmoved : layers.filterMap f = moved.map wrap)
    (hordered : ∀ layer ∈ layers, (range layer).1 ≤ (range layer).2)
    (hsome : ∀ layer ∈ layers, (f layer).isSome =
      (t.window? (range layer).1 (range layer).2).isSome)
    (hmove : ∀ layer m, f layer = some (wrap m) →
      t.window? (range layer).1 (range layer).2 = some (window m) ∧ same layer m) :
    t.Moves range window same layers moved := by
  have hall := forall₂_filterMap (f := f)
    (p := fun layer => t.shows (range layer).1 (range layer).2)
    fun layer hlayer => (hsome layer hlayer).trans (isSome_window? h (hordered layer hlayer))
  rw [hmoved, List.forall₂_map_right_iff] at hall
  refine hall.imp fun layer m hm => ?_
  obtain ⟨hw, hsame⟩ := hmove layer m hm
  exact ⟨(window?_eq_some.mp hw).2.2, hsame⟩

end Timeline

/-! ## Whole milliseconds

A clip time is the exact quotient by the speed, rounded twice. In a clip of up to a hundred thousand
years both roundings together move it by at most a millisecond, and instants more than a
millisecond of the clip apart keep different clip times. -/

namespace Timeline

open Binary64 (ofNat ofRat)

/-- A trimmed range and a clip that are both short enough for binary64 numbers to have places after
the point. -/
structure Precise (t : Timeline) : Prop where
  range : t.trimEndMs - t.trimStartMs < 2 ^ 52
  clip : t.duration < 2 ^ 52

/-- The source time from the beginning of the trimmed range to an instant moved into it. -/
def elapsed (t : Timeline) (instantMs : Nat) : Nat :=
  clampNat t.trimStartMs t.trimEndMs instantMs - t.trimStartMs

/-- The clip time of a source instant before it is rounded. -/
def exact (t : Timeline) (instantMs : Nat) : Rat := t.elapsed instantMs / t.speed.toRat

variable {t : Timeline} {a b : Nat}

theorem elapsed_le (t : Timeline) (a : Nat) : t.elapsed a ≤ t.trimEndMs - t.trimStartMs :=
  Nat.sub_le_sub_right (clampNat_le _ _ _) _

theorem exact_nonneg (h : t.Forward) (a : Nat) : 0 ≤ t.exact a :=
  div_nonneg (Nat.cast_nonneg _) (Binary64.toRat_pos h.finite h.positive).1.le

theorem toClip_eq (h : t.Forward) (ha : t.elapsed a < 2 ^ 53) :
    t.toClip a = (ofRat (t.exact a)).round.toNat64 := by
  have hquot : ofNat (t.elapsed a) / t.speed = ofRat (t.exact a) := by
    have hfinite : (ofNat (t.elapsed a)).isFinite :=
      Binary64.isFinite_ofRat (Nat.cast_nonneg _) (by exact_mod_cast ha.le.trans (by norm_num))
    rw [Binary64.div_eq_ofRat (Binary64.unsigned_ofNat _) hfinite h.finite h.positive,
      Binary64.toRat_ofNat ha, exact]
  rw [toClip, ← elapsed, hquot]

/-- What comes first in the trimmed range comes first in the clip. -/
theorem toClip_eq_zero (h : t.Forward) (ha : t.elapsed a = 0) : t.toClip a = 0 := by
  have hexact : t.exact a = 0 := by
    rw [exact, ha]
    simp
  rw [toClip_eq h (by omega), hexact]
  decide +kernel

theorem exact_lt (h : t.Forward) (hp : t.Precise) (a : Nat) : t.exact a < 2 ^ 52 := by
  by_contra hle
  have helapsed := (t.elapsed_le a).trans_lt hp.range
  have hmono := Binary64.ofRat_mono (by norm_num) (not_lt.mp hle)
  have hlow := Binary64.unsigned_ofRat (q := (2 : Rat) ^ 52) (by norm_num)
  have hhigh := Binary64.unsigned_ofRat (exact_nonneg h a)
  have hlong : (ofRat ((2 : Rat) ^ 52)).round.toNat64 ≤ t.toClip a := by
    rw [toClip_eq h (by omega)]
    exact Binary64.toNatUpTo_mono _ (Binary64.unsigned_round hlow) (Binary64.unsigned_round hhigh)
      (Binary64.round_mono hlow hhigh hmono)
  have hvalue : (ofRat ((2 : Rat) ^ 52)).round.toNat64 = 2 ^ 52 := by decide +kernel
  have := toClip_le_duration h a
  have := hp.clip
  omega

/-- A clip time is the integer nearest to the number nearest to the exact one. -/
theorem toClip_eq_nearestAway (h : t.Forward) (hp : t.Precise) (a : Nat) :
    (t.toClip a : Int) = Rounding.nearestAway (ofRat (t.exact a)).toRat := by
  have helapsed := (t.elapsed_le a).trans_lt hp.range
  have hbound := (exact_lt h hp a).le
  have hvalue : (ofRat (t.exact a)).toRat ≤ (2 : Rat) ^ 52 :=
    (Binary64.toRat_ofRat_mono (exact_nonneg h a) hbound (by norm_num)).trans_eq
      (by decide +kernel)
  rw [toClip_eq h (by omega)]
  exact Binary64.toNat64_round (Binary64.unsigned_ofRat (exact_nonneg h a))
    (Binary64.isFinite_ofRat (exact_nonneg h a) (hbound.trans (by norm_num))) hvalue

theorem toClip_near (h : t.Forward) (hp : t.Precise) (a : Nat) :
    (ofRat (t.exact a)).toRat - 1 / 2 < t.toClip a ∧
      (t.toClip a : Rat) ≤ (ofRat (t.exact a)).toRat + 1 / 2 := by
  have hvalue : (t.toClip a : Rat) = Rounding.nearestAway (ofRat (t.exact a)).toRat := by
    exact_mod_cast toClip_eq_nearestAway h hp a
  have hunsigned := Binary64.unsigned_ofRat (exact_nonneg h a)
  rw [hvalue]
  exact ⟨Rounding.lt_nearestAway hunsigned.toRat_nonneg,
    Rounding.nearestAway_le hunsigned.toRat_nonneg⟩

/-- A clip time is at most a millisecond off. -/
theorem abs_toClip_sub_exact_le (h : t.Forward) (hp : t.Precise) (a : Nat) :
    |(t.toClip a : Rat) - t.exact a| ≤ 1 := by
  obtain ⟨hlow, hhigh⟩ := toClip_near h hp a
  have hnear := abs_le.mp (Binary64.abs_toRat_ofRat_sub_le_half (exact_nonneg h a)
    ((exact_lt h hp a).trans (by norm_num)))
  rw [abs_le]
  constructor <;> linarith [hnear.1, hnear.2]

/-- Instants more than a millisecond of the clip apart have different clip times. -/
theorem toClip_lt_of_exact (h : t.Forward) (hp : t.Precise) (hab : t.exact a + 1 < t.exact b) :
    t.toClip a < t.toClip b := by
  have hlow := (toClip_near h hp b).1
  have hhigh := (toClip_near h hp a).2
  have hhalf := Binary64.half_le_ofRat (n := t.toClip a) (exact_nonneg h a) hab (exact_lt h hp b)
    (by push_cast; linarith)
  push_cast at hhalf
  have hlt : (t.toClip a : Rat) < t.toClip b := by linarith
  exact_mod_cast hlt

/-- At the speed of the source clip times are whole. -/
theorem toClip_eq_elapsed (h : t.Forward) (hp : t.Precise) (hspeed : t.speed.toRat = 1) (a : Nat) :
    t.toClip a = t.elapsed a := by
  have helapsed := (t.elapsed_le a).trans_lt hp.range
  have hvalue : (ofRat (t.exact a)).toRat = t.elapsed a := by
    rw [exact, hspeed, div_one]
    exact Binary64.toRat_ofNat (helapsed.trans (by decide))
  obtain ⟨hlow, hhigh⟩ := toClip_near h hp a
  rw [hvalue] at hlow hhigh
  have hupper : (t.toClip a : Rat) < t.elapsed a + 1 := by linarith
  have hlower : (t.elapsed a : Rat) < t.toClip a + 1 := by linarith
  exact Nat.le_antisymm (Nat.le_of_lt_succ (by exact_mod_cast hupper))
    (Nat.le_of_lt_succ (by exact_mod_cast hlower))

/-- Instants keep different clip times when more of the source is between them than is shown in a
millisecond, and at up to the speed of the source always. -/
theorem toClip_lt (h : t.Forward) (hp : t.Precise) (hab : t.elapsed a < t.elapsed b)
    (hspeed : t.speed.toRat ≤ 1 ∨ t.elapsed a + t.speed.toRat < t.elapsed b) :
    t.toClip a < t.toClip b := by
  have hpos := (Binary64.toRat_pos h.finite h.positive).1
  have hstep : (t.elapsed a : Rat) + 1 ≤ t.elapsed b := by exact_mod_cast hab
  by_cases hone : t.speed.toRat = 1
  · rw [toClip_eq_elapsed h hp hone, toClip_eq_elapsed h hp hone]
    exact hab
  · -- below the speed of the source a millisecond of it is more than a millisecond of the clip
    have hlong : t.elapsed a + t.speed.toRat < t.elapsed b := by
      refine hspeed.elim (fun hle => ?_) id
      linarith [lt_of_le_of_ne hle hone]
    refine toClip_lt_of_exact h hp ?_
    rw [exact, exact, div_add_one hpos.ne']
    exact div_lt_div_of_pos_right hlong hpos

end Timeline

end Montage
