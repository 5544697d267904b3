import Mathlib.Algebra.Order.Field.Rat
import Mathlib.Data.Prod.Lex
import Montage.Binary64.Arith

/-! # The order of binary64 numbers

What is not a number is comparable to nothing, so that `<` is irreflexive and asymmetric but not
total. Clamping stays inside its bounds and is idempotent. -/

namespace Montage.Binary64

theorem lt_def {x y : Binary64} : x < y ↔ x.isNaN = false ∧ y.isNaN = false ∧
    (x.place.1 < y.place.1 ∨ x.place.1 = y.place.1 ∧ x.place.2 < y.place.2) := by
  change lt x y = true ↔ _
  simp [lt, and_assoc]

theorem le_def {x y : Binary64} : x ≤ y ↔ x.isNaN = false ∧ y.isNaN = false ∧
    (x.place.1 < y.place.1 ∨ x.place.1 = y.place.1 ∧ x.place.2 ≤ y.place.2) := by
  change le x y = true ↔ _
  simp [le, and_assoc]

theorem lt_irrefl (x : Binary64) : ¬ x < x := by
  rw [lt_def]
  rintro ⟨-, -, h | ⟨-, h⟩⟩
  · exact Int.lt_irrefl _ h
  · exact Rat.lt_irrefl h

theorem not_lt_of_le {x y : Binary64} (h : x ≤ y) : ¬ y < x := by
  rw [le_def] at h
  rw [lt_def]
  obtain ⟨-, -, h⟩ := h
  rintro ⟨-, -, h'⟩
  rcases h with h | ⟨heq, h⟩
  · omega
  · rcases h' with h' | ⟨-, h'⟩
    · omega
    · exact Rat.not_lt.mpr h h'

/-! ## Numbers on the line

A comparison that holds is one of numbers, and those stand in line. -/

section Line

variable {x y z : Binary64}

theorem lt_iff_place (hx : x.isNaN = false) (hy : y.isNaN = false) :
    x < y ↔ toLex x.place < toLex y.place := by
  simp [lt_def, Prod.Lex.toLex_lt_toLex, hx, hy]

theorem le_iff_place (hx : x.isNaN = false) (hy : y.isNaN = false) :
    x ≤ y ↔ toLex x.place ≤ toLex y.place := by
  simp [le_def, Prod.Lex.toLex_le_toLex, hx, hy]

protected theorem le_refl (hx : x.isNaN = false) : x ≤ x := (le_iff_place hx hx).mpr le_rfl

protected theorem le_of_lt (h : x < y) : x ≤ y := by
  obtain ⟨hx, hy, -⟩ := lt_def.mp h
  exact (le_iff_place hx hy).mpr ((lt_iff_place hx hy).mp h).le

protected theorem lt_of_not_le (hx : x.isNaN = false) (hy : y.isNaN = false) (h : ¬ x ≤ y) :
    y < x := by
  rw [le_iff_place hx hy, not_le] at h
  exact (lt_iff_place hy hx).mpr h

protected theorem le_of_not_lt (hx : x.isNaN = false) (hy : y.isNaN = false) (h : ¬ y < x) :
    x ≤ y := by
  rw [lt_iff_place hy hx, not_lt] at h
  exact (le_iff_place hx hy).mpr h

protected theorem lt_of_lt_of_le (h : x < y) (h' : y ≤ z) : x < z := by
  obtain ⟨hx, hy, -⟩ := lt_def.mp h
  obtain ⟨-, hz, -⟩ := le_def.mp h'
  exact (lt_iff_place hx hz).mpr
    (((lt_iff_place hx hy).mp h).trans_le ((le_iff_place hy hz).mp h'))

protected theorem lt_of_le_of_lt (h : x ≤ y) (h' : y < z) : x < z := by
  obtain ⟨hx, hy, -⟩ := le_def.mp h
  obtain ⟨-, hz, -⟩ := lt_def.mp h'
  exact (lt_iff_place hx hz).mpr
    (((le_iff_place hx hy).mp h).trans_lt ((lt_iff_place hy hz).mp h'))

/-- The lesser of two numbers is at most the second one, also if the first one is not a number. -/
theorem minimum_le_right (hy : y.isNaN = false) : x.minimum y ≤ y := by
  rw [minimum]
  split
  case isTrue => exact Binary64.le_refl hy
  case isFalse hx =>
    split
    case isTrue hnan => exact absurd (hnan.symm.trans hy) (by decide)
    case isFalse =>
      split
      case isTrue => exact Binary64.le_refl hy
      case isFalse hlt => exact Binary64.le_of_not_lt (Bool.eq_false_iff.mpr hx) hy hlt

end Line

/-! ## Clamping -/

/-- A number is clamped to one within the bounds. -/
theorem clamp?_bounds {x y low high : Binary64} (hx : x.isNaN = false)
    (h : x.clamp? low high = some y) : low ≤ y ∧ y ≤ high := by
  rw [clamp?] at h
  split at h
  case isFalse => cases h
  case isTrue hle =>
    obtain ⟨hlow, hhigh, -⟩ := le_def.mp hle
    split at h
    case isTrue =>
      cases h
      exact ⟨Binary64.le_refl hlow, hle⟩
    case isFalse hxlow =>
      split at h
      case isTrue =>
        cases h
        exact ⟨hle, Binary64.le_refl hhigh⟩
      case isFalse hxhigh =>
        cases h
        exact ⟨Binary64.le_of_not_lt hlow hx hxlow, Binary64.le_of_not_lt hx hhigh hxhigh⟩

/-- Clamping keeps a number below what is not below the lower bound. -/
theorem clamp?_le {x y z low high : Binary64} (hx : x ≤ z) (hlow : low ≤ z)
    (h : x.clamp? low high = some y) : y ≤ z := by
  rw [clamp?] at h
  split at h
  case isFalse => cases h
  case isTrue hle =>
    split at h
    case isTrue =>
      cases h
      exact hlow
    case isFalse =>
      split at h
      case isTrue hhigh =>
        cases h
        exact Binary64.le_of_lt (Binary64.lt_of_lt_of_le hhigh hx)
      case isFalse =>
        cases h
        exact hx

theorem clamp?_isSome {x low high : Binary64} : (x.clamp? low high).isSome ↔ low ≤ high := by
  rw [clamp?]
  split <;> simp_all

/-- What was clamped is not changed by clamping it again. -/
theorem clamp?_of_clamp? {x y low high : Binary64} (h : x.clamp? low high = some y) :
    y.clamp? low high = some y := by
  have hle : low ≤ high := clamp?_isSome.mp (by rw [h]; rfl)
  rw [clamp?, if_pos hle, Option.some.injEq] at h ⊢
  split at h
  case isTrue =>
    subst h
    simp [lt_irrefl, not_lt_of_le hle]
  case isFalse hlow =>
    split at h
    case isTrue =>
      subst h
      simp [lt_irrefl, not_lt_of_le hle]
    case isFalse hhigh =>
      subst h
      simp [hlow, hhigh]

/-! ## Natural numbers -/

theorem signBit_ofRat {q : Rat} (hq : 0 ≤ q) : (ofRat q).signBit = false := by
  have hneg : decide (q < 0) = false := decide_eq_false (Rat.not_lt.mpr hq)
  have hparts (mant : Nat) (exp : Int) : (ofParts false mant exp).signBit = false := by
    rw [ofParts]
    split <;> rfl
  simp only [ofRat, ofRatSigned, hneg]
  split
  · rfl
  · split <;> exact hparts _ _

theorem isNaN_ofRat (q : Rat) : (ofRat q).isNaN = false := by
  have hparts (negative : Bool) (mant : Nat) (exp : Int) :
      (ofParts negative mant exp).isNaN = false := by
    rw [ofParts]
    split <;> rfl
  simp only [ofRat, ofRatSigned]
  split
  · rfl
  · split <;> exact hparts _ _ _

/-- A number without sign is not below zero. -/
theorem zero_le_of_signBit {x : Binary64} (hnan : x.isNaN = false) (hsign : x.signBit = false) :
    0 ≤ x := by
  have hzero : (0 : Binary64) = zero false := by decide
  rw [hzero, le_def]
  refine ⟨rfl, hnan, ?_⟩
  cases x with
  | finite negative mant exp h =>
      obtain rfl : negative = false := hsign
      refine .inr ⟨rfl, ?_⟩
      have hpow : (0 : Rat) ≤ (2 : Rat) ^ exp := zpow_nonneg (by decide) exp
      simpa [place, zero, toRat] using mul_nonneg (Nat.cast_nonneg mant) hpow
  | infinite negative =>
      obtain rfl : negative = false := hsign
      exact .inl (by decide)
  | undefined => cases hnan

theorem zero_le_ofNat (n : Nat) : 0 ≤ ofNat n :=
  zero_le_of_signBit (isNaN_ofRat n) (signBit_ofRat (by exact_mod_cast Nat.zero_le n))

end Montage.Binary64
