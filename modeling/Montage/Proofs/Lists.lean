import Mathlib.Data.List.Forall2
import Montage.Fault

/-! # Lists, element by element

A partial function has a value on a list if it has one on each element. Sorting leaves elements
that tie in the order in which they stood. -/

namespace Montage

open List (Forall₂)

theorem exists_of_forall₂ {α β : Type} {R : α → β → Prop} {xs : List α} {ys : List β}
    (h : Forall₂ R xs ys) : ∀ y ∈ ys, ∃ x ∈ xs, R x y := by
  induction h with
  | nil => exact List.forall_mem_nil _
  | @cons x y xs ys hxy _ ih =>
      refine List.forall_mem_cons.mpr ⟨⟨x, List.mem_cons_self, hxy⟩, fun y hy => ?_⟩
      obtain ⟨x', hx', hxy⟩ := ih y hy
      exact ⟨x', List.mem_cons_of_mem x hx', hxy⟩

theorem exists_forall₂_iff {α β : Type} {R : α → β → Prop} {xs : List α} :
    (∃ ys, Forall₂ R xs ys) ↔ ∀ x ∈ xs, ∃ y, R x y := by
  induction xs with
  | nil => simp
  | cons x xs ih =>
      rw [List.forall_mem_cons, ← ih]
      simp only [List.forall₂_cons_left_iff]
      exact ⟨fun ⟨_, y, ys, hxy, hall, _⟩ => ⟨⟨y, hxy⟩, ys, hall⟩,
        fun ⟨⟨y, hxy⟩, ys, hall⟩ => ⟨y :: ys, y, ys, hxy, hall, rfl⟩⟩

theorem mapM_eq_some_iff {α β : Type} {f : α → Option β} {xs : List α} {ys : List β} :
    xs.mapM f = some ys ↔ Forall₂ (fun x y => f x = some y) xs ys := by
  induction xs generalizing ys with
  | nil => simp [List.forall₂_nil_left_iff, eq_comm]
  | cons x xs ih =>
      simp only [List.mapM_cons, List.forall₂_cons_left_iff, Option.bind_eq_bind, Option.pure_def,
        Option.bind_eq_some_iff, Option.some.injEq, ih]
      exact ⟨fun ⟨y, hy, ys, hys, heq⟩ => ⟨y, ys, hy, hys, heq.symm⟩,
        fun ⟨y, ys, hy, hys, heq⟩ => ⟨y, hy, ys, hys, heq.symm⟩⟩

/-- A computation on a list succeeds if it does on each element. -/
theorem mapM_eq_ok_iff {ε α β : Type} {f : α → Except ε β} {xs : List α} {ys : List β} :
    xs.mapM f = .ok ys ↔ Forall₂ (fun x y => f x = .ok y) xs ys := by
  induction xs generalizing ys with
  | nil => simp [List.forall₂_nil_left_iff, eq_comm, pure, Except.pure]
  | cons x xs ih =>
      simp only [List.mapM_cons, List.forall₂_cons_left_iff, bind_eq_ok_iff, pure, Except.pure,
        Except.ok.injEq, ih]
      exact ⟨fun ⟨y, hy, ys, hys, heq⟩ => ⟨y, ys, hy, hys, heq.symm⟩,
        fun ⟨y, ys, hy, hys, heq⟩ => ⟨y, hy, ys, hys, heq.symm⟩⟩

/-- A computation on a list fails as it does on some element. -/
theorem exists_of_mapM_eq_error {ε α β : Type} {f : α → Except ε β} {xs : List α} {e : ε}
    (h : xs.mapM f = .error e) : ∃ x ∈ xs, f x = .error e := by
  induction xs with
  | nil => cases h
  | cons x xs ih =>
      rw [List.mapM_cons] at h
      cases hx : f x with
      | error e' =>
          rw [hx] at h
          cases h
          exact ⟨x, List.mem_cons_self, hx⟩
      | ok y =>
          rw [hx] at h
          cases hxs : xs.mapM f with
          | error e' =>
              rw [hxs] at h
              cases h
              obtain ⟨x', hx', he⟩ := ih hxs
              exact ⟨x', List.mem_cons_of_mem x hx', he⟩
          | ok rest =>
              rw [hxs] at h
              cases h

/-- A list is shared among the numbers below a bound by a key of its elements. -/
theorem perm_flatMap_filter {α : Type} (key : α → Nat) (xs : List α) (n : Nat) :
    ((List.range n).flatMap fun k => xs.filter fun x => key x = k).Perm
      (xs.filter fun x => key x < n) := by
  induction n with
  | zero => simp
  | succ n ih =>
      have hbelow : (xs.filter fun x => key x < n + 1).filter (fun x => key x < n) =
          xs.filter fun x => key x < n := by
        rw [List.filter_filter]
        congr 1
        funext x
        grind
      have habove : (xs.filter fun x => key x < n + 1).filter (fun x => !decide (key x < n)) =
          xs.filter fun x => key x = n := by
        rw [List.filter_filter]
        congr 1
        funext x
        grind
      have hsplit := List.filter_append_perm (fun x => key x < n) (xs.filter fun x => key x < n + 1)
      rw [hbelow, habove] at hsplit
      rw [List.range_succ, List.flatMap_append, List.flatMap_singleton]
      exact (ih.append_right _).trans hsplit

/-! ## Sorting -/

section Sorting

variable {α : Type} {le : α → α → Bool} (htrans : ∀ a b c, le a b → le b c → le a c)
  (htotal : ∀ a b, (le a b || le b a) = true)

include htrans htotal

/-- Elements of which none comes before another one are sorted already, so that they are kept as
they stand. -/
theorem filter_mergeSort {p : α → Bool} (hties : ∀ a b, p a → p b → le a b) (xs : List α) :
    (xs.mergeSort le).filter p = xs.filter p := by
  have hclass : (xs.filter p).Pairwise fun a b => le a b := by
    apply List.pairwise_of_forall_mem_list
    intro a ha b hb
    exact hties a b (List.mem_filter.mp ha).2 (List.mem_filter.mp hb).2
  have hkept := (List.sublist_mergeSort htrans htotal hclass List.filter_sublist).filter p
  rw [List.filter_filter] at hkept
  simp only [Bool.and_self] at hkept
  exact (hkept.eq_of_length ((List.mergeSort_perm xs le).filter p).length_eq.symm).symm

/-- What holds along a list holds along the sorted one among elements that tie. -/
theorem pairwise_mergeSort_of_ties {R : α → α → Prop} {xs : List α} (h : xs.Pairwise R) :
    (xs.mergeSort le).Pairwise fun a b => le a b ∧ (le b a → R a b) := by
  rw [List.pairwise_iff_forall_sublist]
  intro a b hsub
  have hle : le a b := List.pairwise_iff_forall_sublist.mp
    (List.pairwise_mergeSort htrans htotal xs) hsub
  refine ⟨hle, fun hge => ?_⟩
  let tied (x : α) : Bool := le x a && le a x
  have hties (x y : α) (hx : tied x) (hy : tied y) : le x y :=
    htrans x a y (Bool.and_eq_true_iff.mp hx).1 (Bool.and_eq_true_iff.mp hy).2
  have hrefl : le a a := by simpa using htotal a a
  have hpair := hsub.filter tied
  rw [filter_mergeSort htrans htotal hties, List.filter_cons_of_pos (by simp [tied, hrefl]),
    List.filter_cons_of_pos (by simp [tied, hle, hge]), List.filter_nil] at hpair
  exact List.pairwise_iff_forall_sublist.mp h (hpair.trans List.filter_sublist)

end Sorting

end Montage
