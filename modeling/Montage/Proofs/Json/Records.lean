import Montage.Json.Decode
import Montage.Proofs.Lists

/-! # The forms of a record

A record is an object or an array. What stands at its declared names is described without the
reader: in an object each of them is there once at most, and in an array they are in order. -/

namespace Montage.Json

open List (Forall₂)

/-! ## Members of an object -/

/-- The values of the members of a name, in order. -/
def valuesOf (name : String) (members : List (Option String × Json)) : List Json :=
  members.filterMap fun m => if m.1 = some name then some m.2 else none

/-- What stands at a name with these values. -/
def slotOfValues : List Json → Slot
  | [] => .missing
  | value :: _ => .given value

theorem slotOf_eq (name : String) (members : List (Option String × Json)) :
    slotOf members name = slotOfValues (valuesOf name members) := by
  induction members with
  | nil => rfl
  | cons m members ih =>
      by_cases h : m.1 = some name
      · rw [slotOf, List.find?_cons_of_pos (by simpa using h), valuesOf,
          List.filterMap_cons_some (by rw [if_pos h]), slotOfValues]
      · rw [slotOf] at ih ⊢
        rw [List.find?_cons_of_neg (by simpa using h), ih, valuesOf, valuesOf,
          List.filterMap_cons_none (by rw [if_neg h])]

theorem length_valuesOf (name : String) (members : List (Option String × Json)) :
    (valuesOf name members).length = (members.filter fun m => m.1 == some name).length := by
  induction members with
  | nil => rfl
  | cons m members ih =>
      by_cases h : m.1 = some name
      · rw [valuesOf, List.filterMap_cons_some (by rw [if_pos h]),
          List.filter_cons_of_pos (by simpa using h), List.length_cons, List.length_cons, ← ih,
          valuesOf]
      · rw [valuesOf, List.filterMap_cons_none (by rw [if_neg h]),
          List.filter_cons_of_neg (by simpa using h), ← ih, valuesOf]

/-- The declared members of an object. -/
theorem fields?_object {names : List String} {members : List (Option String × Json)} {f : Fields} :
    fields? names (.object members) = some f ↔
      (∀ m ∈ members, m.1.isSome) ∧ (∀ name ∈ names, (valuesOf name members).length ≤ 1) ∧
        f = names.map fun name => (name, slotOfValues (valuesOf name members)) := by
  rw [fields?, Option.ite_none_right_eq_some, Option.some.injEq, eq_comm (b := f), and_assoc]
  simp only [List.all_eq_true, decide_eq_true_eq, length_valuesOf, slotOf_eq]

theorem isSome_fields?_object {names : List String} {members : List (Option String × Json)} :
    (fields? names (.object members)).isSome ↔
      (∀ m ∈ members, m.1.isSome) ∧ ∀ name ∈ names, (valuesOf name members).length ≤ 1 := by
  rw [Option.isSome_iff_exists]
  constructor
  · rintro ⟨f, h⟩
    obtain ⟨hkeys, honce, -⟩ := fields?_object.mp h
    exact ⟨hkeys, honce⟩
  · rintro ⟨hkeys, honce⟩
    exact ⟨_, fields?_object.mpr ⟨hkeys, honce, rfl⟩⟩

/-- A member that must be there, where the name is there once at most. -/
theorem Fields.required_iff {α : Type} {f : Fields} {name : String} {values : List Json}
    {read : Json → Option α} {a : α} (h : f.slot name = slotOfValues values)
    (hlength : values.length ≤ 1) :
    f.required name read = some a ↔ ∃ j, values = [j] ∧ read j = some a := by
  rw [required, h]
  match values, hlength with
  | [], _ => simp [slotOfValues]
  | [j], _ => simp [slotOfValues]

/-! ## Items of an array -/

/-- The declared members of an array: its items, and nothing for the names after them. -/
theorem fields?_array {names : List String} {items : List Json} {f : Fields} :
    fields? names (.array items) = some f ↔ items.length ≤ names.length ∧
      f = names.zip (items.map .given ++
        List.replicate (names.length - items.length) .beyond) := by
  rw [fields?]
  induction names generalizing items f with
  | nil => cases items <;> simp [slotsOfItems, eq_comm]
  | cons name names ih =>
      cases items with
      | nil =>
          simp only [slotsOfItems, Option.map_eq_some_iff, ih, List.length_nil, Nat.zero_le,
            true_and, List.map_nil, List.nil_append, Nat.sub_zero, List.length_cons,
            List.replicate_succ, List.zip_cons_cons, exists_eq_left]
          exact eq_comm
      | cons item items =>
          simp only [slotsOfItems, Option.map_eq_some_iff, ih, List.length_cons,
            Nat.add_le_add_iff_right, List.map_cons, List.cons_append, List.zip_cons_cons,
            Nat.add_sub_add_right, and_assoc, exists_and_left, exists_eq_left]
          exact and_congr_right fun _ => eq_comm

theorem isSome_fields?_array {names : List String} {items : List Json} :
    (fields? names (.array items)).isSome ↔ items.length ≤ names.length := by
  rw [Option.isSome_iff_exists]
  exact ⟨fun ⟨f, h⟩ => (fields?_array.mp h).1, fun h => ⟨_, fields?_array.mpr ⟨h, rfl⟩⟩⟩

/-! ## Records -/

/-- The forms of a record, with what stands at each of its names. All keys of an object form
characters. -/
inductive IsRecord (names : List String) : Json → List Slot → Prop
  | members {members : List (Option String × Json)} (hkeys : ∀ m ∈ members, m.1.isSome)
      (honce : ∀ name ∈ names, (valuesOf name members).length ≤ 1) :
      IsRecord names (.object members) (names.map fun name => slotOfValues (valuesOf name members))
  | items {items : List Json} (hlength : items.length ≤ names.length) :
      IsRecord names (.array items)
        (items.map .given ++ List.replicate (names.length - items.length) .beyond)

variable {names : List String} {j : Json}

theorem fields?_iff {f : Fields} :
    fields? names j = some f ↔ ∃ slots, IsRecord names j slots ∧ f = names.zip slots := by
  cases j with
  | object members =>
      rw [fields?_object, List.map_prod_left_eq_zip]
      exact ⟨fun ⟨hkeys, honce, hf⟩ => ⟨_, .members hkeys honce, hf⟩,
        fun | ⟨_, .members hkeys honce, hf⟩ => ⟨hkeys, honce, hf⟩⟩
  | array items =>
      rw [fields?_array]
      exact ⟨fun ⟨hlength, hf⟩ => ⟨_, .items hlength, hf⟩,
        fun | ⟨_, .items hlength, hf⟩ => ⟨hlength, hf⟩⟩
  | null | bool | number | string =>
      exact iff_of_false (by simp [fields?]) (fun | ⟨_, h, _⟩ => nomatch h)

theorem IsRecord.length_eq {slots : List Slot} (h : IsRecord names j slots) :
    slots.length = names.length := by
  cases h with
  | members => exact List.length_map _
  | items hlength =>
      rw [List.length_append, List.length_map, List.length_replicate]
      exact Nat.add_sub_cancel' hlength

/-! ## What stands at a name -/

/-- Null, or a value of some form. -/
inductive IsNullable {α : Type} (R : Json → α → Prop) : Json → Option α → Prop
  | null : IsNullable R .null none
  | value {j : Json} {a : α} (hne : j ≠ .null) (h : R j a) : IsNullable R j (some a)

/-- An array whose items are all of some form. -/
inductive IsList {α : Type} (R : Json → α → Prop) : Json → List α → Prop
  | items {items : List Json} {as : List α} (h : Forall₂ R items as) : IsList R (.array items) as

namespace Slot

variable {α : Type} (R : Json → α → Prop) (default : α)

/-- A member that must be there. -/
inductive Required : Slot → α → Prop
  | given {j : Json} {a : α} (h : R j a) : Required (.given j) a

/-- A member with a default for when it is left out. -/
inductive Defaulted : Slot → α → Prop
  | given {j : Json} {a : α} (h : R j a) : Defaulted (.given j) a
  | missing : Defaulted .missing default
  | beyond : Defaulted .beyond default

/-- A member with a default for when it is left out of an object. An array has to have it. -/
inductive Omissible : Slot → α → Prop
  | given {j : Json} {a : α} (h : R j a) : Omissible (.given j) a
  | missing : Omissible .missing default

end Slot

section Forms

variable {α : Type} {read : Json → Option α} {R : Json → α → Prop}
  (h : ∀ {j a}, read j = some a ↔ R j a) {f : Fields} {name : String}

include h

theorem nullable_eq_some {a : Option α} : nullable read j = some a ↔ IsNullable R j a := by
  constructor
  · intro hread
    rw [nullable.eq_def] at hread
    split at hread
    case h_1 =>
      cases hread
      exact .null
    case h_2 hne =>
      obtain ⟨a, ha, rfl⟩ := Option.map_eq_some_iff.mp hread
      exact .value hne (h.mp ha)
  · rintro (_ | ⟨hne, ha⟩)
    · rfl
    · rw [nullable, h.mpr ha, Option.map_some]
      exact hne

theorem list?_eq_some {as : List α} : list? read j = some as ↔ IsList R j as := by
  cases j with
  | array items =>
      simp only [list?, mapM_eq_some_iff, h]
      exact ⟨.items, fun | .items hall => hall⟩
  | null | bool | number | string | object =>
      exact iff_of_false (by simp [list?]) (fun hlist => nomatch hlist)

theorem Fields.required_eq_some {a : α} :
    f.required name read = some a ↔ (f.slot name).Required R a := by
  rw [required]
  cases f.slot name with
  | given j => exact h.trans ⟨.given, fun | .given ha => ha⟩
  | missing | beyond => exact iff_of_false (by simp) (fun hslot => nomatch hslot)

theorem Fields.defaulted_eq_some {default a : α} :
    f.defaulted name default read = some a ↔ (f.slot name).Defaulted R default a := by
  rw [defaulted]
  cases f.slot name with
  | given j => exact h.trans ⟨.given, fun | .given ha => ha⟩
  | missing => exact Option.some_inj.trans ⟨fun heq => heq ▸ .missing, fun | .missing => rfl⟩
  | beyond => exact Option.some_inj.trans ⟨fun heq => heq ▸ .beyond, fun | .beyond => rfl⟩

theorem Fields.optional_eq_some {a : Option α} :
    f.optional name read = some a ↔ (f.slot name).Defaulted (IsNullable R) none a :=
  defaulted_eq_some (nullable_eq_some h)

theorem Fields.optionalMember_eq_some {a : Option α} :
    f.optionalMember name read = some a ↔ (f.slot name).Omissible (IsNullable R) none a := by
  rw [optionalMember]
  cases f.slot name with
  | given j => exact (nullable_eq_some h).trans ⟨.given, fun | .given ha => ha⟩
  | missing => exact Option.some_inj.trans ⟨fun heq => heq ▸ .missing, fun | .missing => rfl⟩
  | beyond => exact iff_of_false (by simp) (fun hslot => nomatch hslot)

end Forms

end Montage.Json
