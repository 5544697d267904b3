import Mathlib.Data.List.Nodup
import Montage.Proofs.Json.Records

/-! # Schemas

A schema tells the members of records, which of them may be left out, and what a value means that is
left out. It is data, so that values that mean the same, and values that no reader of the schema may
accept, are told without any reader. A reader is faithful if it agrees. -/

namespace Montage.Json

/-- Whether a declared member may be left out. -/
inductive Presence where
  | required
  /-- A member that is left out has this value. -/
  | defaulted (usual : Json)
  /-- A member that is left out is null. -/
  | optional

/-- A declared member of a record. -/
structure Member (σ : Type 1) where
  name : String
  presence : Presence
  schema : σ

/-- The form of a value. What a scalar means is what its reader gives. -/
inductive Schema : Type 1 where
  | scalar {α : Type} (read : Json → Option α)
  | list (item : Schema)
  | record (members : List (Member Schema))

namespace Schema

variable {s : Schema} {ms : List (Member Schema)} {m : Member Schema} {j j' : Json}

/-- The declared names of a record. -/
def names (ms : List (Member Schema)) : List String := ms.map (·.name)

theorem mem_names (h : m ∈ ms) : m.name ∈ names ms := List.mem_map.mpr ⟨m, h, rfl⟩

theorem getElem?_names {i : Nat} (h : ms[i]? = some m) : (names ms)[i]? = some m.name := by
  rw [names, List.getElem?_map, h, Option.map_some]

/-- Values that mean the same. The members of an object may change places, unknown ones may be
added, and one that has a default or is optional may be written with what it means when it is left
out. All of that may happen anywhere inside. -/
inductive Same : Schema → Json → Json → Prop
  | refl {s : Schema} (j : Json) : Same s j j
  | symm {s : Schema} {j j' : Json} (h : Same s j j') : Same s j' j
  | trans {s : Schema} {j j' j'' : Json} (h : Same s j j') (h' : Same s j' j'') : Same s j j''
  | scalar {α : Type} {read : Json → Option α} {j j' : Json} {a : α} (h : read j = some a)
      (h' : read j' = some a) : Same (.scalar read) j j'
  | item {s : Schema} {before after : List Json} {j j' : Json} (h : Same s j j') :
      Same (.list s) (.array (before ++ j :: after)) (.array (before ++ j' :: after))
  | permuted {ms : List (Member Schema)} {xs ys : List (Option String × Json)} (h : xs.Perm ys) :
      Same (.record ms) (.object xs) (.object ys)
  | unknown {ms : List (Member Schema)} {xs : List (Option String × Json)} {key : String}
      {j : Json} (h : key ∉ names ms) :
      Same (.record ms) (.object xs) (.object ((some key, j) :: xs))
  | usual {ms : List (Member Schema)} {m : Member Schema} {xs : List (Option String × Json)}
      {usual : Json} (hm : m ∈ ms) (hp : m.presence = .defaulted usual)
      (habsent : valuesOf m.name xs = []) :
      Same (.record ms) (.object xs) (.object ((some m.name, usual) :: xs))
  | null {ms : List (Member Schema)} {m : Member Schema} {xs : List (Option String × Json)}
      (hm : m ∈ ms) (hp : m.presence = .optional) (habsent : valuesOf m.name xs = []) :
      Same (.record ms) (.object xs) (.object ((some m.name, .null) :: xs))
  | member {ms : List (Member Schema)} {m : Member Schema}
      {before after : List (Option String × Json)} {j j' : Json} (hm : m ∈ ms)
      (h : Same m.schema j j') :
      Same (.record ms) (.object (before ++ (some m.name, j) :: after))
        (.object (before ++ (some m.name, j') :: after))
  | place {ms : List (Member Schema)} {m : Member Schema} {before after : List Json}
      {j j' : Json} (hm : ms[before.length]? = some m) (h : Same m.schema j j') :
      Same (.record ms) (.array (before ++ j :: after)) (.array (before ++ j' :: after))

/-- Values of which some record has a declared member twice or lacks a required one. -/
inductive Broken : Schema → Json → Prop
  | item {s : Schema} {items : List Json} {j : Json} (hj : j ∈ items) (h : Broken s j) :
      Broken (.list s) (.array items)
  | twice {ms : List (Member Schema)} {m : Member Schema} {xs : List (Option String × Json)}
      (hm : m ∈ ms) (h : 2 ≤ (valuesOf m.name xs).length) : Broken (.record ms) (.object xs)
  | omitted {ms : List (Member Schema)} {m : Member Schema} {xs : List (Option String × Json)}
      (hm : m ∈ ms) (hp : m.presence = .required) (h : valuesOf m.name xs = []) :
      Broken (.record ms) (.object xs)
  | member {ms : List (Member Schema)} {m : Member Schema} {xs : List (Option String × Json)}
      {j : Json} (hm : m ∈ ms) (hj : (some m.name, j) ∈ xs) (h : Broken m.schema j) :
      Broken (.record ms) (.object xs)
  | cut {ms : List (Member Schema)} {m : Member Schema} {items : List Json} {i : Nat}
      (hm : ms[i]? = some m) (hp : m.presence = .required) (hi : items.length ≤ i) :
      Broken (.record ms) (.array items)
  | place {ms : List (Member Schema)} {m : Member Schema} {items : List Json} {i : Nat} {j : Json}
      (hm : ms[i]? = some m) (hj : items[i]? = some j) (h : Broken m.schema j) :
      Broken (.record ms) (.array items)

/-- A reader that reads values alike that mean the same, and does not read broken ones. -/
structure Faithful {α : Type} (s : Schema) (read : Json → Option α) : Prop where
  same : ∀ {j j'}, Same s j j' → read j = read j'
  broken : ∀ {j}, Broken s j → read j = none
  /-- Null does not mean the same as anything else. -/
  null : ∀ {j j'}, Same s j j' → (j = .null ↔ j' = .null)

/-- Values that are read alike, and of which both or none are null. -/
structure Alike {α : Type} (read : Json → Option α) (j j' : Json) : Prop where
  read_eq : read j = read j'
  null_iff : j = .null ↔ j' = .null

section Alike

variable {α : Type} {read : Json → Option α} {j'' : Json}

theorem Alike.refl (j : Json) : Alike read j j := ⟨rfl, Iff.rfl⟩

theorem Alike.symm (h : Alike read j j') : Alike read j' j := ⟨h.read_eq.symm, h.null_iff.symm⟩

theorem Alike.trans (h : Alike read j j') (h' : Alike read j' j'') : Alike read j j'' :=
  ⟨h.read_eq.trans h'.read_eq, h.null_iff.trans h'.null_iff⟩

theorem faithful_of_alike (hsame : ∀ {j j'}, Same s j j' → Alike read j j')
    (hbroken : ∀ {j}, Broken s j → read j = none) : Faithful s read :=
  ⟨fun h => (hsame h).read_eq, hbroken, fun h => (hsame h).null_iff⟩

theorem faithful_scalar (hnull : read .null = none) : Faithful (.scalar read) read := by
  refine faithful_of_alike (fun {j j'} h => ?_) fun h => nomatch h
  generalize hs : Schema.scalar read = s at h
  induction h with
  | refl => exact .refl _
  | symm _ ih => exact (ih hs).symm
  | trans _ _ ih ih' => exact (ih hs).trans (ih' hs)
  | scalar h h' =>
      cases hs
      have hne {j : Json} {a : α} (h : read j = some a) : j ≠ .null := by
        rintro rfl
        rw [hnull] at h
        cases h
      exact ⟨h.trans h'.symm, iff_of_false (hne h) (hne h')⟩
  | _ => cases hs

theorem faithful_list (hread : Faithful s read) : Faithful (.list s) (list? read) := by
  refine faithful_of_alike (fun {j j'} h => ?_) fun h => ?_
  · generalize hs : Schema.list s = t at h
    induction h with
    | refl => exact .refl _
    | symm _ ih => exact (ih hs).symm
    | trans _ _ ih ih' => exact (ih hs).trans (ih' hs)
    | item h =>
        cases hs
        refine ⟨?_, iff_of_false (by simp) (by simp)⟩
        simp only [list?, List.mapM_append, List.mapM_cons, hread.same h]
    | _ => cases hs
  · cases h with
    | item hj h =>
        rw [list?, Option.eq_none_iff_forall_ne_some]
        intro as has
        obtain ⟨a, ha⟩ := exists_forall₂_iff.mp ⟨as, mapM_eq_some_iff.mp has⟩ _ hj
        rw [hread.broken h] at ha
        cases ha

end Alike

/-! ## Records, member by member -/

/-- A function of the fields of a record that reads the declared members one after the other, each
with a faithful reader and with what it means when it is left out. -/
inductive Builds {α : Type} : List (Member Schema) → (Fields → Option α) → Prop
  | done (a : α) : Builds [] fun _ => some a
  | required {name : String} {s : Schema} {ms : List (Member Schema)} {β : Type}
      {read : Json → Option β} {rest : β → Fields → Option α} (hread : Faithful s read)
      (h : ∀ b, Builds ms (rest b)) :
      Builds (⟨name, .required, s⟩ :: ms) fun f => f.required name read >>= fun b => rest b f
  | defaulted {name : String} {usual : Json} {s : Schema} {ms : List (Member Schema)} {β : Type}
      {default : β} {read : Json → Option β} {rest : β → Fields → Option α}
      (hread : Faithful s read) (husual : read usual = some default) (h : ∀ b, Builds ms (rest b)) :
      Builds (⟨name, .defaulted usual, s⟩ :: ms)
        fun f => f.defaulted name default read >>= fun b => rest b f
  | optional {name : String} {s : Schema} {ms : List (Member Schema)} {β : Type}
      {read : Json → Option β} {rest : Option β → Fields → Option α} (hread : Faithful s read)
      (h : ∀ b, Builds ms (rest b)) :
      Builds (⟨name, .optional, s⟩ :: ms) fun f => f.optional name read >>= fun b => rest b f

/-- What stands at a name, before and after a change of which the meaning does not change. -/
inductive SameSlot (m : Member Schema) : Slot → Slot → Prop
  | refl (slot : Slot) : SameSlot m slot slot
  | given {j j' : Json} (h : Same m.schema j j') : SameSlot m (.given j) (.given j')
  | usual {usual : Json} (hp : m.presence = .defaulted usual) : SameSlot m .missing (.given usual)
  | null (hp : m.presence = .optional) : SameSlot m .missing (.given .null)

/-- A name at which a required member is missing, or something broken stands. -/
inductive BrokenSlot (m : Member Schema) : Slot → Prop
  | missing (hp : m.presence = .required) : BrokenSlot m .missing
  | beyond (hp : m.presence = .required) : BrokenSlot m .beyond
  | given {j : Json} (h : Broken m.schema j) : BrokenSlot m (.given j)

theorem Broken.ne_null (h : Broken s j) : j ≠ .null := by
  cases h <;> simp

theorem nullable_of_ne_null {α : Type} {read : Json → Option α} (h : j ≠ .null) :
    nullable read j = (read j).map some := by
  cases j <;> first | rfl | exact absurd rfl h

namespace Faithful

variable {α : Type} {read : Json → Option α} (hread : Faithful s read)

include hread

theorem nullable_eq (h : Same s j j') : nullable read j = nullable read j' := by
  by_cases hnull : j = .null
  · rw [hnull, (hread.null h).mp hnull]
  · rw [nullable_of_ne_null hnull, nullable_of_ne_null (mt (hread.null h).mpr hnull), hread.same h]

theorem nullable_eq_none (h : Broken s j) : nullable read j = none := by
  rw [nullable_of_ne_null h.ne_null, hread.broken h, Option.map_none]

end Faithful

section Members

variable {α β : Type} {build : Fields → Option α} {read : Json → Option β} {default : β}
  {name : String} {usual : Json} {f f' : Fields}

theorem SameSlot.required_eq (hread : Faithful s read)
    (h : SameSlot ⟨name, .required, s⟩ (f.slot name) (f'.slot name)) :
    f.required name read = f'.required name read := by
  rw [Fields.required, Fields.required]
  generalize f.slot name = slot, f'.slot name = slot' at h
  cases h with
  | refl => rfl
  | given h => exact hread.same h
  | usual hp | null hp => cases hp

theorem SameSlot.defaulted_eq (hread : Faithful s read) (husual : read usual = some default)
    (h : SameSlot ⟨name, .defaulted usual, s⟩ (f.slot name) (f'.slot name)) :
    f.defaulted name default read = f'.defaulted name default read := by
  rw [Fields.defaulted, Fields.defaulted]
  generalize f.slot name = slot, f'.slot name = slot' at h
  cases h with
  | refl => rfl
  | given h => exact hread.same h
  | usual hp =>
      cases hp
      exact husual.symm
  | null hp => cases hp

theorem SameSlot.optional_eq (hread : Faithful s read)
    (h : SameSlot ⟨name, .optional, s⟩ (f.slot name) (f'.slot name)) :
    f.optional name read = f'.optional name read := by
  rw [Fields.optional, Fields.optional, Fields.defaulted, Fields.defaulted]
  generalize f.slot name = slot, f'.slot name = slot' at h
  cases h with
  | refl => rfl
  | given h => exact hread.nullable_eq h
  | usual hp => cases hp
  | null => rfl

theorem BrokenSlot.required_eq_none (hread : Faithful s read)
    (h : BrokenSlot ⟨name, .required, s⟩ (f.slot name)) : f.required name read = none := by
  rw [Fields.required]
  generalize f.slot name = slot at h
  cases h with
  | missing | beyond => rfl
  | given h => exact hread.broken h

theorem BrokenSlot.defaulted_eq_none (default : β) (hread : Faithful s read)
    (h : BrokenSlot ⟨name, .defaulted usual, s⟩ (f.slot name)) :
    f.defaulted name default read = none := by
  rw [Fields.defaulted]
  generalize f.slot name = slot at h
  cases h with
  | missing hp | beyond hp => cases hp
  | given h => exact hread.broken h

theorem BrokenSlot.optional_eq_none (hread : Faithful s read)
    (h : BrokenSlot ⟨name, .optional, s⟩ (f.slot name)) : f.optional name read = none := by
  rw [Fields.optional, Fields.defaulted]
  generalize f.slot name = slot at h
  cases h with
  | missing hp | beyond hp => cases hp
  | given h => exact hread.nullable_eq_none h

/-- Fields that mean the same give the same. -/
theorem Builds.congr (h : Builds ms build)
    (hslots : ∀ m ∈ ms, SameSlot m (f.slot m.name) (f'.slot m.name)) : build f = build f' := by
  induction h with
  | done => rfl
  | required hread h ih =>
      rw [List.forall_mem_cons] at hslots
      simp only [SameSlot.required_eq hread hslots.1, fun b => ih b hslots.2]
  | defaulted hread husual h ih =>
      rw [List.forall_mem_cons] at hslots
      simp only [SameSlot.defaulted_eq hread husual hslots.1, fun b => ih b hslots.2]
  | optional hread h ih =>
      rw [List.forall_mem_cons] at hslots
      simp only [SameSlot.optional_eq hread hslots.1, fun b => ih b hslots.2]

/-- With something broken among the fields nothing is read. -/
theorem Builds.eq_none (h : Builds ms build) (hm : m ∈ ms)
    (hslot : BrokenSlot m (f.slot m.name)) : build f = none := by
  induction h with
  | done => cases hm
  | required hread h ih =>
      rcases List.mem_cons.mp hm with rfl | hm
      · simp only [BrokenSlot.required_eq_none hread hslot, Option.bind_eq_bind, Option.bind_none]
      · exact Option.bind_eq_none_iff.mpr fun b _ => ih b hm
  | @defaulted _ _ _ _ _ default _ _ hread husual h ih =>
      rcases List.mem_cons.mp hm with rfl | hm
      · simp only [BrokenSlot.defaulted_eq_none default hread hslot, Option.bind_eq_bind,
          Option.bind_none]
      · exact Option.bind_eq_none_iff.mpr fun b _ => ih b hm
  | optional hread h ih =>
      rcases List.mem_cons.mp hm with rfl | hm
      · simp only [BrokenSlot.optional_eq_none hread hslot, Option.bind_eq_bind, Option.bind_none]
      · exact Option.bind_eq_none_iff.mpr fun b _ => ih b hm

end Members

/-! ## Records -/

section Objects

variable {xs ys : List (Option String × Json)} {names : List String} {name : String} {f : Fields}

theorem valuesOf_cons_of_ne {key : Option String} (h : key ≠ some name) :
    valuesOf name ((key, j) :: xs) = valuesOf name xs :=
  List.filterMap_cons_none (if_neg h)

theorem valuesOf_cons_self : valuesOf name ((some name, j) :: xs) = j :: valuesOf name xs :=
  List.filterMap_cons_some (if_pos rfl)

theorem valuesOf_append : valuesOf name (xs ++ ys) = valuesOf name xs ++ valuesOf name ys :=
  List.filterMap_append

theorem mem_valuesOf : j ∈ valuesOf name xs ↔ (some name, j) ∈ xs := by
  simp [valuesOf, List.mem_filterMap]

/-- What an object has at a declared name. -/
theorem slot_of_object (h : fields? names (.object xs) = some f) (hname : name ∈ names) :
    f.slot name = slotOfValues (valuesOf name xs) := by
  obtain ⟨-, -, rfl⟩ := fields?_object.mp h
  clear h
  rw [Fields.slot]
  induction names with
  | nil => cases hname
  | cons other names ih =>
      rw [List.map_cons, List.lookup_cons]
      by_cases heq : name = other
      · rw [heq, beq_self_eq_true]
        rfl
      · rw [beq_false_of_ne heq]
        exact ih ((List.mem_cons.mp hname).resolve_left heq)

/-- What an array has at a declared name. -/
theorem slot_of_array {items : List Json} {i : Nat} (h : fields? names (.array items) = some f)
    (hnodup : names.Nodup) (hname : names[i]? = some name) :
    f.slot name = (items[i]?).elim .beyond .given := by
  obtain ⟨-, rfl⟩ := fields?_array.mp h
  clear h
  rw [Fields.slot]
  induction names generalizing items i with
  | nil => cases hname
  | cons other names ih =>
      obtain ⟨hother, hnodup⟩ := List.nodup_cons.mp hnodup
      cases i with
      | zero =>
          obtain rfl : other = name := Option.some.inj hname
          cases items <;> simp [List.replicate_succ]
      | succ i =>
          have hne : (name == other) = false :=
            beq_false_of_ne fun heq => hother (heq ▸ List.mem_of_getElem? hname)
          cases items with
          | nil => simpa [List.replicate_succ, List.lookup_cons, hne] using @ih [] i hnodup hname
          | cons item items => simpa [List.lookup_cons, hne] using @ih items i hnodup hname

end Objects

section Records

variable {α : Type} {build : Fields → Option α} {xs ys : List (Option String × Json)}

theorem bind_eq_bind {x y : Option Fields} (hsome : x.isSome ↔ y.isSome)
    (h : ∀ f f', x = some f → y = some f' → build f = build f') :
    (x >>= build) = (y >>= build) := by
  cases x with
  | none => rw [Option.not_isSome_iff_eq_none.mp (mt hsome.mpr (by simp))]
  | some f =>
      obtain ⟨f', hf'⟩ := Option.isSome_iff_exists.mp (hsome.mp rfl)
      rw [hf']
      exact h f f' rfl hf'

/-- Objects are read alike in which the declared names mean the same. -/
theorem read_object_eq (hbuild : Builds ms build)
    (hkeys : (∀ m ∈ xs, m.1.isSome) ↔ ∀ m ∈ ys, m.1.isSome)
    (honce : ∀ m ∈ ms, (valuesOf m.name xs).length ≤ 1 ↔ (valuesOf m.name ys).length ≤ 1)
    (hslots : ∀ m ∈ ms, (valuesOf m.name xs).length ≤ 1 →
      SameSlot m (slotOfValues (valuesOf m.name xs)) (slotOfValues (valuesOf m.name ys))) :
    (fields? (names ms) (.object xs) >>= build) = (fields? (names ms) (.object ys) >>= build) := by
  refine bind_eq_bind ?_ fun f f' h h' => hbuild.congr fun m hm => ?_
  · rw [isSome_fields?_object, isSome_fields?_object, hkeys, names, List.forall_mem_map,
      List.forall_mem_map]
    exact and_congr_right fun _ => forall₂_congr honce
  · rw [slot_of_object h (mem_names hm), slot_of_object h' (mem_names hm)]
    exact hslots m hm ((fields?_object.mp h).2.1 m.name (mem_names hm))

/-- Arrays are read alike in which the places mean the same. -/
theorem read_array_eq (hnames : (names ms).Nodup) (hbuild : Builds ms build)
    {items items' : List Json} (hlength : items.length = items'.length)
    (hslots : ∀ (i : Nat) (m : Member Schema), ms[i]? = some m →
      SameSlot m ((items[i]?).elim .beyond .given) ((items'[i]?).elim .beyond .given)) :
    (fields? (names ms) (.array items) >>= build) =
      (fields? (names ms) (.array items') >>= build) := by
  refine bind_eq_bind ?_ fun f f' h h' => hbuild.congr fun m hm => ?_
  · rw [isSome_fields?_array, isSome_fields?_array, hlength]
  · obtain ⟨i, hi⟩ := List.mem_iff_getElem?.mp hm
    rw [slot_of_array h hnames (getElem?_names hi), slot_of_array h' hnames (getElem?_names hi)]
    exact hslots i m hi

theorem eq_of_name_eq {m' : Member Schema} (hnames : (names ms).Nodup) (hm : m ∈ ms) (hm' : m' ∈ ms)
    (h : m.name = m'.name) : m = m' :=
  List.inj_on_of_nodup_map hnames hm hm' h

theorem read_permuted (hbuild : Builds ms build) (h : xs.Perm ys) :
    (fields? (names ms) (.object xs) >>= build) = (fields? (names ms) (.object ys) >>= build) := by
  have hvalues (name : String) : (valuesOf name xs).Perm (valuesOf name ys) := h.filterMap _
  refine read_object_eq hbuild (forall_congr' fun m => by rw [h.mem_iff])
    (fun m _ => by rw [(hvalues m.name).length_eq]) fun m _ hlength => ?_
  rw [show valuesOf m.name xs = valuesOf m.name ys from ?_]
  · exact .refl _
  · match hxs : valuesOf m.name xs, hlength with
    | [], _ => exact (List.nil_perm.mp (hxs ▸ hvalues m.name)).symm
    | [j], _ => exact List.singleton_perm.mp (hxs ▸ hvalues m.name)

theorem read_unknown (hbuild : Builds ms build) {key : String} (h : key ∉ names ms) :
    (fields? (names ms) (.object xs) >>= build) =
      (fields? (names ms) (.object ((some key, j) :: xs)) >>= build) := by
  have hvalues (m : Member Schema) (hm : m ∈ ms) :
      valuesOf m.name ((some key, j) :: xs) = valuesOf m.name xs :=
    valuesOf_cons_of_ne fun heq => h (Option.some.inj heq ▸ mem_names hm)
  refine read_object_eq hbuild (by simp) (fun m hm => by rw [hvalues m hm]) fun m hm _ => ?_
  rw [hvalues m hm]
  exact .refl _

/-- A member that is left out may be written with what it means then. -/
theorem read_written (hnames : (names ms).Nodup) (hbuild : Builds ms build) (hm : m ∈ ms)
    (habsent : valuesOf m.name xs = []) (h : SameSlot m .missing (.given j)) :
    (fields? (names ms) (.object xs) >>= build) =
      (fields? (names ms) (.object ((some m.name, j) :: xs)) >>= build) := by
  have hother (m' : Member Schema) (hne : m'.name ≠ m.name) :
      valuesOf m'.name ((some m.name, j) :: xs) = valuesOf m'.name xs :=
    valuesOf_cons_of_ne fun heq => hne (Option.some.inj heq).symm
  refine read_object_eq hbuild (by simp) (fun m' hm' => ?_) fun m' hm' _ => ?_
  · by_cases hname : m'.name = m.name
    · simp [hname, valuesOf_cons_self, habsent]
    · rw [hother m' hname]
  · by_cases hname : m'.name = m.name
    · obtain rfl := eq_of_name_eq hnames hm' hm hname
      rw [valuesOf_cons_self, habsent]
      exact h
    · rw [hother m' hname]
      exact .refl _

theorem read_member (hnames : (names ms).Nodup) (hbuild : Builds ms build) (hm : m ∈ ms)
    (h : Same m.schema j j') :
    (fields? (names ms) (.object (xs ++ (some m.name, j) :: ys)) >>= build) =
      (fields? (names ms) (.object (xs ++ (some m.name, j') :: ys)) >>= build) := by
  refine read_object_eq hbuild (by simp only [List.forall_mem_append, List.forall_mem_cons])
    (fun m' hm' => ?_) fun m' hm' hlength => ?_
  · by_cases hname : m'.name = m.name
    · simp [valuesOf_append, hname, valuesOf_cons_self]
    · simp [valuesOf_append, valuesOf_cons_of_ne, Ne.symm hname]
  · by_cases hname : m'.name = m.name
    · obtain rfl := eq_of_name_eq hnames hm' hm hname
      simp only [valuesOf_append, valuesOf_cons_self, List.length_append, List.length_cons] at *
      have hbefore : valuesOf m'.name xs = [] := List.length_eq_zero_iff.mp (by omega)
      rw [hbefore]
      exact .given h
    · simp only [valuesOf_append, valuesOf_cons_of_ne, Ne.symm hname, ne_eq, Option.some.injEq,
        not_false_eq_true]
      exact .refl _

theorem read_place (hnames : (names ms).Nodup) (hbuild : Builds ms build) {before after : List Json}
    (hm : ms[before.length]? = some m) (h : Same m.schema j j') :
    (fields? (names ms) (.array (before ++ j :: after)) >>= build) =
      (fields? (names ms) (.array (before ++ j' :: after)) >>= build) := by
  refine read_array_eq hnames hbuild (by simp) fun i m' hm' => ?_
  rcases Nat.lt_trichotomy i before.length with hi | rfl | hi
  · rw [List.getElem?_append_left hi, List.getElem?_append_left hi]
    exact .refl _
  · obtain rfl := Option.some.inj (hm.symm.trans hm')
    simp only [List.getElem?_append_right (Nat.le_refl _), Nat.sub_self, List.getElem?_cons_zero]
    exact .given h
  · obtain ⟨k, hk⟩ := Nat.exists_eq_add_of_lt hi
    have hoffset : i - before.length = k + 1 := by omega
    simp only [List.getElem?_append_right (Nat.le_of_lt hi), hoffset, List.getElem?_cons_succ]
    exact .refl _

theorem alike_of_same (hnames : (names ms).Nodup) (hbuild : Builds ms build)
    (h : Same (.record ms) j j') : Alike (fun j => fields? (names ms) j >>= build) j j' := by
  have hobject {xs ys : List (Option String × Json)} :
      Json.object xs = .null ↔ Json.object ys = .null := iff_of_false (by simp) (by simp)
  generalize hs : Schema.record ms = t at h
  induction h with
  | refl => exact .refl _
  | symm _ ih => exact (ih hs).symm
  | trans _ _ ih ih' => exact (ih hs).trans (ih' hs)
  | permuted h =>
      cases hs
      exact ⟨read_permuted hbuild h, hobject⟩
  | unknown h =>
      cases hs
      exact ⟨read_unknown hbuild h, hobject⟩
  | usual hm hp habsent =>
      cases hs
      exact ⟨read_written hnames hbuild hm habsent (.usual hp), hobject⟩
  | null hm hp habsent =>
      cases hs
      exact ⟨read_written hnames hbuild hm habsent (.null hp), hobject⟩
  | member hm h =>
      cases hs
      exact ⟨read_member hnames hbuild hm h, hobject⟩
  | place hm h =>
      cases hs
      exact ⟨read_place hnames hbuild hm h, iff_of_false (by simp) (by simp)⟩
  | _ => cases hs

/-- A record is not read that has a member twice, lacks a required one or has a broken one. -/
theorem read_eq_none_of_broken (hnames : (names ms).Nodup) (hbuild : Builds ms build)
    (h : Broken (.record ms) j) : (fields? (names ms) j >>= build) = none := by
  refine Option.bind_eq_none_iff.mpr fun f hf => ?_
  cases h with
  | twice hm h =>
      have honce := (fields?_object.mp hf).2.1 _ (mem_names hm)
      omega
  | omitted hm hp h =>
      refine hbuild.eq_none hm ?_
      rw [slot_of_object hf (mem_names hm), h]
      exact .missing hp
  | @member _ m xs j hm hj h =>
      refine hbuild.eq_none hm ?_
      have hmem := mem_valuesOf.mpr hj
      have hlength := (fields?_object.mp hf).2.1 _ (mem_names hm)
      rw [slot_of_object hf (mem_names hm)]
      match hvalues : valuesOf m.name xs, hlength with
      | [], _ => exact absurd (hvalues ▸ hmem) List.not_mem_nil
      | [j'], _ => exact .given (List.mem_singleton.mp (hvalues ▸ hmem) ▸ h)
  | cut hm hp hi =>
      refine hbuild.eq_none (List.mem_of_getElem? hm) ?_
      rw [slot_of_array hf hnames (getElem?_names hm), List.getElem?_eq_none hi]
      exact .beyond hp
  | place hm hj h =>
      refine hbuild.eq_none (List.mem_of_getElem? hm) ?_
      rw [slot_of_array hf hnames (getElem?_names hm), hj]
      exact .given h

/-- A record that is read member by member is read faithfully. -/
theorem faithful_record (hnames : (names ms).Nodup) (hbuild : Builds ms build) :
    Faithful (.record ms) fun j => fields? (names ms) j >>= build :=
  faithful_of_alike (alike_of_same hnames hbuild) (read_eq_none_of_broken hnames hbuild)

end Records

end Schema

end Montage.Json
