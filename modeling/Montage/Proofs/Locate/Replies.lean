import Montage.Locate.Vision
import Montage.Proofs.Clip.Translation
import Montage.Proofs.Edit.Problems
import Montage.Proofs.Json.Records
import Montage.Proofs.Lists
import Montage.Proofs.Locate.Bounds
import Montage.Proofs.Locate.Regions

/-! # Replies that are accepted

A reply is a list of subjects, or an object with such a list as its member `subjects`. A subject is
an object again, or the list of its values. Members of other names may be there and are not looked
at, but a name that is looked at is there once at most. -/

namespace Montage

open List (Forall₂)

namespace Vision

open Json (valuesOf real?)

/-! ## The form of a reply -/

/-- A confidence that is left out, is null or is a number. -/
inductive IsConfidence : List Json → Option Binary64 → Prop
  | missing : IsConfidence [] none
  | null : IsConfidence [.null] none
  | given {j : Json} {x : Binary64} (h : real? j = some x) : IsConfidence [j] (some x)

/-- The forms of a subject. All keys of an object form characters. -/
inductive IsSubject : Json → Subject → Prop
  | members {members : List (Option String × Json)} {jx jy : Json} {x y : Binary64}
      {confidence : Option Binary64} (hkeys : ∀ m ∈ members, m.1.isSome)
      (hx : valuesOf "x" members = [jx]) (hjx : real? jx = some x)
      (hy : valuesOf "y" members = [jy]) (hjy : real? jy = some y)
      (hc : IsConfidence (valuesOf "confidence" members) confidence) :
      IsSubject (.object members) ⟨x, y, confidence⟩
  | items {jx jy : Json} {rest : List Json} {x y : Binary64} {confidence : Option Binary64}
      (hjx : real? jx = some x) (hjy : real? jy = some y) (hc : IsConfidence rest confidence) :
      IsSubject (.array (jx :: jy :: rest)) ⟨x, y, confidence⟩

/-- The two forms of a reply. -/
inductive IsReply : Json → List Subject → Prop
  | wrapped {members : List (Option String × Json)} {items : List Json} {subjects : List Subject}
      (hkeys : ∀ m ∈ members, m.1.isSome) (h : valuesOf "subjects" members = [.array items])
      (hs : Forall₂ IsSubject items subjects) : IsReply (.object members) subjects
  | bare {items : List Json} {subjects : List Subject} (hs : Forall₂ IsSubject items subjects) :
      IsReply (.array items) subjects

/-- A body that is a reply with these subjects. White space around it does not matter. It has
strings that form characters and numbers that are in range, and is not too deep. -/
def Reads (body : String) (subjects : List Subject) : Prop :=
  ∃ j, Json.read? (Text.trim body) = some j ∧ isWhole j ∧ j.depth ≤ maxDepth ∧ IsReply j subjects

/-- A subject inside the picture, with a confidence, if one is given, from zero to one. -/
structure Subject.Proper (s : Subject) : Prop where
  x : s.x.Within 0 1
  y : s.y.Within 0 1
  confidence : ∀ c ∈ s.confidence, c.Within 0 1

/-! ## Reading the forms -/

theorem nullable_iff {j : Json} {confidence : Option Binary64} :
    Json.nullable real? j = some confidence ↔ IsConfidence [j] confidence := by
  constructor
  · intro h
    rw [Json.nullable.eq_def] at h
    split at h
    case h_1 =>
      cases h
      exact .null
    case h_2 =>
      obtain ⟨x, hx, rfl⟩ := Option.map_eq_some_iff.mp h
      exact .given hx
  · rintro (_ | _ | h)
    · rfl
    · cases j <;> simp_all [Json.nullable, real?]

theorem isConfidence_nil {confidence : Option Binary64} :
    IsConfidence [] confidence ↔ none = confidence :=
  ⟨fun | .missing => rfl, fun h => h ▸ .missing⟩

/-- A confidence in an object, where the name is there once at most. -/
theorem optional_iff {f : Json.Fields} {name : String} {values : List Json}
    {confidence : Option Binary64} (h : f.slot name = Json.slotOfValues values)
    (hlength : values.length ≤ 1) :
    f.optional name real? = some confidence ↔ IsConfidence values confidence := by
  rw [Json.Fields.optional, Json.Fields.defaulted, h]
  cases values with
  | nil =>
      simp only [Json.slotOfValues, Option.some.injEq]
      exact isConfidence_nil.symm
  | cons j rest =>
      obtain rfl : rest = [] := List.length_eq_zero_iff.mp (by simpa using hlength)
      exact nullable_iff

theorem length_le_one {values : List Json} {confidence : Option Binary64}
    (h : IsConfidence values confidence) : values.length ≤ 1 := by
  cases h <;> simp

theorem ofJson?_object {members : List (Option String × Json)} {s : Subject} :
    Subject.ofJson? (.object members) = some s ↔ IsSubject (.object members) s := by
  simp only [Subject.ofJson?, Option.bind_eq_bind, Option.bind_eq_some_iff, Option.pure_def,
    Option.some.injEq, Json.fields?_object]
  constructor
  · rintro ⟨f, ⟨hkeys, hlengths, rfl⟩, x, hx, y, hy, confidence, hconfidence, rfl⟩
    obtain ⟨jx, hx, hjx⟩ := (Json.Fields.required_iff rfl (hlengths "x" (by simp))).mp hx
    obtain ⟨jy, hy, hjy⟩ := (Json.Fields.required_iff rfl (hlengths "y" (by simp))).mp hy
    exact .members hkeys hx hjx hy hjy
      ((optional_iff rfl (hlengths "confidence" (by simp))).mp hconfidence)
  · intro h
    cases h with
    | @members _ jx jy x y confidence hkeys hx hjx hy hjy hc =>
        refine ⟨_, ⟨hkeys, ?_, rfl⟩, x, ?_, y, ?_, confidence, ?_, rfl⟩
        · simpa [hx, hy] using length_le_one hc
        · exact (Json.Fields.required_iff rfl (by simp [hx])).mpr ⟨jx, hx, hjx⟩
        · exact (Json.Fields.required_iff rfl (by simp [hy])).mpr ⟨jy, hy, hjy⟩
        · exact (optional_iff rfl (length_le_one hc)).mpr hc

theorem isSubject_array {items : List Json} {s : Subject} : IsSubject (.array items) s ↔
    ∃ jx jy rest, items = jx :: jy :: rest ∧ real? jx = some s.x ∧ real? jy = some s.y ∧
      IsConfidence rest s.confidence := by
  constructor
  · intro h
    cases h with
    | items hjx hjy hc => exact ⟨_, _, _, rfl, hjx, hjy, hc⟩
  · rintro ⟨jx, jy, rest, rfl, hjx, hjy, hc⟩
    exact .items hjx hjy hc

theorem not_isConfidence_cons_cons {j j' : Json} {rest : List Json}
    {confidence : Option Binary64} : ¬ IsConfidence (j :: j' :: rest) confidence :=
  fun h => absurd (length_le_one h) (by simp)

theorem ofJson?_array {items : List Json} {s : Subject} :
    Subject.ofJson? (.array items) = some s ↔ IsSubject (.array items) s := by
  obtain ⟨x, y, confidence⟩ := s
  rw [isSubject_array]
  simp only [Subject.ofJson?, Json.fields?, Option.bind_eq_bind, Option.bind_eq_some_iff,
    Option.pure_def, Option.some.injEq]
  -- no items, one, two, three, and more than there are names
  rcases items with _ | ⟨jx, _ | ⟨jy, _ | ⟨jc, _ | ⟨more, rest⟩⟩⟩⟩
  · simp [Json.slotsOfItems, Json.Fields.required, Json.Fields.slot]
  · simp [Json.slotsOfItems, Json.Fields.required, Json.Fields.slot, List.lookup_cons]
  · simp [Json.slotsOfItems, Json.Fields.required, Json.Fields.optional, Json.Fields.defaulted,
      Json.Fields.slot, List.lookup_cons, isConfidence_nil]
  · simp [Json.slotsOfItems, Json.Fields.required, Json.Fields.optional, Json.Fields.defaulted,
      Json.Fields.slot, List.lookup_cons, nullable_iff]
  · simp [Json.slotsOfItems, not_isConfidence_cons_cons]

/-- A value is read as a subject if it has the form of one. -/
theorem ofJson?_iff {j : Json} {s : Subject} : Subject.ofJson? j = some s ↔ IsSubject j s := by
  cases j with
  | object members => exact ofJson?_object
  | array items => exact ofJson?_array
  | null | bool | number | string =>
      exact iff_of_false (by simp [Subject.ofJson?, Json.fields?]) (by rintro ⟨⟩)

theorem list?_iff {items : List Json} {subjects : List Subject} :
    Json.list? Subject.ofJson? (.array items) = some subjects ↔
      Forall₂ IsSubject items subjects := by
  simp only [Json.list?, mapM_eq_some_iff, ofJson?_iff]

/-- What is read under the name of the subjects. -/
theorem wrapped?_object {members : List (Option String × Json)} {subjects : List Subject} :
    wrapped? (.object members) = some subjects ↔ IsReply (.object members) subjects := by
  simp only [wrapped?, Option.bind_eq_bind, Option.bind_eq_some_iff, Json.fields?_object]
  constructor
  · rintro ⟨f, ⟨hkeys, hlengths, rfl⟩, hlist⟩
    obtain ⟨j, hj, hlist⟩ := (Json.Fields.required_iff rfl (hlengths "subjects" (by simp))).mp hlist
    cases j with
    | array items => exact .wrapped hkeys hj (list?_iff.mp hlist)
    | null | bool | number | string | object => cases hlist
  · intro h
    cases h with
    | wrapped hkeys h hs =>
        exact ⟨_, ⟨hkeys, by simp [h], rfl⟩,
          (Json.Fields.required_iff rfl (by simp [h])).mpr ⟨_, h, list?_iff.mpr hs⟩⟩

/-- A value is read as a reply if it has one of the two forms. -/
theorem isReply_iff {j : Json} {subjects : List Subject} :
    (wrapped? j).or (Json.list? Subject.ofJson? j) = some subjects ↔ IsReply j subjects := by
  cases j with
  | object members =>
      have hbare : Json.list? Subject.ofJson? (.object members) = none := rfl
      rw [hbare, Option.or_none, wrapped?_object]
  | array items =>
      have hwrapped : wrapped? (.array items) = none := rfl
      rw [hwrapped, Option.none_or, list?_iff]
      refine ⟨.bare, fun h => ?_⟩
      cases h with
      | bare hs => exact hs
  | null | bool | number | string =>
      exact iff_of_false (by simp [wrapped?, Json.list?]) (by rintro ⟨⟩)

/-- What is read of a body is what it has the form of. -/
theorem subjects?_eq_some {body : String} {subjects : List Subject} :
    subjects? body = some subjects ↔ Reads body subjects := by
  simp only [subjects?, Reads, Option.bind_eq_bind, Option.bind_eq_some_iff,
    Option.ite_none_right_eq_some, isReply_iff, and_assoc]

/-! ## What is accepted -/

theorem within_getD_iff {confidence : Option Binary64} :
    (confidence.getD 1).Within 0 1 ↔ ∀ c ∈ confidence, c.Within 0 1 := by
  cases confidence with
  | none => exact iff_of_true (Binary64.has_one.within zero_le_one le_rfl) (by simp)
  | some c => simp

theorem invalid?_eq_none_iff {s : Subject} : invalid? s = none ↔ s.Proper := by
  simp only [invalid?, List.find?_eq_none, List.forall_mem_cons, List.not_mem_nil, false_implies,
    implies_true, and_true, Bool.not_eq_true, Bool.not_eq_false', Binary64.inUnit_iff,
    within_getD_iff]
  exact ⟨fun ⟨hx, hy, hc⟩ => ⟨hx, hy, hc⟩, fun ⟨hx, hy, hc⟩ => ⟨hx, hy, hc⟩⟩

/-- The region of a subject at a place of a reply, if the subject is proper. -/
def place (width height : Nat) : Subject × Nat → Except Fault Region
  | (s, i) =>
      match invalid? s with
      | some (name, value) =>
          .error (.locatorTier tierName s!"subject {i} has invalid {name}: {Decimal.plain value}")
      | none => .ok (regionOf width height s)

variable {body : String} {width height : Nat} {complain : Complaint} {subjects : List Subject}

theorem place_eq_ok_iff {p : Subject × Nat} {r : Region} :
    place width height p = .ok r ↔ p.1.Proper ∧ regionOf width height p.1 = r := by
  rw [← invalid?_eq_none_iff, place]
  split
  case h_1 h => simp [h]
  case h_2 h => simp [h]

theorem exists_of_place_eq_error {p : Subject × Nat} {fault : Fault}
    (h : place width height p = .error fault) :
    ∃ message, fault = .locatorTier tierName message := by
  rw [place] at h
  split at h
  case h_1 =>
    cases h
    exact ⟨_, rfl⟩
  case h_2 => cases h

theorem regions_eq_mapM (h : subjects? body = some subjects) (hne : subjects ≠ []) :
    regions body width height complain = subjects.zipIdx.mapM (place width height) := by
  rw [regions, h]
  cases subjects with
  | nil => exact absurd rfl hne
  | cons s rest => rfl

theorem mapM_place_eq_ok_iff {found : List Region} :
    subjects.zipIdx.mapM (place width height) = .ok found ↔
      (∀ s ∈ subjects, s.Proper) ∧ found = subjects.map (regionOf width height) := by
  have hproper : (∀ p ∈ subjects.zipIdx, p.1.Proper) ↔ ∀ s ∈ subjects, s.Proper := by
    rw [← List.forall_mem_map (f := Prod.fst) (P := Subject.Proper), List.zipIdx_map_fst]
  have hfound : Forall₂ (fun p r => regionOf width height p.1 = r) subjects.zipIdx found ↔
      found = subjects.map (regionOf width height) := by
    have hmap : subjects.zipIdx.map (fun p => regionOf width height p.1) =
        subjects.map (regionOf width height) := by
      rw [← Function.comp_def, ← List.map_map, List.zipIdx_map_fst]
    have hleft := List.forall₂_map_left_iff (R := Eq)
      (f := fun p : Subject × Nat => regionOf width height p.1) (l := subjects.zipIdx) (u := found)
    rw [← hleft, hmap, List.forall₂_eq_eq_eq]
    exact eq_comm
  rw [mapM_eq_ok_iff, ← hproper, ← hfound, ← List.forall₂_and_left]
  simp only [place_eq_ok_iff]

/-- A reply is accepted if it lists subjects, all of them proper. Its regions are theirs, in
order. -/
theorem regions_eq_ok_iff {found : List Region} : regions body width height complain = .ok found ↔
    ∃ subjects, Reads body subjects ∧ subjects ≠ [] ∧ (∀ s ∈ subjects, s.Proper) ∧
      found = subjects.map (regionOf width height) := by
  simp only [← subjects?_eq_some]
  constructor
  · intro h
    cases hread : subjects? body with
    | none =>
        rw [regions, hread] at h
        cases h
    | some subjects =>
        have hne : subjects ≠ [] := by
          rintro rfl
          rw [regions, hread] at h
          cases h
        rw [regions_eq_mapM hread hne] at h
        exact ⟨subjects, rfl, hne, mapM_place_eq_ok_iff.mp h⟩
  · rintro ⟨subjects, hread, hne, hproper⟩
    rw [regions_eq_mapM hread hne]
    exact mapM_place_eq_ok_iff.mpr hproper

/-- What is not accepted is a fault of the tier. -/
theorem regions_cases (body : String) (width height : Nat) (complain : Complaint) :
    (∃ found, regions body width height complain = .ok found) ∨
      ∃ message, regions body width height complain = .error (.locatorTier tierName message) := by
  cases hread : subjects? body with
  | none => exact .inr ⟨_, by rw [regions, hread]⟩
  | some subjects =>
      by_cases hne : subjects = []
      · exact .inr ⟨_, by rw [regions, hread, hne]⟩
      · rw [regions_eq_mapM hread hne]
        cases hplaced : subjects.zipIdx.mapM (place width height) with
        | ok found => exact .inl ⟨found, rfl⟩
        | error fault =>
            obtain ⟨p, -, hp⟩ := exists_of_mapM_eq_error hplaced
            obtain ⟨message, rfl⟩ := exists_of_place_eq_error hp
            exact .inr ⟨message, rfl⟩

/-- The centre of a proper subject is inside the picture. -/
theorem inFrame_regionOf {s : Subject} (h : s.Proper) (hwidth : width ≤ Binary64.top32)
    (hheight : height ≤ Binary64.top32) : (regionOf width height s).InFrame width height :=
  ⟨Binary64.within_mul h.x (Binary64.le_mantBound_of_le_top32 hwidth),
    Binary64.within_mul h.y (Binary64.le_mantBound_of_le_top32 hheight),
    within_getD_iff.mpr h.confidence⟩

end Vision

/-! ## All tiers -/

namespace Locator

/-- What the tiers find in a picture of some size. A reply is accepted exactly if it has the form of
one and lists subjects that are proper, and the regions are theirs, in order; any other one is a
fault of the tier. All regions are inside the picture, and there are some if some are asked for. -/
structure FindsInFrame (width height : Nat) : Prop where
  accepted : ∀ body complain found, Vision.regions body width height complain = .ok found ↔
    ∃ subjects, Vision.Reads body subjects ∧ subjects ≠ [] ∧ (∀ s ∈ subjects, s.Proper) ∧
      found = subjects.map (Vision.regionOf width height)
  refused : ∀ body complain, (∀ found, Vision.regions body width height complain ≠ .ok found) →
    ∃ message, Vision.regions body width height complain = .error (.locatorTier "vision" message)
  vision : ∀ body complain found, Vision.regions body width height complain = .ok found →
    found ≠ [] ∧ ∀ r ∈ found, r.InFrame width height
  heuristic : ∀ picture : Picture, picture.width ≤ Binary64.top32 →
    picture.height ≤ Binary64.top32 → ∀ count found,
      Heuristic.regions? picture width height count = some found →
        (1 ≤ count → found ≠ []) ∧ ∀ r ∈ found, r.InFrame width height
  spread : ∀ count, Region.evenlySpaced width height count ≠ [] ∧
    (count ≤ 2 ^ 52 → ∀ r ∈ Region.evenlySpaced width height count, r.InFrame width height)

theorem findsInFrame {width height : Nat} (hwidth : width ≤ Binary64.top32)
    (hheight : height ≤ Binary64.top32) : FindsInFrame width height where
  accepted _ _ _ := Vision.regions_eq_ok_iff
  refused body complain h :=
    (Vision.regions_cases body width height complain).resolve_left fun ⟨found, hfound⟩ =>
      h found hfound
  vision body complain found h := by
    obtain ⟨subjects, -, hne, hproper, rfl⟩ := Vision.regions_eq_ok_iff.mp h
    refine ⟨mt List.map_eq_nil_iff.mp hne, fun r hr => ?_⟩
    obtain ⟨s, hs, rfl⟩ := List.mem_map.mp hr
    exact Vision.inFrame_regionOf (hproper s hs) hwidth hheight
  heuristic picture hpwidth hpheight count found h := by
    obtain ⟨hlength, hall⟩ := Heuristic.regions?_spec hpwidth hpheight hwidth hheight h
    refine ⟨fun hcount => List.length_pos_iff.mp ?_, hall⟩
    rw [hlength, Heuristic.columnCount]
    omega
  spread count := by
    refine ⟨List.length_pos_iff.mp ?_, Region.inFrame_evenlySpaced hwidth hheight⟩
    rw [Region.length_evenlySpaced]
    omega

/-- A reply with one subject. -/
theorem findsInFrame_of_reply :
    1920 ≤ Binary64.top32 ∧ 1080 ≤ Binary64.top32 ∧
      ∃ found, Vision.regions "[[0.5,0.25,0.75]]" 1920 1080 = .ok found ∧ found.length = 1 ∧
        ∀ r ∈ found, r.InFrame 1920 1080 := by
  have hok : (Vision.regions "[[0.5,0.25,0.75]]" 1920 1080).toOption.map (·.length) = some 1 := by
    decide +kernel
  have hwidth : 1920 ≤ Binary64.top32 := by decide
  have hheight : 1080 ≤ Binary64.top32 := by decide
  obtain ⟨found, hfound, hlength⟩ := Outcome.exists_of_map hok
  have hall := ((findsInFrame hwidth hheight).vision _ _ _ hfound).2
  exact ⟨hwidth, hheight, found, hfound, hlength, hall⟩

/-- Beyond the limits a reply of the right form is refused for a member that is not looked at, if
that is too deep, does not form characters or is out of range. And of too many centres the last one
is rounded past the edge. -/
theorem refused_of_note_outside_of_crowd :
    let notes : List (List Char) :=
      [List.replicate 127 '[' ++ List.replicate 127 ']', "\"\\ud800\"".toList, "1e999".toList]
    let body (note : List Char) : String := String.ofList
      ("\x7b\"subjects\":[\x7b\"x\":0.5,\"y\":0.5\x7d],\"note\":".toList ++ note ++ ['\x7d'])
    let subjects : List Vision.Subject := [⟨0.5, 0.5, none⟩]
    (∀ s ∈ subjects, s.Proper) ∧
      (∀ note ∈ notes,
        (∃ j, Json.read? (Text.trim (body note)) = some j ∧ Vision.IsReply j subjects) ∧
          Vision.regions (body note) 1920 1080 =
            .error (.locatorTier "vision" "malformed response")) ∧
      ∃ r ∈ Region.evenlySpaced 1920 1080 4803839602528534, ¬ r.InFrame 1920 1080 := by
  intro notes body subjects
  refine ⟨fun s hs => ?proper, fun note hnote => ⟨?form, ?refused⟩, ?outside⟩
  case proper =>
    rw [List.mem_singleton.mp hs]
    exact ⟨by decide +kernel, by decide +kernel, fun c hc => by cases hc⟩
  case form =>
    have hread : (Json.read? (Text.trim (body note))).bind
        (fun j => (Vision.wrapped? j).or (Json.list? Vision.Subject.ofJson? j)) =
          some subjects := by
      simp only [body, Text.trim, Json.read?, String.toList_ofList]
      revert note
      decide +kernel
    obtain ⟨j, hj, hform⟩ := Option.bind_eq_some_iff.mp hread
    exact ⟨j, hj, Vision.isReply_iff.mp hform⟩
  case refused =>
    have hnone : Vision.subjects? (body note) = none := by
      simp only [body, Vision.subjects?, Text.trim, Json.read?, String.toList_ofList]
      revert note
      decide +kernel
    rw [Vision.regions, hnone, Vision.tierName]
    rfl
  case outside =>
    refine ⟨_, List.mem_map.mpr ⟨4803839602528533, List.mem_range.mpr (by decide), rfl⟩, ?_⟩
    exact fun h => absurd h.centerX.2.2 (by decide +kernel)

end Locator

end Montage
