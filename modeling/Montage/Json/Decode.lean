import Montage.Binary64.Arith
import Montage.Json.Number

/-!
# Typed data

How a record is read from a value. A record is an object whose unknown members are ignored and
whose declared ones occur at most once, or an array with the declared members in order. A reader
gives `none` for every kind of mismatch.
-/

namespace Montage.Json

/-- What stands at a declared member: a value, nothing, or nothing because the record was written
as an array that ends before. -/
inductive Slot where
  | given (value : Json)
  | missing
  | beyond

/-- The declared members of a record, in order, each with what stands there. -/
abbrev Fields := List (String × Slot)

/-- The slot of a declared member among the members of an object. -/
def slotOf (members : List (Option String × Json)) (name : String) : Slot :=
  match members.find? fun m => m.1 == some name with
  | some (_, value) => .given value
  | none => .missing

/-- The slots of an array's items. -/
def slotsOfItems : List String → List Json → Option Fields
  | [], [] => some []
  | [], _ :: _ => none
  | name :: names, [] => (slotsOfItems names []).map ((name, .beyond) :: ·)
  | name :: names, item :: items => (slotsOfItems names items).map ((name, .given item) :: ·)

/-- The declared members of a record. -/
def fields? (names : List String) : Json → Option Fields
  | .object members =>
      if (members.all fun m => m.1.isSome) ∧
          (names.all fun name => (members.filter fun m => m.1 == some name).length ≤ 1) then
        some (names.map fun name => (name, slotOf members name))
      else none
  | .array items => slotsOfItems names items
  | _ => none

/-- The slot of a declared member. -/
def Fields.slot (f : Fields) (name : String) : Slot := (f.lookup name).getD .missing

/-- A member that must be there. -/
def Fields.required {α : Type} (f : Fields) (name : String) (read : Json → Option α) : Option α :=
  match f.slot name with
  | .given value => read value
  | _ => none

/-- A member that takes a default when it is not there. -/
def Fields.defaulted {α : Type} (f : Fields) (name : String) (default : α)
    (read : Json → Option α) : Option α :=
  match f.slot name with
  | .given value => read value
  | _ => some default

/-- Null is absence; every other value is read. -/
def nullable {α : Type} (read : Json → Option α) : Json → Option (Option α)
  | .null => some none
  | value => (read value).map some

/-- A member that may be null or left out, in either form of the record. -/
def Fields.optional {α : Type} (f : Fields) (name : String) (read : Json → Option α) :
    Option (Option α) :=
  f.defaulted name none (nullable read)

/-- A member that may be null or left out of an object, but not of an array. -/
def Fields.optionalMember {α : Type} (f : Fields) (name : String) (read : Json → Option α) :
    Option (Option α) :=
  match f.slot name with
  | .given value => nullable read value
  | .missing => some none
  | .beyond => none

/-- A string. -/
def string? : Json → Option String
  | .string s => s
  | _ => none

/-- A truth value. -/
def bool? : Json → Option Bool
  | .bool b => some b
  | _ => none

/-- An integer of at most `top`, not negative. -/
def natUpTo? (top : Nat) : Json → Option Nat
  | .number text =>
      match quantity? text with
      | some (.natural n) => if n ≤ top then some n else none
      | _ => none
  | _ => none

/-- A natural number of 64 bits. -/
def nat64? : Json → Option Nat := natUpTo? Binary64.top64

/-- A natural number of 32 bits. -/
def nat32? : Json → Option Nat := natUpTo? Binary64.top32

/-- A number of any form. -/
def real? : Json → Option Binary64
  | .number text =>
      (quantity? text).map fun
        | .natural n => .ofNat n
        | .negative n => -.ofNat n
        | .real x => x
  | _ => none

/-- An array whose items are all read. -/
def list? {α : Type} (read : Json → Option α) : Json → Option (List α)
  | .array items => items.mapM read
  | _ => none

/-- One of some names: as a string, or as the only member of an object, with the value null. -/
def choice? {α : Type} (ofName : String → Option α) : Json → Option α
  | .string (some name) => ofName name
  | .object [(some name, .null)] => ofName name
  | _ => none

end Montage.Json
