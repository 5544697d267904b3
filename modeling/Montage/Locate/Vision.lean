import Montage.Edit.Check
import Montage.Edit.Subject
import Montage.Fault
import Montage.Json.Decode
import Montage.Json.Reader
import Montage.Text.Split

/-!
# Replies of the remote classifier

A reply lists subjects with coordinates between zero and one. It is an object with the member
`subjects`, or the list itself. Everything else is refused as a whole.
-/

namespace Montage.Vision

open Json (real? list? fields?)

/-- The name of the tier in faults. -/
def tierName : String := "vision"

/-- A subject of a reply. -/
structure Subject where
  x : Binary64
  y : Binary64
  confidence : Option Binary64
  deriving DecidableEq

/-- A subject from a value. -/
def Subject.ofJson? (j : Json) : Option Subject := do
  let f ← fields? ["x", "y", "confidence"] j
  return {
    x := ← f.required "x" real?
    y := ← f.required "y" real?
    confidence := ← f.optional "confidence" real? }

/-- The greatest depth of a reply. -/
def maxDepth : Nat := 127

mutual

/-- Whether every string of a value forms characters and every number is in range. -/
def isWhole : Json → Bool
  | .number text => (Json.quantity? text).isSome
  | .string s => s.isSome
  | .array items => areWhole items
  | .object members => membersWhole members
  | _ => true

/-- Whether all values of a list are whole. -/
def areWhole : List Json → Bool
  | [] => true
  | j :: rest => isWhole j && areWhole rest

/-- Whether all keys and values of a list of members are whole. -/
def membersWhole : List (Option String × Json) → Bool
  | [] => true
  | (key, j) :: rest => key.isSome && isWhole j && membersWhole rest

end

/-- The subjects under the member `subjects` of an object. -/
def wrapped? : Json → Option (List Subject)
  | .object members => do
      (← fields? ["subjects"] (.object members)).required "subjects" (list? Subject.ofJson?)
  | _ => none

/-- The subjects of a reply. -/
def subjects? (body : String) : Option (List Subject) := do
  let j ← Json.read? (Text.trim body)
  if isWhole j ∧ j.depth ≤ maxDepth then (wrapped? j).or (list? Subject.ofJson? j) else none

/-- The first value of a subject that is not in `[0, 1]`, with its name. -/
def invalid? (s : Subject) : Option (String × Binary64) :=
  [("x", s.x), ("y", s.y), ("confidence", s.confidence.getD 1)].find? fun (_, value) =>
    !value.inUnit

/-- The region of a subject; its confidence is full when the reply gives none. -/
def regionOf (width height : Nat) (s : Subject) : Region :=
  { centerX := s.x * .ofNat width
    centerY := s.y * .ofNat height
    confidence := s.confidence.getD 1
    method := .vision }

/-- The regions of a reply, in the source's pixels; `complain` is what the reader of data says of a
reply that it refuses. -/
def regions (body : String) (width height : Nat) (complain : Complaint := .unknown) :
    Except Fault (List Region) :=
  match subjects? body with
  | none => .error (.locatorTier tierName (complain.explain "malformed response" (Text.trim body)))
  | some [] => .error (.locatorTier tierName "response contained no subjects")
  | some subjects =>
      subjects.zipIdx.mapM fun (s, i) =>
        match invalid? s with
        | some (name, value) =>
            .error (.locatorTier tierName
              s!"subject {i} has invalid {name}: {Decimal.plain value}")
        | none => .ok (regionOf width height s)

end Montage.Vision
