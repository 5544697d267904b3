import Montage.Json.Number
import Montage.Json.Token

/-!
# Reading a data text

The tokens drive a machine whose stack holds the arrays and objects that are open. The whole text
must be one value.
-/

namespace Montage.Json

/-- An open array or object: the values so far, last one first, and the current key. -/
inductive Frame where
  | array (done : List Json)
  | object (done : List (Option String × Json)) (key : Option String)

/-- What may come next. -/
inductive Awaiting where
  | value
  | valueOrClose
  | keyOrClose
  | key
  | colon
  | separator
  | nothing (whole : Json)

/-- The open frames, innermost first, and what may come next. -/
structure Machine where
  frames : List Frame
  awaiting : Awaiting

/-- A value is complete: it joins the innermost frame, or is the whole text. -/
def Machine.put (frames : List Frame) (j : Json) : Machine :=
  match frames with
  | [] => ⟨[], .nothing j⟩
  | .array done :: rest => ⟨.array (j :: done) :: rest, .separator⟩
  | .object done key :: rest => ⟨.object ((key, j) :: done) none :: rest, .separator⟩

/-- The token that begins a value. -/
def Machine.start (frames : List Frame) : Token → Option Machine
  | .openArray => some ⟨.array [] :: frames, .valueOrClose⟩
  | .openObject => some ⟨.object [] none :: frames, .keyOrClose⟩
  | .string s => some (put frames (.string s))
  | .number text => do
      let _ ← NumberParts.ofText? text
      return put frames (.number text)
  | .word text =>
      match String.ofList text with
      | "null" => some (put frames .null)
      | "true" => some (put frames (.bool true))
      | "false" => some (put frames (.bool false))
      | _ => none
  | _ => none

/-- The innermost frame is closed. -/
def Machine.close (frames : List Frame) (token : Token) : Option Machine :=
  match token, frames with
  | .closeArray, .array done :: rest => some (put rest (.array done.reverse))
  | .closeObject, .object done _ :: rest => some (put rest (.object done.reverse))
  | _, _ => none

/-- One token. -/
def Machine.next (m : Machine) (token : Token) : Option Machine :=
  match m.awaiting, token with
  | .value, _ => start m.frames token
  | .valueOrClose, .closeArray => close m.frames token
  | .valueOrClose, _ => start m.frames token
  | .keyOrClose, .closeObject => close m.frames token
  | .keyOrClose, .string key | .key, .string key =>
      match m.frames with
      | .object done _ :: rest => some ⟨.object done key :: rest, .colon⟩
      | _ => none
  | .colon, .colon => some ⟨m.frames, .value⟩
  | .separator, .comma =>
      match m.frames with
      | .array _ :: _ => some ⟨m.frames, .value⟩
      | .object .. :: _ => some ⟨m.frames, .key⟩
      | [] => none
  | .separator, _ => close m.frames token
  | _, _ => none

/-- The value of a sequence of tokens. -/
def ofTokens? (tokens : List Token) : Option Json := do
  match (← tokens.foldlM Machine.next ⟨[], .value⟩).awaiting with
  | .nothing j => some j
  | _ => none

/-- The value that a text denotes, if it is well formed. -/
def read? (text : String) : Option Json := do
  ofTokens? (← tokens? text.toList)

end Montage.Json
