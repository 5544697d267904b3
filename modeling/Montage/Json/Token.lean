import Montage.Json.Basic

/-!
# Tokens of a data text

A text is cut into tokens by one pass over its characters. Spaces, tabs and line ends separate
tokens; a number or word runs as far as its characters go.
-/

namespace Montage.Json

/-- A token. A number is kept as written, its grammar unchecked. -/
inductive Token where
  | openObject
  | closeObject
  | openArray
  | closeArray
  | colon
  | comma
  | word (text : List Char)
  | number (text : List Char)
  | string (text : Option String)
  deriving Repr

/-- A part of a string: a character, or a code unit of a surrogate that was escaped. -/
inductive Piece where
  | char (c : Char)
  | surrogate (unit : Nat)

/-- The characters of the pieces, last piece first; `none` when a surrogate has no partner beside
it. -/
def joinPieces : List Piece → List Char → Option (List Char)
  | [], done => some done
  | .char c :: rest, done => joinPieces rest (c :: done)
  | .surrogate low :: .surrogate high :: rest, done =>
      if 0xDC00 ≤ low ∧ high < 0xDC00 then
        joinPieces rest (Char.ofNat (0x10000 + (high - 0xD800) * 0x400 + (low - 0xDC00)) :: done)
      else none
  | .surrogate _ :: _, _ => none

/-- The piece that an escaped code unit stands for. -/
def pieceOfUnit (unit : Nat) : Piece :=
  if 0xD800 ≤ unit ∧ unit < 0xE000 then .surrogate unit else .char (Char.ofNat unit)

/-- Where the pass stands: between tokens, in a word or a number (last character first), in a
string, after a backslash in it, or in its four hexadecimal digits. -/
inductive Phase where
  | between
  | word (done : List Char)
  | number (done : List Char)
  | string (done : List Piece)
  | escape (done : List Piece)
  | hex (done : List Piece) (digits : Nat) (value : Nat)

/-- The tokens found so far, last one first, and where the pass stands. -/
structure Scan where
  tokens : List Token
  phase : Phase

/-- A character of a word: a lower-case letter. -/
def isWordChar (c : Char) : Bool := 'a' ≤ c && c ≤ 'z'

/-- A character of a number. -/
def isNumberChar (c : Char) : Bool :=
  ('0' ≤ c && c ≤ '9') || c == '-' || c == '+' || c == '.' || c == 'e' || c == 'E'

/-- The value of a hexadecimal digit, in either case. -/
def hexDigit? (c : Char) : Option Nat :=
  if '0' ≤ c ∧ c ≤ '9' then some (c.toNat - '0'.toNat)
  else if 'a' ≤ c ∧ c ≤ 'f' then some (c.toNat - 'a'.toNat + 10)
  else if 'A' ≤ c ∧ c ≤ 'F' then some (c.toNat - 'A'.toNat + 10)
  else none

/-- A character between tokens. -/
def between (tokens : List Token) (c : Char) : Option Scan :=
  match c with
  | ' ' | '\t' | '\n' | '\r' => some ⟨tokens, .between⟩
  | '\x7b' => some ⟨.openObject :: tokens, .between⟩
  | '\x7d' => some ⟨.closeObject :: tokens, .between⟩
  | '[' => some ⟨.openArray :: tokens, .between⟩
  | ']' => some ⟨.closeArray :: tokens, .between⟩
  | ':' => some ⟨.colon :: tokens, .between⟩
  | ',' => some ⟨.comma :: tokens, .between⟩
  | '"' => some ⟨tokens, .string []⟩
  | c =>
      if c = '-' ∨ '0' ≤ c ∧ c ≤ '9' then some ⟨tokens, .number [c]⟩
      else if isWordChar c then some ⟨tokens, .word [c]⟩
      else none

/-- The character that a one-letter escape stands for. -/
def escaped? : Char → Option Char
  | '"' => some '"'
  | '\\' => some '\\'
  | '/' => some '/'
  | 'b' => some '\x08'
  | 'f' => some '\x0c'
  | 'n' => some '\n'
  | 'r' => some '\r'
  | 't' => some '\t'
  | _ => none

/-- One character of the pass. -/
def Scan.next (scan : Scan) (c : Char) : Option Scan :=
  match scan.phase with
  | .between => between scan.tokens c
  | .word done =>
      if isWordChar c then some { scan with phase := .word (c :: done) }
      else between (.word done.reverse :: scan.tokens) c
  | .number done =>
      if isNumberChar c then some { scan with phase := .number (c :: done) }
      else between (.number done.reverse :: scan.tokens) c
  | .string done =>
      if c = '"' then
        some ⟨.string ((joinPieces done []).map String.ofList) :: scan.tokens, .between⟩
      else if c = '\\' then some { scan with phase := .escape done }
      else if c.toNat < 0x20 then none
      else some { scan with phase := .string (.char c :: done) }
  | .escape done =>
      if c = 'u' then some { scan with phase := .hex done 0 0 }
      else (escaped? c).map fun e => { scan with phase := .string (.char e :: done) }
  | .hex done digits value => do
      let value := 16 * value + (← hexDigit? c)
      if digits = 3 then some { scan with phase := .string (pieceOfUnit value :: done) }
      else some { scan with phase := .hex done (digits + 1) value }

/-- The tokens at the end of the pass; a string left open has none. -/
def Scan.finish (scan : Scan) : Option (List Token) :=
  match scan.phase with
  | .between => some scan.tokens.reverse
  | .word done => some (.word done.reverse :: scan.tokens).reverse
  | .number done => some (.number done.reverse :: scan.tokens).reverse
  | _ => none

/-- The tokens of a text. -/
def tokens? (text : List Char) : Option (List Token) := do
  (← text.foldlM Scan.next ⟨[], .between⟩).finish

end Montage.Json
