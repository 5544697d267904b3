/-!
# Bytes and text

Encoding of text in UTF-8, strict decoding, and decoding that puts a replacement character for each
longest beginning of a character that is broken off.
-/

namespace Montage.Text

/-- The bytes of a text. -/
def encodeUtf8 (s : String) : List UInt8 := s.toUTF8.toList

/-- The replacement character. -/
def replacement : Char := Char.ofNat 0xFFFD

/-- What the first byte of a character says: its own bits, how many bytes follow, and the range of
the byte after it. -/
def leadByte? (b : Nat) : Option (Nat × Nat × Nat × Nat) :=
  if b < 0x80 then some (b, 0, 0, 0)
  else if b < 0xC2 then none
  else if b < 0xE0 then some (b - 0xC0, 1, 0x80, 0xBF)
  else if b = 0xE0 then some (0, 2, 0xA0, 0xBF)
  else if b = 0xED then some (0xD, 2, 0x80, 0x9F)
  else if b < 0xF0 then some (b - 0xE0, 2, 0x80, 0xBF)
  else if b = 0xF0 then some (0, 3, 0x90, 0xBF)
  else if b < 0xF4 then some (b - 0xF0, 3, 0x80, 0xBF)
  else if b = 0xF4 then some (4, 3, 0x80, 0x8F)
  else none

/-- Where the decoding stands: between characters, or inside one, with its bits so far, how many
bytes are missing and the range of the next one. -/
inductive Decoding where
  | between
  | inside (bits missing low high : Nat)

/-- The characters so far, last one first (`none` for a broken one), and where the decoding
stands. -/
abbrev Decoded := List (Option Char) × Decoding

/-- A byte between characters. -/
def startByte (done : List (Option Char)) (b : Nat) : Decoded :=
  match leadByte? b with
  | none => (none :: done, .between)
  | some (bits, 0, _, _) => (some (Char.ofNat bits) :: done, .between)
  | some (bits, missing, low, high) => (done, .inside bits missing low high)

/-- One byte. -/
def decodeByte (state : Decoded) (byte : UInt8) : Decoded :=
  let b := byte.toNat
  match state with
  | (done, .between) => startByte done b
  | (done, .inside bits missing low high) =>
      if low ≤ b ∧ b ≤ high then
        let bits := 64 * bits + (b - 0x80)
        if missing = 1 then (some (Char.ofNat bits) :: done, .between)
        else (done, .inside bits (missing - 1) 0x80 0xBF)
      else startByte (none :: done) b

/-- The characters of some bytes; `none` for a broken one. -/
def decodeAll (bytes : List UInt8) : List (Option Char) :=
  match bytes.foldl decodeByte ([], .between) with
  | (done, .between) => done.reverse
  | (done, .inside ..) => (none :: done).reverse

/-- The text of some bytes, if all characters are whole. -/
def decodeUtf8? (bytes : List UInt8) : Option String :=
  ((decodeAll bytes).mapM id).map String.ofList

/-- The text of some bytes, with a replacement character for each broken one. -/
def decodeLossy (bytes : List UInt8) : String :=
  String.ofList ((decodeAll bytes).map (·.getD replacement))

/-- Where some bytes stop being text: the place of the first broken character, and how many of its
bytes fit; no number if the bytes end inside it. -/
structure TextBreak where
  index : Nat
  fitting : Option Nat
  deriving DecidableEq, Repr

/-- The first break at or after the byte `pos`; the character being read begins at `start`. -/
def breakFrom? (start pos : Nat) : Decoding → List UInt8 → Option TextBreak
  | .between, [] => none
  | .inside .., [] => some ⟨start, none⟩
  | .between, byte :: rest =>
      match leadByte? byte.toNat with
      | none => some ⟨pos, some 1⟩
      | some (_, 0, _, _) => breakFrom? (pos + 1) (pos + 1) .between rest
      | some (bits, missing, low, high) =>
          breakFrom? pos (pos + 1) (.inside bits missing low high) rest
  | .inside bits missing low high, byte :: rest =>
      if low ≤ byte.toNat ∧ byte.toNat ≤ high then
        if missing = 1 then breakFrom? (pos + 1) (pos + 1) .between rest
        else breakFrom? start (pos + 1) (.inside bits (missing - 1) 0x80 0xBF) rest
      else some ⟨start, some (pos - start)⟩

/-- The first break in some bytes. -/
def break? (bytes : List UInt8) : Option TextBreak := breakFrom? 0 0 .between bytes

/-- The description of a break. -/
def TextBreak.message (b : TextBreak) : String :=
  match b.fitting with
  | some n => s!"invalid utf-8 sequence of {n} bytes from index {b.index}"
  | none => s!"incomplete utf-8 byte sequence from index {b.index}"

/-- The text of some bytes, or the first break in them. -/
def readUtf8 (bytes : List UInt8) : Except TextBreak String :=
  match break? bytes with
  | some b => .error b
  | none => .ok (decodeLossy bytes)

example : break? [0x61, 0xC3, 0xA9] = none ∧ break? [0x61, 0xC3] = some ⟨1, none⟩ ∧
    break? [0xE2, 0x82, 0x0A] = some ⟨0, some 2⟩ ∧ break? [0x61, 0xFF] = some ⟨1, some 1⟩ := by
  decide

/-!
## Byte texts

A byte text has one character for each of its bytes, the character with the byte's number, so that
any bytes can be cut, joined and compared as texts are and nothing of them is lost. The bytes of a
byte text are those it was made of.
-/

/-- The characters of some bytes, one for each. -/
def charsOf (bytes : List UInt8) : List Char := bytes.map fun b => Char.ofNat b.toNat

/-- The bytes that some characters are. -/
def bytesOf (chars : List Char) : List UInt8 := chars.map fun c => UInt8.ofNat c.toNat

/-- The byte text of some bytes. -/
def ofBytes (bytes : List UInt8) : String := String.ofList (charsOf bytes)

/-- The bytes of a byte text. -/
def toBytes (text : String) : List UInt8 := bytesOf text.toList

/-- The byte text of the bytes of a text. -/
def toByteText (text : String) : String := ofBytes (encodeUtf8 text)

/-- The text that the bytes of a byte text are, with a replacement character for each broken one. -/
def ofByteText (text : String) : String := decodeLossy (toBytes text)

/-- Whether a character of a byte text is white space. -/
def isByteBlank (c : Char) : Bool := c = ' ' || (9 ≤ c.toNat && c.toNat ≤ 13)

/-- Some characters of a byte text without the white space at both ends. -/
def trimBytes (chars : List Char) : List Char :=
  ((chars.dropWhile isByteBlank).reverse.dropWhile isByteBlank).reverse

example : ofByteText (ofBytes [0x61, 0xC3, 0xA9]) = "aé" ∧ (toByteText "aé").length = 3 := by
  decide +kernel

end Montage.Text
