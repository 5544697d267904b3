import Montage.Edit.Check
import Montage.Fault
import Montage.Text.Split

/-!
# Inline images

An inline image is a URL `data:image/<type>;base64,<payload>`.
-/

/-! ## Base64

The standard alphabet with required padding. Only the canonical form is read: whole groups of four,
and no bits left over in the last one. -/

namespace Montage.Base64

/-- The alphabet, in order. -/
def alphabet : List Char :=
  "ABCDEFGHIJKLMNOPQRSTUVWXYZabcdefghijklmnopqrstuvwxyz0123456789+/".toList

/-- The value of a letter. -/
def value? (c : Char) : Option Nat := alphabet.idxOf? c

/-- The letter of a value below 64. -/
def letter (n : Nat) : Char := alphabet[n]?.getD 'A'

/-- The text of some bytes. -/
def encode : List UInt8 → List Char
  | [] => []
  | [a] =>
      let n := a.toNat * 16
      [letter (n / 64), letter (n % 64), '=', '=']
  | [a, b] =>
      let n := (a.toNat * 256 + b.toNat) * 4
      [letter (n / 4096), letter (n / 64 % 64), letter (n % 64), '=']
  | a :: b :: c :: rest =>
      let n := (a.toNat * 256 + b.toNat) * 256 + c.toNat
      letter (n / 262144) :: letter (n / 4096 % 64) :: letter (n / 64 % 64) :: letter (n % 64) ::
        encode rest

/-- The bytes of a canonical text. -/
def decode? : List Char → Option (List UInt8)
  | [] => some []
  | [a, b, '=', '='] => do
      let n := 64 * (← value? a) + (← value? b)
      if n % 16 = 0 then some [UInt8.ofNat (n / 16)] else none
  | [a, b, c, '='] => do
      let n := 64 * (64 * (← value? a) + (← value? b)) + (← value? c)
      if n % 4 = 0 then some [UInt8.ofNat (n / 1024), UInt8.ofNat (n / 4)] else none
  | a :: b :: c :: d :: rest => do
      let n := 64 * (64 * (64 * (← value? a) + (← value? b)) + (← value? c)) + (← value? d)
      return UInt8.ofNat (n / 65536) :: UInt8.ofNat (n / 256) :: UInt8.ofNat n :: (← decode? rest)
  | _ => none

example : (decode? "aGVsbG8=".toList).map encode = some "aGVsbG8=".toList := by decide +kernel

end Montage.Base64

/-! ## URLs -/

namespace Montage.DataUrl

/-- The file extension of an image type; unknown types count as PNG. -/
def extensionOf (subtype : List Char) : String :=
  match String.ofList (subtype.map Char.toLower) with
  | "jpeg" | "jpg" => "jpg"
  | "webp" => "webp"
  | "gif" => "gif"
  | _ => "png"

/-- The bytes of an inline image and its file extension. White space around the payload is passed
over; `complain` is what the decoder of payloads says about one that it refuses. -/
def decode (url : String) (complain : Complaint := .unknown) : Except Fault (List UInt8 × String) :=
  match Text.after? inlineImageStart url.toList with
  | none => .error (.graph "Sticker data URL is not an image")
  | some rest =>
      match Text.splitAt? payloadMark rest with
      | none => .error (.graph "Sticker data URL is not base64 encoded")
      | some (subtype, payload) =>
          let payload := Text.trimChars payload
          match Base64.decode? payload with
          | none =>
              .error (.graph
                (complain.explain "Sticker data URL payload is invalid" (String.ofList payload)))
          | some bytes => .ok (bytes, extensionOf subtype)

end Montage.DataUrl
