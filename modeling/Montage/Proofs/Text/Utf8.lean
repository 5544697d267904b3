import Mathlib.Data.List.Basic
import Montage.Text.Utf8

/-! # Bytes of a text

The bytes that a text is written as are read as this text. -/

namespace Montage.Text

/-! ## Characters -/

section Characters

variable {done : List (Option Char)} {n bits missing low high : Nat}

/-- A character of one byte is its number. -/
theorem decodeByte_single (h : n < 0x80) : decodeByte (done, .between) (UInt8.ofNat n) =
    (some (Char.ofNat n) :: done, .between) := by
  have hbyte : (UInt8.ofNat n).toNat = n := UInt8.toNat_ofNat_of_lt' (Nat.lt_trans h (by decide))
  simp only [decodeByte, hbyte, startByte, leadByte?, if_pos h]

theorem decodeByte_first {b : Nat} (hb : b < 256)
    (h : leadByte? b = some (bits, missing + 1, low, high)) :
    decodeByte (done, .between) (UInt8.ofNat b) = (done, .inside bits (missing + 1) low high) := by
  have hbyte : (UInt8.ofNat b).toNat = b := UInt8.toNat_ofNat_of_lt' hb
  simp only [decodeByte, hbyte, startByte, h]

/-- Every later byte adds six bits. -/
theorem decodeByte_later {b : Nat} (hb : b = n / 64) (hlow : low ≤ n % 64 + 0x80)
    (hhigh : n % 64 + 0x80 ≤ high) :
    decodeByte (done, .inside b missing low high) (UInt8.ofNat (n % 64 + 0x80)) =
      if missing = 1 then (some (Char.ofNat n) :: done, .between)
      else (done, .inside n (missing - 1) 0x80 0xBF) := by
  have hbyte : (UInt8.ofNat (n % 64 + 0x80)).toNat = n % 64 + 0x80 :=
    UInt8.toNat_ofNat_of_lt' (by simp only [UInt8.size]; omega)
  have hbits : 64 * b + (n % 64 + 0x80 - 0x80) = n := by omega
  simp only [decodeByte, hbyte, if_pos (And.intro hlow hhigh), hbits]

/-- The first byte of two. -/
theorem leadByte?_of_two (hmin : 0x80 ≤ n) (hmax : n ≤ 0x7FF) :
    leadByte? (n / 64 + 0xC0) = some (n / 64, 1, 0x80, 0xBF) := by
  have hall : ∀ m < 32, m < 2 ∨ leadByte? (m + 0xC0) = some (m, 1, 0x80, 0xBF) := by decide
  exact (hall (n / 64) (by omega)).resolve_left (by omega)

/-- The first byte of three. The bounds of the second one leave out what two bytes could say, and
surrogates. -/
theorem exists_leadByte?_of_three (hmin : 0x800 ≤ n) (hmax : n ≤ 0xFFFF)
    (hvalid : n < 0xD800 ∨ 0xDFFF < n) :
    ∃ low high, leadByte? (n / 4096 + 0xE0) = some (n / 4096, 2, low, high) ∧
      low ≤ n / 64 % 64 + 0x80 ∧ n / 64 % 64 + 0x80 ≤ high := by
  have hplain : ∀ m < 16, m = 0 ∨ m = 13 ∨ leadByte? (m + 0xE0) = some (m, 2, 0x80, 0xBF) := by
    decide
  by_cases hzero : n / 4096 = 0
  · exact ⟨0xA0, 0xBF, by rw [hzero]; rfl, by omega, by omega⟩
  by_cases hsurrogate : n / 4096 = 13
  · exact ⟨0x80, 0x9F, by rw [hsurrogate]; rfl, by omega, by omega⟩
  · exact ⟨0x80, 0xBF, ((hplain _ (by omega)).resolve_left hzero).resolve_left hsurrogate,
      by omega, by omega⟩

/-- The first byte of four. -/
theorem exists_leadByte?_of_four (hmin : 0xFFFF < n) (hmax : n < 0x110000) :
    ∃ low high, leadByte? (n / 262144 + 0xF0) = some (n / 262144, 3, low, high) ∧
      low ≤ n / 4096 % 64 + 0x80 ∧ n / 4096 % 64 + 0x80 ≤ high := by
  have hplain : ∀ m < 4, m = 0 ∨ leadByte? (m + 0xF0) = some (m, 3, 0x80, 0xBF) := by decide
  by_cases hzero : n / 262144 = 0
  · exact ⟨0x90, 0xBF, by rw [hzero]; rfl, by omega, by omega⟩
  by_cases hlast : n / 262144 = 4
  · exact ⟨0x80, 0x8F, by rw [hlast]; rfl, by omega, by omega⟩
  · exact ⟨0x80, 0xBF, (hplain _ (by omega)).resolve_left hzero, by omega, by omega⟩

/-- The bytes of a character are read as this character. -/
theorem foldl_decodeByte_char (done : List (Option Char)) (c : Char) :
    (String.utf8EncodeChar c).foldl decodeByte (done, .between) = (some c :: done, .between) := by
  obtain ⟨n, hn⟩ : ∃ n, n = c.val.toNat := ⟨_, rfl⟩
  have hc : Char.ofNat n = c := by rw [hn]; exact Char.ofNat_toNat c
  have hvalid : n < 0xD800 ∨ 0xDFFF < n ∧ n < 0x110000 := by rw [hn]; exact c.valid
  rw [String.utf8EncodeChar, ← hn]
  by_cases h₁ : n ≤ 0x7F
  · rw [if_pos h₁, List.foldl_cons, List.foldl_nil, decodeByte_single (by omega), hc]
  rw [if_neg h₁]
  by_cases h₂ : n ≤ 0x7FF
  · have hlead : n / 64 % 0x20 = n / 64 := by omega
    rw [if_pos h₂, hlead]
    simp only [List.foldl_cons, List.foldl_nil]
    rw [decodeByte_first (by omega) (leadByte?_of_two (by omega) h₂),
      decodeByte_later rfl (by omega) (by omega), if_pos rfl, hc]
  rw [if_neg h₂]
  by_cases h₃ : n ≤ 0xFFFF
  · have hlead : n / 4096 % 0x10 = n / 4096 := by omega
    obtain ⟨low, high, hbyte, hlow, hhigh⟩ :=
      exists_leadByte?_of_three (by omega) h₃ (hvalid.imp_right And.left)
    rw [if_pos h₃, hlead]
    simp only [List.foldl_cons, List.foldl_nil]
    rw [decodeByte_first (by omega) hbyte, decodeByte_later (by omega) hlow hhigh,
      if_neg (by decide), decodeByte_later rfl (by omega) (by omega), if_pos rfl, hc]
  · have hlead : n / 262144 % 0x08 = n / 262144 := by omega
    obtain ⟨low, high, hbyte, hlow, hhigh⟩ :=
      exists_leadByte?_of_four (Nat.lt_of_not_le h₃) (by omega)
    rw [if_neg h₃, hlead]
    simp only [List.foldl_cons, List.foldl_nil]
    rw [decodeByte_first (by omega) hbyte, decodeByte_later (by omega) hlow hhigh,
      if_neg (by decide), decodeByte_later (by omega) (by omega) (by omega), if_neg (by decide),
      decodeByte_later rfl (by omega) (by omega), if_pos rfl, hc]

end Characters

/-! ## Texts -/

/-- The list of an array of bytes, from a place on. -/
theorem toList_loop (bytes : ByteArray) (i : Nat) (before : List UInt8) :
    ByteArray.toList.loop bytes i before = before.reverse ++ bytes.data.toList.drop i := by
  fun_induction ByteArray.toList.loop bytes i before with
  | case1 i before h ih =>
      have hget : bytes.get! i = bytes.data[i]! := by cases bytes; rfl
      have hlist : bytes.data.toList.drop i = bytes.data[i] :: bytes.data.toList.drop (i + 1) :=
        List.drop_eq_getElem_cons (by simpa using h)
      rw [ih, hlist, hget, getElem!_pos bytes.data i h, List.reverse_cons, List.append_assoc]
      rfl
  | case2 i before h =>
      rw [List.drop_eq_nil_of_le (by simpa using Nat.le_of_not_lt h), List.append_nil]

/-- The bytes of a text are those of its characters. -/
theorem encodeUtf8_eq (s : String) : encodeUtf8 s = s.toList.flatMap String.utf8EncodeChar := by
  rw [encodeUtf8, String.toUTF8_eq_toByteArray, ← String.utf8Encode_toList, ByteArray.toList,
    toList_loop, List.utf8Encode, List.toList_data_toByteArray]
  rfl

theorem foldl_decodeByte (chars : List Char) (done : List (Option Char)) :
    (chars.flatMap String.utf8EncodeChar).foldl decodeByte (done, .between) =
      ((chars.map some).reverse ++ done, .between) := by
  induction chars generalizing done with
  | nil => rfl
  | cons c chars ih =>
      rw [List.flatMap_cons, List.foldl_append, foldl_decodeByte_char, ih, List.map_cons,
        List.reverse_cons, List.append_assoc]
      rfl

/-- A text is read from its bytes. -/
theorem decodeUtf8?_encodeUtf8 (s : String) : decodeUtf8? (encodeUtf8 s) = some s := by
  have hall : decodeAll (encodeUtf8 s) = s.toList.map some := by
    rw [decodeAll, encodeUtf8_eq, foldl_decodeByte, List.append_nil]
    exact List.reverse_reverse _
  have hwhole (chars : List Char) : (chars.map some).mapM id = some chars := by
    induction chars with
    | nil => rfl
    | cons c chars ih => rw [List.map_cons, List.mapM_cons, ih]; rfl
  rw [decodeUtf8?, hall, hwhole, Option.map_some, String.ofList_toList]

end Montage.Text
