import Mathlib.Data.List.Forall2
import Montage.DataUrl
import Montage.Proofs.Edit.Problems
import Montage.Proofs.Text.Split

/-! # Images that hold themselves

An image written into a URL is read back byte by byte. The check of an edit and the reading look
for the same marks, so that an accepted URL can only fail by its payload. -/

namespace Montage

/-! ## Base64 -/

namespace Base64

theorem value?_letter {n : Nat} (h : n < 64) : value? (letter n) = some n := by
  revert n
  decide +kernel

theorem letter_of_value? {c : Char} {n : Nat} (h : value? c = some n) : n < 64 ∧ letter n = c := by
  obtain ⟨hlt, hc, -⟩ := List.idxOf?_eq_some_iff.mp h
  refine ⟨hlt, ?_⟩
  rw [letter, List.getElem?_eq_getElem hlt, Option.getD_some]
  simpa using hc

theorem letter_ne_pad_not_blank {n : Nat} : letter n ≠ '=' ∧ Text.isBlank (letter n) = false := by
  by_cases h : n < 64
  · revert n
    decide +kernel
  · have hlength : alphabet.length = 64 := by decide +kernel
    rw [letter, List.getElem?_eq_none (by omega)]
    decide

theorem letter_ne_pad (n : Nat) : letter n ≠ '=' := letter_ne_pad_not_blank.1

@[simp] theorem letter_not_blank (n : Nat) : Text.isBlank (letter n) = false :=
  letter_ne_pad_not_blank.2

theorem ofNat_eq {a : UInt8} {n : Nat} (h : n % 256 = a.toNat) : UInt8.ofNat n = a := by
  apply UInt8.toNat_inj.mp
  rw [UInt8.toNat_ofNat', h]

/-- Without padding at its end, a group of four letters is three bytes. -/
theorem decode?_group {a b c d : Char} (hd : d ≠ '=') (rest : List Char) :
    decode? (a :: b :: c :: d :: rest) = do
      let n := 64 * (64 * (64 * (← value? a) + (← value? b)) + (← value? c)) + (← value? d)
      return UInt8.ofNat (n / 65536) :: UInt8.ofNat (n / 256) :: UInt8.ofNat n ::
        (← decode? rest) := by
  rw [decode?]
  · rintro - rfl -
    exact hd rfl
  · rintro rfl -
    exact hd rfl

theorem decode?_encode (bytes : List UInt8) : decode? (encode bytes) = some bytes := by
  fun_induction encode bytes with
  | case1 => rfl
  | case2 a n =>
      have ha := a.toNat_lt
      have h₁ : n / 64 < 64 := by omega
      have h₂ : n % 64 < 64 := by omega
      simp only [decode?, value?_letter h₁, value?_letter h₂, Option.bind_eq_bind, Option.bind_some]
      rw [if_pos (by omega), ofNat_eq (a := a) (by omega)]
  | case3 a b n =>
      have ha := a.toNat_lt
      have hb := b.toNat_lt
      have h₁ : n / 4096 < 64 := by omega
      have h₂ : n / 64 % 64 < 64 := by omega
      have h₃ : n % 64 < 64 := by omega
      rw [decode?]
      · simp only [value?_letter h₁, value?_letter h₂, value?_letter h₃, Option.bind_eq_bind,
          Option.bind_some]
        rw [if_pos (by omega), ofNat_eq (a := a) (by omega), ofNat_eq (a := b) (by omega)]
      · exact letter_ne_pad _
  | case4 a b c rest n ih =>
      have ha := a.toNat_lt
      have hb := b.toNat_lt
      have hc := c.toNat_lt
      have h₁ : n / 262144 < 64 := by omega
      have h₂ : n / 4096 % 64 < 64 := by omega
      have h₃ : n / 64 % 64 < 64 := by omega
      have h₄ : n % 64 < 64 := by omega
      rw [decode?_group (letter_ne_pad _)]
      simp only [value?_letter h₁, value?_letter h₂, value?_letter h₃, value?_letter h₄, ih,
        Option.bind_eq_bind, Option.bind_some, Option.pure_def]
      rw [ofNat_eq (a := a) (by omega), ofNat_eq (a := b) (by omega), ofNat_eq (a := c) (by omega)]

theorem encode_of_decode? {text : List Char} {bytes : List UInt8} (h : decode? text = some bytes) :
    encode bytes = text := by
  fun_induction decode? text generalizing bytes with
  | case1 =>
      cases h
      rfl
  | case2 a b =>
      simp only [Option.bind_eq_bind, Option.bind_eq_some_iff, Option.ite_none_right_eq_some,
        Option.some.injEq] at h
      obtain ⟨x, hx, y, hy, hbits, rfl⟩ := h
      obtain ⟨hx, rfl⟩ := letter_of_value? hx
      obtain ⟨hy, rfl⟩ := letter_of_value? hy
      simp only [encode, UInt8.toNat_ofNat', Nat.reducePow]
      congr <;> omega
  | case3 a b c =>
      simp only [Option.bind_eq_bind, Option.bind_eq_some_iff, Option.ite_none_right_eq_some,
        Option.some.injEq] at h
      obtain ⟨x, hx, y, hy, z, hz, hbits, rfl⟩ := h
      obtain ⟨hx, rfl⟩ := letter_of_value? hx
      obtain ⟨hy, rfl⟩ := letter_of_value? hy
      obtain ⟨hz, rfl⟩ := letter_of_value? hz
      simp only [encode, UInt8.toNat_ofNat', Nat.reducePow]
      congr <;> omega
  | case4 a b c d rest _ _ ih =>
      simp only [Option.bind_eq_bind, Option.bind_eq_some_iff, Option.pure_def,
        Option.some.injEq] at h
      obtain ⟨x, hx, y, hy, z, hz, w, hw, later, hlater, rfl⟩ := h
      obtain ⟨hx, rfl⟩ := letter_of_value? hx
      obtain ⟨hy, rfl⟩ := letter_of_value? hy
      obtain ⟨hz, rfl⟩ := letter_of_value? hz
      obtain ⟨hw, rfl⟩ := letter_of_value? hw
      simp only [encode, UInt8.toNat_ofNat', Nat.reducePow, ih hlater]
      congr <;> omega
  | case5 => cases h

theorem not_blank_of_mem_encode {bytes : List UInt8} :
    ∀ c ∈ encode bytes, Text.isBlank c = false := by
  fun_induction encode bytes with
  | case1 => simp
  | case2 => simp; decide
  | case3 => simp; decide
  | case4 a b c rest n ih => simpa using ih

/-- A text is read exactly if it is the text of some bytes. -/
theorem decode?_eq_some_iff {text : List Char} {bytes : List UInt8} :
    decode? text = some bytes ↔ encode bytes = text := by
  constructor
  · exact encode_of_decode?
  · rintro rfl
    exact decode?_encode bytes

end Base64

/-! ## Small and capital letters -/

theorem toNat_toUpper {d : Char} (h : 'a'.val ≤ d.val ∧ d.val ≤ 'z'.val) :
    d.toUpper.toNat = d.toNat - 32 := by
  have hbounds : 97 ≤ d.toNat ∧ d.toNat ≤ 122 := h
  have hsum : (d.val + (4294967264 : UInt32)).toNat = (d.toNat + 4294967264) % 4294967296 :=
    UInt32.toNat_add _ _
  have hvalue : d.toUpper = _ := dif_pos h
  rw [hvalue]
  exact hsum.trans (by omega)

theorem toNat_toLower {c : Char} (h : 'A'.val ≤ c.val ∧ c.val ≤ 'Z'.val) :
    c.toLower.toNat = c.toNat + 32 := by
  have hbounds : 65 ≤ c.toNat ∧ c.toNat ≤ 90 := h
  have hsum : (c.val + (32 : UInt32)).toNat = (c.toNat + 32) % 4294967296 := UInt32.toNat_add _ _
  have hvalue : c.toLower = _ := dif_pos h
  rw [hvalue]
  exact hsum.trans (by omega)

theorem toLower_eq_iff {c d : Char} (hd : d.isLower) : c.toLower = d ↔ c = d ∨ c = d.toUpper := by
  have hsmall : 'a'.val ≤ d.val ∧ d.val ≤ 'z'.val :=
    (Bool.and_eq_true_iff.mp hd).imp of_decide_eq_true of_decide_eq_true
  have hbounds : 97 ≤ d.toNat ∧ d.toNat ≤ 122 := hsmall
  have hup := toNat_toUpper hsmall
  simp only [← Char.toNat_inj]
  by_cases hc : 'A'.val ≤ c.val ∧ c.val ≤ 'Z'.val
  · have hbig : 65 ≤ c.toNat ∧ c.toNat ≤ 90 := hc
    have hlow := toNat_toLower hc
    omega
  · have hother : ¬ (65 ≤ c.toNat ∧ c.toNat ≤ 90) := hc
    have hlow : c.toLower = c := dif_neg hc
    rw [hlow]
    omega

/-- A text that is a name in small letters, apart from case. -/
def Alike (text name : List Char) : Prop :=
  List.Forall₂ (fun c d => c = d ∨ c = d.toUpper) text name

theorem alike_iff {text name : List Char} (hname : ∀ d ∈ name, d.isLower) :
    Alike text name ↔ text.map Char.toLower = name := by
  rw [Alike]
  induction name generalizing text with
  | nil => simp
  | cons d name ih =>
      obtain ⟨hd, hname⟩ := List.forall_mem_cons.mp hname
      cases text with
      | nil => simp
      | cons c text =>
          rw [List.forall₂_cons, ih hname, List.map_cons, List.cons.injEq, toLower_eq_iff hd]

/-! ## Reading a URL -/

namespace DataUrl

/-- The file extension for a kind of image. -/
inductive ImageExtension (kind : List Char) : String → Prop
  | jpg (h : Alike kind "jpeg".toList ∨ Alike kind "jpg".toList) : ImageExtension kind "jpg"
  | webp (h : Alike kind "webp".toList) : ImageExtension kind "webp"
  | gif (h : Alike kind "gif".toList) : ImageExtension kind "gif"
  | other (h : ∀ name ∈ ["jpeg", "jpg", "webp", "gif"], ¬ Alike kind name.toList) :
      ImageExtension kind "png"

theorem imageExtension_iff {kind : List Char} {ext : String} :
    ImageExtension kind ext ↔ extensionOf kind = ext := by
  have halike (name : String) (hname : ∀ d ∈ name.toList, d.isLower) :
      Alike kind name.toList ↔ String.ofList (kind.map Char.toLower) = name := by
    rw [alike_iff hname, ← String.toList_inj, String.toList_ofList]
  have hjpeg := halike "jpeg" (by simp)
  have hjpg := halike "jpg" (by simp)
  have hwebp := halike "webp" (by simp)
  have hgif := halike "gif" (by simp)
  rw [extensionOf]
  constructor
  · rintro ((h | h) | h | h | h)
    · simp only [hjpeg.mp h]
    · simp only [hjpg.mp h]
    · simp only [hwebp.mp h]
    · simp only [hgif.mp h]
    · simp only [List.forall_mem_cons, hjpeg, hjpg, hwebp, hgif] at h
      obtain ⟨h₁, h₂, h₃, h₄, -⟩ := h
      split <;> first | rfl | contradiction
  · rintro rfl
    split
    case h_1 h => exact .jpg (.inl (hjpeg.mpr h))
    case h_2 h => exact .jpg (.inr (hjpg.mpr h))
    case h_3 h => exact .webp (hwebp.mpr h)
    case h_4 h => exact .gif (hgif.mpr h)
    case h_5 hjpeg' hjpg' hwebp' hgif' =>
      apply ImageExtension.other
      simp only [List.forall_mem_cons, hjpeg, hjpg, hwebp, hgif]
      exact ⟨hjpeg', hjpg', hwebp', hgif', by simp⟩

/-- The payload may have further marks; the kind has none. -/
theorem splitAt?_payloadMark {kind payload : List Char} (h : ¬ payloadMark <:+: kind) :
    Text.splitAt? payloadMark (kind ++ payloadMark ++ payload) = some (kind, payload) := by
  have hmark : payloadMark = ';' :: "base64,".toList := by decide
  rw [hmark] at h ⊢
  exact Text.splitAt?_append (by decide) h

/-- The fault of a payload that cannot be decoded. -/
def refusal (payload : List Char) (complain : Complaint) : Fault :=
  .graph (complain.explain "Sticker data URL payload is invalid" (String.ofList payload))

/-- What a library says stands behind the message. -/
theorem prefix_explain (complain : Complaint) (message text : String) :
    message.toList <+: (complain.explain message text).toList := by
  rw [Complaint.explain]
  split
  case h_1 => exact List.prefix_rfl
  case h_2 cause _ =>
    refine ⟨(": " ++ cause).toList, ?_⟩
    change _ = (message ++ ": " ++ cause).toList
    simp

theorem refusal_ne {message : String} (payload : List Char) (complain : Complaint)
    (h : ¬ "Sticker data URL payload is invalid".toList <+: message.toList) :
    Fault.graph message ≠ refusal payload complain := by
  intro heq
  rw [refusal, Fault.graph.injEq] at heq
  exact h (heq ▸ prefix_explain complain _ _)

theorem decode_append {kind payload : String} {complain : Complaint}
    (h : ¬ payloadMark <:+: kind.toList) :
    decode ("data:image/" ++ kind ++ ";base64," ++ payload) complain =
      match Base64.decode? (Text.trimChars payload.toList) with
      | none => .error (refusal (Text.trimChars payload.toList) complain)
      | some bytes => .ok (bytes, extensionOf kind.toList) := by
  have hsplit : Text.splitAt? payloadMark (kind.toList ++ payloadMark ++ payload.toList) =
      some (kind.toList, payload.toList) := splitAt?_payloadMark h
  cases hbytes : Base64.decode? (Text.trimChars payload.toList) with
  | none => simp only [decode, toList_imageUrl, Text.after?_append, hsplit, hbytes, refusal]
  | some bytes => simp only [decode, toList_imageUrl, Text.after?_append, hsplit, hbytes]

/-- A payload is read exactly if it is the text of the bytes, with white space around it or not, and
refused exactly if it is the text of no bytes. -/
theorem decode_append_iff {kind payload : String} {complain : Complaint}
    (h : ¬ payloadMark <:+: kind.toList) :
    let url := "data:image/" ++ kind ++ ";base64," ++ payload
    (∀ bytes, (∃ ext, decode url complain = .ok (bytes, ext)) ↔
        Base64.encode bytes = Text.trimChars payload.toList) ∧
      (decode url complain = .error (refusal (Text.trimChars payload.toList) complain) ↔
        ∀ bytes, Base64.encode bytes ≠ Text.trimChars payload.toList) := by
  intro url
  simp only [url, decode_append h, ← Base64.decode?_eq_some_iff, ne_eq]
  cases Base64.decode? (Text.trimChars payload.toList) with
  | none => simp
  | some bytes => simp

theorem decode_encode {kind : String} {complain : Complaint} (h : ¬ payloadMark <:+: kind.toList)
    (bytes : List UInt8) :
    decode ("data:image/" ++ kind ++ ";base64," ++ String.ofList (Base64.encode bytes)) complain =
      .ok (bytes, extensionOf kind.toList) := by
  rw [decode_append h, String.toList_ofList, Text.trimChars_eq Base64.not_blank_of_mem_encode,
    Base64.decode?_encode]

/-- The check of a URL and its reading look for the same two marks. -/
theorem isImageUrl_iff_split {url : String} : IsImageUrl url ↔
    ∃ rest piece, Text.after? inlineImageStart url.toList = some rest ∧
      Text.splitAt? payloadMark rest = some piece := by
  constructor
  · rintro ⟨kind, payload, rfl⟩
    rw [toList_imageUrl, Text.after?_append]
    have hmark : Text.contains payloadMark (kind.toList ++ payloadMark ++ payload.toList) :=
      Text.contains_iff.mpr ⟨kind.toList, payload.toList, rfl⟩
    obtain ⟨piece, hpiece⟩ := Option.isSome_iff_exists.mp hmark
    exact ⟨_, piece, rfl, hpiece⟩
  · rintro ⟨rest, ⟨kind, payload⟩, hrest, hpiece⟩
    rw [Text.after?, Option.ite_none_right_eq_some, Option.some.injEq] at hrest
    obtain ⟨hstart, rfl⟩ := hrest
    refine ⟨String.ofList kind, String.ofList payload, String.toList_inj.mp ?_⟩
    rw [toList_imageUrl, String.toList_ofList, String.toList_ofList, ← Text.eq_of_splitAt? hpiece]
    exact List.prefix_iff_eq_append.mp (List.isPrefixOf_iff_prefix.mp hstart) |>.symm

theorem isImageUrl_iff_decode {url : String} {complain : Complaint} : IsImageUrl url ↔
    (∃ image, decode url complain = .ok image) ∨
      ∃ payload, decode url complain = .error (refusal payload complain) := by
  rw [isImageUrl_iff_split, decode]
  constructor
  · rintro ⟨rest, ⟨kind, payload⟩, hrest, hpiece⟩
    simp only [hrest, hpiece]
    cases Base64.decode? (Text.trimChars payload) with
    | none => exact .inr ⟨_, rfl⟩
    | some bytes => exact .inl ⟨_, rfl⟩
  · intro h
    have hkind : ∀ payload, Fault.graph "Sticker data URL is not an image" ≠
        refusal payload complain := fun payload => refusal_ne payload complain (by decide)
    have hbase : ∀ payload, Fault.graph "Sticker data URL is not base64 encoded" ≠
        refusal payload complain := fun payload => refusal_ne payload complain (by decide)
    split at h
    case h_1 => simp [hkind] at h
    case h_2 rest hrest =>
      split at h
      case h_1 => simp [hbase] at h
      case h_2 kind payload hpiece => exact ⟨rest, (kind, payload), hrest, hpiece⟩

end DataUrl

/-! ## The check of a sticker -/

theorem inlineImage_not_mem_overlapProblems (i : Nat) (ramps : List (ZoomRamp × Nat)) :
    .inlineImage i ∉ overlapProblems ramps := by
  fun_induction overlapProblems ramps with
  | case1 a j b k rest ih => simp [Problem.mem_ensure, ih]
  | case2 => simp

theorem Sticker.inlineImage_mem_problems {i index : Nat} {s : Sticker} :
    .inlineImage i ∈ s.problems index ↔
      i = index ∧ ∃ url, s.source = .inline url ∧ ¬ IsImageUrl url := by
  cases h : s.source with
  | file path => simp [problems, rangeProblems, Problem.mem_ensure, h]
  | inline url => simp [problems, rangeProblems, Problem.mem_ensure, h, ← isInlineImage_iff]

/-- Only the check of a sticker finds that its image has not the form of one. -/
theorem Edit.inlineImage_mem_problems {e : Edit} {i : Nat} {s : Sticker}
    (hs : e.stickers[i]? = some s) :
    .inlineImage i ∈ e.problems ↔ .inlineImage i ∈ s.problems i := by
  simp only [problems, rampProblems, ZoomRamp.problems, Cutaway.problems, Segment.problems,
    Music.problems, Watermark.problems, rangeProblems, List.mem_append, List.mem_flatMap,
    Problem.mem_ensure, inlineImage_not_mem_overlapProblems, Option.mem_toList,
    Option.map_eq_some_iff, reduceCtorEq, false_and, and_false, exists_false, or_false, false_or,
    Prod.exists, List.mem_zipIdx_iff_getElem?]
  constructor
  · rintro ⟨other, j, hother, hmem⟩
    obtain ⟨rfl, -⟩ := Sticker.inlineImage_mem_problems.mp hmem
    rw [hs, Option.some.injEq] at hother
    rwa [hother]
  · intro hmem
    exact ⟨s, i, hs, hmem⟩

/-- An image that holds itself is accepted and read as it was written, with the extension of its
kind. What is accepted is read, or refused for its payload, which is then the text of no bytes. -/
theorem Edit.inlineImage_read {e : Edit} {i : Nat} {s : Sticker} {url : String}
    (hs : e.stickers[i]? = some s) (hurl : s.source = .inline url) (complain : Complaint) :
    (∀ (kind : String) (bytes : List UInt8), ¬ payloadMark <:+: kind.toList →
        url = "data:image/" ++ kind ++ ";base64," ++ String.ofList (Base64.encode bytes) →
        .inlineImage i ∉ e.problems ∧ ∃ ext, DataUrl.decode url complain = .ok (bytes, ext) ∧
          ∀ other, DataUrl.ImageExtension kind.toList other ↔ other = ext) ∧
      (.inlineImage i ∉ e.problems ↔ (∃ image, DataUrl.decode url complain = .ok image) ∨
        ∃ payload, DataUrl.decode url complain = .error (DataUrl.refusal payload complain)) ∧
      ∀ kind payload : String, ¬ payloadMark <:+: kind.toList →
        url = "data:image/" ++ kind ++ ";base64," ++ payload →
        (∀ bytes, (∃ ext, DataUrl.decode url complain = .ok (bytes, ext)) ↔
            Base64.encode bytes = Text.trimChars payload.toList) ∧
          (DataUrl.decode url complain =
              .error (DataUrl.refusal (Text.trimChars payload.toList) complain) ↔
            ∀ bytes, Base64.encode bytes ≠ Text.trimChars payload.toList) := by
  have haccepted : .inlineImage i ∉ e.problems ↔ IsImageUrl url := by
    rw [inlineImage_mem_problems hs, Sticker.inlineImage_mem_problems]
    simp [hurl]
  rw [haccepted]
  refine ⟨?written, DataUrl.isImageUrl_iff_decode, ?payload⟩
  case written =>
    intro kind bytes hkind heq
    refine ⟨⟨kind, String.ofList (Base64.encode bytes), heq⟩, DataUrl.extensionOf kind.toList, ?_⟩
    constructor
    · rw [heq, DataUrl.decode_encode hkind]
    · intro other
      rw [DataUrl.imageExtension_iff, eq_comm]
  case payload =>
    rintro kind payload hkind rfl
    exact DataUrl.decode_append_iff hkind

theorem Edit.inlineImage_read_greeting :
    let sticker : Sticker :=
      ⟨.inline "data:image/JpEg;base64,aGk=", 0, 1, ⟨0, 0, 1, 1⟩⟩
    let e : Edit :=
      { sourcePath := "/talk.mp4", trimStartMs := 0, trimEndMs := 1, canvas := .square,
        stickers := [sticker] }
    .inlineImage 0 ∉ e.problems ∧
      DataUrl.decode "data:image/JpEg;base64,aGk=" = .ok ([104, 105], "jpg") := by
  intro sticker e
  have hread := Edit.inlineImage_read (e := e) (i := 0) (s := sticker) rfl rfl .unknown
  obtain ⟨haccepted, ext, hdecode, hext⟩ := hread.1 "JpEg" [104, 105] (by decide) (by decide)
  have hkind : Alike "JpEg".toList "jpeg".toList := (alike_iff (by simp)).mpr (by decide)
  obtain rfl := (hext "jpg").mp (.jpg (.inl hkind))
  exact ⟨haccepted, hdecode⟩

end Montage
