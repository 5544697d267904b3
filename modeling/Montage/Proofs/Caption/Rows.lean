import Montage.Proofs.Caption.Emphasis
import Montage.Text.Split

/-! # Reading documents

The rows of a document and their fields, as a player reads them: each line is a row, a style row is
split at all of its commas, and an event row at the first nine. -/

namespace Montage.Caption

open List (Disjoint disjoint_left disjoint_append_left disjoint_append_right Forall₂)

/-! ## Fields -/

/-- A colour: how transparent it is, and its parts. -/
structure Colour where
  alpha : Nat
  red : Nat
  green : Nat
  blue : Nat
  deriving DecidableEq, Repr

/-- The value of a hexadecimal digit, in either case. -/
def hexDigit? (c : Char) : Option Nat := "0123456789ABCDEF".toList.idxOf? c.toUpper

/-- The value of two hexadecimal digits. -/
def byte? (high low : Char) : Option Nat := do return 16 * (← hexDigit? high) + (← hexDigit? low)

/-- An opaque colour as a look has it, `#RRGGBB`. White space around it and the number of number
signs do not matter. -/
def Colour.ofLook? (text : String) : Option Colour :=
  match (Text.trimChars text.toList).dropWhile (· == '#') with
  | [r, r', g, g', b, b'] => do
      return { alpha := 0, red := ← byte? r r', green := ← byte? g g', blue := ← byte? b b' }
  | _ => none

/-- A colour as a document has it, `&HAABBGGRR`. -/
def Colour.ofField? : List Char → Option Colour
  | ['&', 'H', a, a', b, b', g, g', r, r'] => do
      return { alpha := ← byte? a a', red := ← byte? r r', green := ← byte? g g',
               blue := ← byte? b b' }
  | _ => none

/-- A number of two digits. -/
def twoDigits? (text : List Char) : Option Nat :=
  if text.length = 2 then Decimal.natOfText? text else none

/-- A time `H:MM:SS.cc` in milliseconds. -/
def timeMs? (text : List Char) : Option Nat :=
  match text.splitOn ':' with
  | [hours, minutes, rest] =>
      match rest.splitOn '.' with
      | [seconds, centis] => do
          let wholeMinutes := 60 * (← Decimal.natOfText? hours) + (← twoDigits? minutes)
          let wholeSeconds := 60 * wholeMinutes + (← twoDigits? seconds)
          return 1000 * wholeSeconds + 10 * (← twoDigits? centis)
      | _ => none
  | _ => none

example : timeMs? "1:02:03.45".toList = some 3723450 ∧ timeMs? "1:2:03.45".toList = none ∧
    Colour.ofField? "&H64000a0F".toList = some ⟨100, 15, 10, 0⟩ ∧
    Colour.ofLook? " #ff8000" = some ⟨0, 255, 128, 0⟩ := by decide +kernel

/-! ## Rows -/

/-- A style as it is read. -/
structure StyleEntry where
  name : String
  fontName : String
  fontSize : Nat
  primary : Colour
  secondary : Colour
  outlineColour : Colour
  back : Colour
  bold : Bool
  outline : String
  shadow : String
  alignment : Nat
  marginLeft : Nat
  marginRight : Nat
  marginVertical : Nat
  deriving DecidableEq

/-- A style from the fields of its row. -/
def StyleEntry.ofFields? : List (List Char) → Option StyleEntry
  | [name, fontName, fontSize, primary, secondary, outlineColour, back, bold, _italic, _underline,
      _strikeOut, _scaleX, _scaleY, _spacing, _angle, _borderStyle, outline, shadow, alignment,
      marginLeft, marginRight, marginVertical, _encoding] => do
      return {
        name := String.ofList name
        fontName := String.ofList fontName
        fontSize := ← Decimal.natOfText? fontSize
        primary := ← Colour.ofField? primary
        secondary := ← Colour.ofField? secondary
        outlineColour := ← Colour.ofField? outlineColour
        back := ← Colour.ofField? back
        bold := bold ≠ ['0']
        outline := String.ofList outline
        shadow := String.ofList shadow
        alignment := ← Decimal.natOfText? alignment
        marginLeft := ← Decimal.natOfText? marginLeft
        marginRight := ← Decimal.natOfText? marginRight
        marginVertical := ← Decimal.natOfText? marginVertical }
  | _ => none

/-- A style from its row. -/
def StyleEntry.ofRow? (row : List Char) : Option StyleEntry := ofFields? (row.splitOn ',')

/-- An event as it is read. -/
structure EventEntry where
  startMs : Nat
  endMs : Nat
  style : String
  text : String
  deriving DecidableEq, Repr

/-- The fields of a row that is split at its first `count` commas; it must have as many. -/
def fields? (count : Nat) (row : List Char) : Option (List (List Char)) :=
  let pieces := row.splitOn ','
  if pieces.length ≤ count then none
  else some (pieces.take count ++ [[','].intercalate (pieces.drop count)])

/-- An event from its row. -/
def EventEntry.ofRow? (row : List Char) : Option EventEntry := do
  match ← fields? 9 row with
  | [_layer, start, stop, style, _name, _marginLeft, _marginRight, _marginVertical, _effect,
      text] =>
      return { startMs := ← timeMs? start, endMs := ← timeMs? stop, style := String.ofList style,
               text := String.ofList text }
  | _ => none

/-- The styles and the events that a player finds in a document. -/
structure Played where
  styles : List StyleEntry
  events : List EventEntry
  deriving DecidableEq

/-- The rows of a document. -/
def rowsOf (text : String) : List (List Char) := text.toList.splitOnP fun c => c ∈ rowEnds

/-- What the rows of one kind say. -/
def ofKind (kind : String) (rows : List (List Char)) : List (List Char) :=
  rows.filterMap (Text.after? (kind ++ ": ").toList)

/-- Reads a document. -/
def Played.read? (text : String) : Option Played := do
  return { styles := ← (ofKind "Style" (rowsOf text)).mapM StyleEntry.ofRow?
           events := ← (ofKind "Dialogue" (rowsOf text)).mapM EventEntry.ofRow? }

/-! ## Reading pieces -/

/-- A piece between separators is part of the text and has none of them. -/
theorem mem_of_mem_splitOnP {α : Type} {p : α → Bool} {xs piece : List α}
    (h : piece ∈ xs.splitOnP p) : ∀ x ∈ piece, x ∈ xs ∧ p x = false := by
  induction xs generalizing piece with
  | nil =>
      rw [List.splitOnP_nil, List.mem_singleton] at h
      simp [h]
  | cons x xs ih =>
      rw [List.splitOnP_cons_eq_if_modifyHead] at h
      split at h
      case isTrue =>
        rcases List.mem_cons.mp h with rfl | h
        · exact List.forall_mem_nil _
        · exact fun y hy => ⟨List.mem_cons_of_mem x (ih h y hy).1, (ih h y hy).2⟩
      case isFalse hx =>
        obtain ⟨first, rest, hrest⟩ := List.exists_cons_of_ne_nil (List.splitOnP_ne_nil p xs)
        rw [hrest, List.modifyHead_cons] at h
        rw [hrest] at ih
        rcases List.mem_cons.mp h with rfl | h
        · refine List.forall_mem_cons.mpr ⟨⟨List.mem_cons_self, by simpa using hx⟩, fun y hy => ?_⟩
          have hy := ih List.mem_cons_self y hy
          exact ⟨List.mem_cons_of_mem x hy.1, hy.2⟩
        · have hpiece := ih (List.mem_cons_of_mem first h)
          exact fun y hy => ⟨List.mem_cons_of_mem x (hpiece y hy).1, (hpiece y hy).2⟩

/-- The first pieces are the texts without the separator, the others those of the last text. -/
theorem splitOn_intercalate_concat {α : Type} [BEq α] [LawfulBEq α] {a : α} {first : List (List α)}
    (h : ∀ text ∈ first, a ∉ text) (last : List α) :
    ([a].intercalate (first ++ [last])).splitOn a = first ++ last.splitOn a := by
  induction first with
  | nil => rw [List.nil_append, List.intercalate_singleton, List.nil_append]
  | cons text first ih =>
      obtain ⟨htext, hfirst⟩ := List.forall_mem_cons.mp h
      rw [List.cons_append, List.intercalate_cons_of_ne_nil (by simp), List.append_assoc,
        List.singleton_append, List.splitOn_append_cons_self_of_not_mem htext, ih hfirst,
        List.cons_append]

theorem fields?_intercalate {first : List (List Char)} (h : ∀ text ∈ first, ',' ∉ text)
    (last : List Char) :
    fields? first.length ([','].intercalate (first ++ [last])) = some (first ++ [last]) := by
  have hlength := List.length_pos_of_ne_nil (List.splitOn_ne_nil ',' last)
  rw [fields?, splitOn_intercalate_concat h, List.take_left, List.drop_left,
    List.intercalate_splitOn, List.length_append, if_neg (by omega)]

/-! ## Reading rows -/

theorem rowsOf_join {lines : List String} (h : ∀ line ∈ lines, line.toList.Disjoint rowEnds) :
    rowsOf (String.join (lines.map (· ++ "\n"))) = lines.map String.toList ++ [[]] := by
  induction lines with
  | nil => rfl
  | cons line lines ih =>
      obtain ⟨hline, hlines⟩ := List.forall_mem_cons.mp h
      have htext : (String.join ((line :: lines).map (· ++ "\n"))).toList =
          line.toList ++ '\n' :: (String.join (lines.map (· ++ "\n"))).toList := by
        simp
      rw [rowsOf, htext, List.splitOnP_append_cons_of_forall_mem _ _ (by decide), ← rowsOf,
        ih hlines, List.map_cons, List.cons_append]
      exact fun c hc => by simpa using disjoint_left.mp hline hc

theorem toList_row (kind separator : String) (fields : List String) :
    (row kind separator fields).toList =
      (kind ++ ": ").toList ++ separator.toList.intercalate (fields.map String.toList) := by
  simp [row, toString]

/-! ## Reading colours and times -/

theorem hexDigit?_spec {c : Char} (h : isHexDigit c) :
    ∃ n, hexDigit? c = some n ∧ hexDigit? c.toUpper = some n := by
  have hall : "0123456789ABCDEFabcdef".toList.all fun c =>
      (hexDigit? c).isSome ∧ hexDigit? c.toUpper = hexDigit? c := by decide
  obtain ⟨hsome, hupper⟩ := of_decide_eq_true (List.all_eq_true.mp hall c (mem_of_isHexDigit h))
  obtain ⟨n, hn⟩ := Option.isSome_iff_exists.mp hsome
  exact ⟨n, hn, hupper.trans hn⟩

theorem byte?_spec {c d : Char} (hc : isHexDigit c) (hd : isHexDigit d) :
    ∃ n, byte? c d = some n ∧ byte? c.toUpper d.toUpper = some n := by
  obtain ⟨high, hhigh, hhigh'⟩ := hexDigit?_spec hc
  obtain ⟨low, hlow, hlow'⟩ := hexDigit?_spec hd
  exact ⟨16 * high + low, by simp [byte?, hhigh, hlow], by simp [byte?, hhigh', hlow']⟩

/-- A colour that a look may have is written so that it is read back. -/
theorem colour_read {text tag : String} (h : colour text = .ok tag) :
    ∃ c, Colour.ofLook? text = some c ∧ Colour.ofField? tag.toList = some c := by
  obtain ⟨r, r', g, g', b, b', hdigits, htag⟩ := colour_eq_ok h
  rw [colourDigits?, Option.ite_none_right_eq_some, Option.some.injEq] at hdigits
  obtain ⟨⟨-, hall⟩, hupper⟩ := hdigits
  simp only [List.map_eq_cons_iff, List.map_eq_nil_iff] at hupper
  obtain ⟨x, _, hlook, rfl, x', _, rfl, rfl, y, _, rfl, rfl, y', _, rfl, rfl, z, _, rfl, rfl, z', _,
    rfl, rfl, rfl⟩ := hupper
  rw [hlook] at hall
  rw [Colour.ofLook?, htag, hlook]
  simp only [List.all_cons, List.all_nil, Bool.and_true, Bool.and_eq_true] at hall
  obtain ⟨hx, hx', hy, hy', hz, hz'⟩ := hall
  obtain ⟨red, hred, hred'⟩ := byte?_spec hx hx'
  obtain ⟨green, hgreen, hgreen'⟩ := byte?_spec hy hy'
  obtain ⟨blue, hblue, hblue'⟩ := byte?_spec hz hz'
  have hopaque : byte? '0' '0' = some 0 := by decide
  refine ⟨⟨0, red, green, blue⟩, ?_, ?_⟩
  · simp [hred, hgreen, hblue]
  · simp [Colour.ofField?, hopaque, hred', hgreen', hblue']

theorem toList_timestamp (ms : Nat) :
    let centis := ms / 10
    (timestamp ms).toList = Nat.toDigits 10 (centis / 360000) ++ ':' ::
      (Decimal.padded 2 (centis % 360000 / 6000) ++ ':' ::
        (Decimal.padded 2 (centis % 6000 / 100) ++ '.' :: Decimal.padded 2 (centis % 100))) := by
  simp [timestamp, toString]

theorem twoDigits?_padded {n : Nat} (h : n < 100) : twoDigits? (Decimal.padded 2 n) = some n := by
  rw [twoDigits?, if_pos (Decimal.length_padded (by decide) h), Decimal.natOfText?_padded]

/-- The fields of a time. -/
theorem splitOn_timestamp (ms : Nat) :
    let centis := ms / 10
    let last := Decimal.padded 2 (centis % 6000 / 100) ++ '.' :: Decimal.padded 2 (centis % 100)
    (timestamp ms).toList.splitOn ':' =
        [Nat.toDigits 10 (centis / 360000), Decimal.padded 2 (centis % 360000 / 6000), last] ∧
      last.splitOn '.' =
        [Decimal.padded 2 (centis % 6000 / 100), Decimal.padded 2 (centis % 100)] := by
  have htext := toList_timestamp ms
  generalize ms / 10 = centis at htext ⊢
  have hpadded {c : Char} (hc : c.isDigit = false) (n : Nat) : c ∉ Decimal.padded 2 n :=
    Decimal.not_mem_padded hc 2 n
  have hhours : ':' ∉ Nat.toDigits 10 (centis / 360000) := fun hmem =>
    absurd (Nat.isDigit_of_mem_toDigits (by decide) (by decide) hmem) (by decide)
  have hlast : ':' ∉ Decimal.padded 2 (centis % 6000 / 100) ++ '.' ::
      Decimal.padded 2 (centis % 100) := by
    simp [hpadded (c := ':') (by decide)]
  constructor
  · rw [htext, List.splitOn_append_cons_self_of_not_mem hhours,
      List.splitOn_append_cons_self_of_not_mem (hpadded (by decide) _),
      List.splitOn_eq_singleton hlast]
  · rw [List.splitOn_append_cons_self_of_not_mem (hpadded (by decide) _),
      List.splitOn_eq_singleton (hpadded (by decide) _)]

/-- Times are cut off to hundredths of a second. -/
theorem timeMs?_timestamp (ms : Nat) : timeMs? (timestamp ms).toList = some (10 * (ms / 10)) := by
  obtain ⟨hfields, hlast⟩ := splitOn_timestamp ms
  generalize ms / 10 = centis at hfields hlast ⊢
  have hminutes : centis % 360000 / 6000 < 100 := by omega
  have hseconds : centis % 6000 / 100 < 100 := by omega
  have hcentis : centis % 100 < 100 := by omega
  simp only [timeMs?, hfields, hlast, Decimal.natOfText?_toDigits, twoDigits?_padded hminutes,
    twoDigits?_padded hseconds, twoDigits?_padded hcentis, Option.bind_eq_bind, Option.bind_some,
    Option.pure_def, Option.some.injEq]
  omega

end Montage.Caption
