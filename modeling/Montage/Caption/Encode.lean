import Montage.Decimal.Fixed
import Montage.Json.Printer

/-!
# Caption documents

A document in the Advanced SubStation Alpha form: a header, a row for each style, and a row for
each cue. Times are written in hundredths of a second, cut off.
-/

namespace Montage.Caption

/-- A style row. Colours are written `&HAABBGGRR`; the alignment is that of a number pad. -/
structure Style where
  name : String
  fontName : String
  fontSize : Nat
  primary : String
  secondary : String
  outlineColour : String
  back : String
  bold : Bool
  outline : Binary64
  shadow : Binary64
  alignment : Nat
  marginH : Nat
  marginV : Nat
  deriving DecidableEq

/-- A text shown for a range of clip time, with its override tags. -/
structure Cue where
  startMs : Nat
  endMs : Nat
  style : String
  text : String
  deriving DecidableEq, Repr

/-- The canvas, the styles and the cues. -/
structure Document where
  width : Nat
  height : Nat
  styles : List Style
  cues : List Cue
  deriving DecidableEq

/-- Milliseconds as `H:MM:SS.cc`. -/
def timestamp (ms : Nat) : String :=
  let centis := ms / 10
  let two (n : Nat) : String := String.ofList (Decimal.padded 2 n)
  s!"{centis / 360000}:{two (centis % 360000 / 6000)}:{two (centis % 6000 / 100)}." ++
    two (centis % 100)

/-- The columns of style rows. -/
def styleColumns : List String :=
  ["Name", "Fontname", "Fontsize", "PrimaryColour", "SecondaryColour", "OutlineColour",
   "BackColour", "Bold", "Italic", "Underline", "StrikeOut", "ScaleX", "ScaleY", "Spacing",
   "Angle", "BorderStyle", "Outline", "Shadow", "Alignment", "MarginL", "MarginR", "MarginV",
   "Encoding"]

/-- The columns of event rows. -/
def eventColumns : List String :=
  ["Layer", "Start", "End", "Style", "Name", "MarginL", "MarginR", "MarginV", "Effect", "Text"]

/-- The fields of a style row. -/
def Style.fields (s : Style) : List String :=
  [s.name, s.fontName, toString s.fontSize, s.primary, s.secondary, s.outlineColour, s.back,
   if s.bold then "-1" else "0", "0", "0", "0", "100", "100", "0", "0", "1",
   Decimal.fixed 1 s.outline, Decimal.fixed 1 s.shadow, toString s.alignment, toString s.marginH,
   toString s.marginH, toString s.marginV, "1"]

/-- The fields of an event row. -/
def Cue.fields (c : Cue) : List String :=
  ["0", timestamp c.startMs, timestamp c.endMs, c.style, "", "0", "0", "0", "", c.text]

/-- A row: its kind and its fields. -/
def row (kind : String) (separator : String) (fields : List String) : String :=
  s!"{kind}: {separator.intercalate fields}"

namespace Document

/-- Whether nothing is shown. -/
def isEmpty (d : Document) : Bool := d.cues.isEmpty

/-- The lines of the document. -/
def lines (d : Document) : List String :=
  ["[Script Info]", "ScriptType: v4.00+", s!"PlayResX: {d.width}", s!"PlayResY: {d.height}",
   "WrapStyle: 0", "ScaledBorderAndShadow: yes", "", "[V4+ Styles]",
   row "Format" ", " styleColumns] ++
    d.styles.map (fun s => row "Style" "," s.fields) ++
    ["", "[Events]", row "Format" ", " eventColumns] ++
    d.cues.map (fun c => row "Dialogue" "," c.fields)

/-- The text of the document; each line is ended. -/
def text (d : Document) : String := String.join (d.lines.map (· ++ "\n"))

end Document

/-! ## Data form

The styles and cues of a document as data. -/

/-- The value of a style. -/
def Style.toJson (s : Style) : Json :=
  .record [("name", .text s.name), ("font_name", .text s.fontName),
    ("font_size", .ofNat s.fontSize),
    ("primary_colour", .text s.primary), ("secondary_colour", .text s.secondary),
    ("outline_colour", .text s.outlineColour), ("back_colour", .text s.back),
    ("bold", .bool s.bold), ("outline", .ofBinary64 s.outline), ("shadow", .ofBinary64 s.shadow),
    ("alignment", .ofNat s.alignment), ("margin_h", .ofNat s.marginH),
    ("margin_v", .ofNat s.marginV)]

/-- The value of a cue. -/
def Cue.toJson (c : Cue) : Json :=
  .record [("start_ms", .ofNat c.startMs), ("end_ms", .ofNat c.endMs), ("style_id", .text c.style),
    ("rendered_text", .text c.text)]

/-- The value of a document. -/
def Document.toJson (d : Document) : Json :=
  .record [("play_res_x", .ofNat d.width), ("play_res_y", .ofNat d.height),
    ("styles", .array (d.styles.map Style.toJson)), ("cues", .array (d.cues.map Cue.toJson))]

end Montage.Caption
