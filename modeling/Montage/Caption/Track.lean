import Montage.Caption.Encode
import Montage.Clip.Basic
import Montage.Fault
import Montage.Text.Split
import Montage.Text.Upper

/-!
# The caption track

A segment with timed words becomes one cue for each word: all words are shown, the spoken ones
plain, the active one highlighted and pulsing, the coming ones half transparent. A segment without
timed words becomes one cue that pops in.
-/

/-!
## Caption markup

Colours in the form captions use, and plain text made safe: braces would open override blocks, and
backslashes would start tags.
-/

namespace Montage.Caption

/-- A hexadecimal digit, in either case. -/
def isHexDigit (c : Char) : Bool :=
  ('0' ≤ c && c ≤ '9') || ('a' ≤ c && c ≤ 'f') || ('A' ≤ c && c ≤ 'F')

/-- The six digits of a colour, red first, in upper case. White space around the colour and number
signs in front are passed over. -/
def colourDigits? (colour : String) : Option (List Char) :=
  let digits := (Text.trimChars colour.toList).dropWhile (· == '#')
  if digits.length = 6 ∧ digits.all isHexDigit then some (digits.map Char.toUpper) else none

/-- A colour `#RRGGBB` as `&H00BBGGRR`. -/
def colour (text : String) : Except Fault String :=
  match colourDigits? text with
  | some [r, r', g, g', b, b'] => .ok (String.ofList ['&', 'H', '0', '0', b, b', g, g', r, r'])
  | _ => .error (.graph s!"Invalid caption color '{text}', expected #RRGGBB")

/-- A character of plain text: braces become round, a backslash a slash, a line end a break. -/
def escapeChar : Char → List Char
  | '\x7b' => ['(']
  | '\x7d' => [')']
  | '\\' => ['/']
  | '\r' => []
  | '\n' => ['\\', 'N']
  | c => [c]

/-- Plain text as a cue shows it. -/
def escape (text : String) : String := String.ofList (text.toList.flatMap escapeChar)

/-- An override block. -/
def block (tags : String) : String := "\x7b" ++ tags ++ "\x7d"

/-! ## Cues -/

/-- The name of the style of captions. -/
def captionStyle : String := "Caption"

/-- The name of the style of the headline. -/
def hookStyle : String := "Hook"

/-- How long a segment without timed words takes to pop in. -/
def popInMs : Nat := 120

/-- How much larger the headline is than captions. -/
def hookScale : Binary64 := 1.15

/-- A headline shown from the beginning of the clip. -/
structure Hook where
  text : String
  endMs : Nat
  deriving DecidableEq, Repr

/-- A caption look whose colours were read, for a canvas. -/
structure Maker where
  look : CaptionLook
  width : Nat
  height : Nat
  textColour : String
  highlightColour : String
  outlineColour : String
  deriving DecidableEq

/-- The boundaries after `previous`: each word begins no earlier than the word before it and no
later than the segment ends. There are none when a word would begin after the end. -/
def boundariesFrom? (previous endMs : Nat) : List ClipWord → Option (List Nat)
  | [] => some [endMs]
  | word :: rest => do
      if endMs < previous then none
      else
        let b := clampNat previous endMs word.window.startMs
        return b :: (← boundariesFrom? b endMs rest)

/-- The boundaries of a segment: its beginning, the beginnings of its words but the first, and its
end. Word `i` is active between boundary `i` and the next one. -/
def boundaries? (s : ClipSegment) : Option (List Nat) := do
  return s.window.startMs :: (← boundariesFrom? s.window.startMs s.window.endMs (s.words.drop 1))

/-- Where a word stands relative to the active one. -/
inductive Turn where
  | spoken
  | active
  | coming
  deriving DecidableEq, Repr

/-- The turn of word `i` when word `active` is active. -/
def Turn.of (i active : Nat) : Turn :=
  if i < active then .spoken else if i = active then .active else .coming

namespace Maker

/-- A look whose colours are well formed. -/
def new (look : CaptionLook) (width height : Nat) : Except Fault Maker := do
  let textColour ← colour look.textColor
  let highlightColour ← colour look.highlightColor
  let outlineColour ← colour look.outlineColor
  return { look, width, height, textColour, highlightColour, outlineColour }

/-- Text in upper case if the look asks for it. -/
def cased (m : Maker) (text : String) : String :=
  if m.look.uppercase then Text.upper text else text

/-- The cue of a segment without timed words; an empty one has none. -/
def segmentCue? (m : Maker) (s : ClipSegment) : Option Cue :=
  let duration := s.window.duration
  if duration = 0 then none
  else some {
    startMs := s.window.startMs
    endMs := s.window.endMs
    style := captionStyle
    text := block s!"\\fscx80\\fscy80\\t(0,{min popInMs duration},\\fscx100\\fscy100)" ++
      escape (m.cased s.text) }

/-- The tags of a word: the active one swells and shrinks again within `pulseMs`. -/
def tags (m : Maker) (pulseMs : Nat) : Turn → String
  | .spoken => "\\r"
  | .coming => "\\r\\1a&H80&"
  | .active =>
      let highlight := s!"\\r\\1c{m.highlightColour}&"
      if pulseMs = 0 then highlight
      else
        let rise := pulseMs / 2
        let scale := m.look.highlightScale
        highlight ++ s!"\\t(0,{rise},\\fscx{scale}\\fscy{scale})" ++
          s!"\\t({rise},{pulseMs},\\fscx100\\fscy100)"

/-- The text that shows all words while one of them is active. -/
def wordsText (m : Maker) (words : List String) (active pulseMs : Nat) : String :=
  " ".intercalate (words.zipIdx.map fun (word, i) =>
    block (m.tags pulseMs (.of i active)) ++ word)

/-- A word as it is shown. -/
def shown (m : Maker) (w : ClipWord) : String := escape (m.cased (Text.trim w.text))

/-- The cues of a segment with timed words; a word whose boundaries coincide has none. -/
def wordCues? (m : Maker) (s : ClipSegment) : Option (List Cue) := do
  let bounds ← boundaries? s
  let words := s.words.map m.shown
  return ((bounds.zip (bounds.drop 1)).zip s.words).zipIdx.filterMap
    fun (((startMs, endMs), word), i) =>
      if startMs < endMs then
        some { startMs, endMs, style := captionStyle,
               text := m.wordsText words i (word.window.duration / 2) }
      else none

/-- The cues of a segment. -/
def cues? (m : Maker) (s : ClipSegment) : Option (List Cue) :=
  if s.words = [] then some (m.segmentCue? s).toList else m.wordCues? s

/-- The cue of a headline; one that ends at once has none. -/
def hookCue? (m : Maker) (h : Hook) : Option Cue :=
  if h.endMs = 0 then none
  else some { startMs := 0, endMs := h.endMs, style := hookStyle, text := escape (m.cased h.text) }

/-- The style of captions. -/
def style (m : Maker) : Style where
  name := captionStyle
  fontName := m.look.fontName
  fontSize := m.look.fontSize
  primary := m.textColour
  secondary := m.highlightColour
  outlineColour := m.outlineColour
  back := "&H64000000"
  bold := true
  outline := m.look.outlineWidth
  shadow := 0
  alignment :=
    match m.look.position with
    | .bottom => 2
    | .center => 5
    | .top => 8
  marginH := m.width / 18
  marginV := m.look.marginV

/-- The style of the headline: larger, at the top, with a shadow. -/
def headStyle (m : Maker) : Style :=
  { m.style with
    name := hookStyle
    fontSize := (.ofNat m.look.fontSize * hookScale : Binary64).round.toNat32
    alignment := 8
    marginV := m.height / 10
    shadow := 2 }

/-- The document of some segments and a headline. -/
def document? (m : Maker) (segments : List ClipSegment) (hook : Option Hook) : Option Document := do
  let cues ← segments.mapM m.cues?
  return {
    width := m.width
    height := m.height
    styles := [m.style, m.headStyle]
    cues := (hook.bind m.hookCue?).toList ++ cues.flatten }

end Maker

/-- The headline of a clip. -/
def hookOf (clip : Clip) : Option Hook :=
  clip.hookText.map fun text => { text, endMs := min clip.hookMs clip.durationMs }

/-- The caption track of a clip. -/
def ofClip (clip : Clip) : Outcome Document := do
  let m ← Outcome.ofExcept (Maker.new clip.look clip.canvas.width clip.canvas.height)
  Outcome.ofOption (m.document? clip.segments (hookOf clip))

end Montage.Caption
