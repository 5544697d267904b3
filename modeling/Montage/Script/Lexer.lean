import Montage.Decimal.Reader
import Montage.Script.Syntax
import Montage.Text.Split

/-!
# The words and marks of a script

A script is read into words, marks and redirections, each with its line. The texts that `<<`
announces are read at the end of its line and referred to by their number. The last token tells
whether the script breaks off inside a word.
-/

namespace Montage.Script

/-- A unit of a script. -/
inductive Token where
  | word (w : Word)
  /-- An operator or the end of a line. -/
  | mark (text : String)
  /-- A redirection; its target is the word that follows. -/
  | redirect (stream : Nat) (operator : String)
  /-- A redirection from the text with a number. -/
  | here (stream index : Nat)
  /-- The end of the script, with what is missing there. -/
  | finish (flaw : Option String)
  deriving DecidableEq, Repr

/-- What is missing where a script breaks off. -/
structure Lack where
  missing : String
  /-- How many line ends in what was read do not count. -/
  uncounted : Nat := 0

/-- A reading that fails where the script breaks off. -/
abbrev Reads (α : Type) := Except Lack α

/-- A character of a name. -/
def isNameChar (c : Char) : Bool := c.isAlphanum || c == '_'

/-- Whether a text may name a variable. -/
def isName (name : List Char) : Bool :=
  name ≠ [] && name.all isNameChar && !name.head?.any Char.isDigit

/-- A character that is a parameter by itself. -/
def isSpecial (c : Char) : Bool := ['@', '*', '#', '?', '$', '!', '-'].contains c || c.isDigit

/-- The grave accent. -/
def grave : Char := Char.ofNat 96

/-- Splits at the bracket that closes an open one. What is quoted or escaped does not count. -/
def closing (depth : Nat) (quote : Option Char) : List Char → Option (List Char × List Char)
  | [] => none
  | '\\' :: c :: rest =>
      let quote := if quote = some '\'' ∧ c = '\'' then none else quote
      keep ['\\', c] (closing depth quote rest)
  | c :: rest =>
      match quote with
      | some q => keep [c] (closing depth (if c = q then none else some q) rest)
      | none =>
          if c = '"' ∨ c = '\'' then keep [c] (closing depth (some c) rest)
          else if c = '(' then keep [c] (closing (depth + 1) none rest)
          else if c = ')' then
            if depth = 0 then some ([], rest) else keep [c] (closing (depth - 1) none rest)
          else keep [c] (closing depth none rest)
where
  /-- Adds characters in front of what is split off. -/
  keep (chars : List Char) (found : Option (List Char × List Char)) :
      Option (List Char × List Char) :=
    found.map fun (inner, rest) => (chars ++ inner, rest)

/-- The change that is written after the name of a parameter. -/
def changeOf : List Char → Change
  | [] => .unchanged
  | ':' :: '-' :: text => .orElse true text
  | ':' :: '=' :: text => .orAssign true text
  | ':' :: '?' :: text => .orFail true text
  | ':' :: '+' :: text => .inPlace true text
  | '-' :: text => .orElse false text
  | '=' :: text => .orAssign false text
  | '?' :: text => .orFail false text
  | '+' :: text => .inPlace false text
  | '#' :: '#' :: pattern => .withoutStart pattern true
  | '#' :: pattern => .withoutStart pattern false
  | '%' :: '%' :: pattern => .withoutEnd pattern true
  | '%' :: pattern => .withoutEnd pattern false
  | _ => .unknown

/-- The name of a parameter at the beginning of a text. -/
def parameterName : List Char → List Char
  | c :: rest =>
      if c.isDigit then (c :: rest).takeWhile Char.isDigit
      else if isNameChar c then (c :: rest).takeWhile isNameChar
      else if isSpecial c then [c]
      else []
  | [] => []

/-- The parameter inside braces. -/
def braced (quoted : Bool) (inner : List Char) : Part :=
  let whole (name : List Char) (change : Change) : Part :=
    .parameter (String.ofList name) (if name = [] then .unknown else change) quoted
  match inner with
  | '#' :: c :: rest =>
      let name := parameterName (c :: rest)
      if name = c :: rest then whole name .size
      else whole ['#'] (changeOf (c :: rest))
  | inner =>
      let name := parameterName inner
      whole name (changeOf (inner.drop name.length))

/-- Whether single quotes mean something inside braces: not where they are quoted already, unless
they belong to a pattern. -/
def singleQuotes (quoted : Bool) (inner : List Char) : Bool :=
  let rest := inner.drop (parameterName inner).length
  !quoted || rest.head? = some '#' || rest.head? = some '%'

/-- The commands up to a grave accent, and what follows it. -/
def betweenGraves (quoted : Bool) : List Char → Reads (List Char × List Char)
  | [] => .error { missing := "EOF in backquote substitution" }
  | '\\' :: c :: rest => do
      let (source, rest) ← betweenGraves quoted rest
      let plain := ['$', grave, '\\'].contains c || (quoted && c = '"')
      return (if plain then c :: source else '\\' :: c :: source, rest)
  | c :: rest => do
      if c = grave then return ([], rest)
      let (source, rest) ← betweenGraves quoted rest
      return (c :: source, rest)

/-- A character that ends a word. -/
def isMeta (c : Char) : Bool := [' ', '\t', '\n', ';', '&', '|', '<', '>', '(', ')'].contains c

/-- Joins neighbouring texts that are quoted alike. -/
def joined : List Part → Word
  | .text a quoted :: rest =>
      match joined rest with
      | .text b other :: more =>
          if quoted = other then .text (a ++ b) quoted :: more
          else .text a quoted :: .text b other :: more
      | more => .text a quoted :: more
  | part :: rest => part :: joined rest
  | [] => []

/-- A text that `<<` has announced: the line that ends it, and whether it is kept as it is. -/
structure Announced where
  delimiter : List Char
  verbatim : Bool
  /-- Whether tabs in front of its lines are left out. -/
  indented : Bool := false

/-- What is open inside a substitution. -/
inductive Opened where
  | bracket
  | choice
  deriving DecidableEq, Repr

/-- The state of the reading: tokens and texts so far, last ones first, announced texts, and the
line. -/
structure Reading where
  tokens : List (Nat × Token) := []
  texts : List Word := []
  announced : List Announced := []
  line : Nat := 1
  /-- What is open, inside a substitution, innermost first. -/
  opened : Option (List Opened) := none
  /-- Whether a command may begin here. -/
  begins : Bool := true

/-- Splits after the lines before a delimiter; the delimiter's own line is left out. -/
def untilDelimiter (delimiter : List Char) (shown : List Char → List Char) :
    List (List Char) → List (List Char) × List (List Char)
  | [] => ([], [])
  | line :: rest =>
      if shown line = delimiter then ([], rest)
      else
        let (body, rest) := untilDelimiter delimiter shown rest
        (shown line :: body, rest)

/-- The operators, longer ones first. -/
def operators : List String := ["&&", "||", ";;", "&", "|", ";", "(", ")"]

/-- The redirections, longer ones first. -/
def redirections : List String := [">>", ">&", "<&", "<", ">"]

/-- The first of some operators that a text begins with, and what follows it. -/
def operator? (among : List String) (source : List Char) : Option (String × List Char) :=
  among.findSome? fun op => (Text.after? op.toList source).map fun rest => (op, rest)

/-- The text of a word, and whether some of it is quoted. -/
def delimiterOf (w : Word) : Announced :=
  { delimiter := w.flatMap fun
      | .text chars _ => chars
      | _ => []
    verbatim := w.any fun
      | .text _ quoted => quoted
      | _ => false }

/-- Adds a token. -/
def Reading.add (r : Reading) (t : Token) : Reading := { r with tokens := (r.line, t) :: r.tokens }

/-- The words after which a command may begin. -/
def beginners : List String :=
  ["!", "do", "elif", "else", "if", "then", "until", "while", "\x7b"]

/-- Takes notice of a word inside a substitution. -/
def Reading.note (r : Reading) (w : Word) : Reading :=
  match r.opened with
  | none => r
  | some opened =>
      match plain? w with
      | some "case" =>
          if r.begins then { r with opened := some (.choice :: opened), begins := false } else r
      | some "in" => { r with begins := opened.head? = some .choice }
      | some "esac" =>
          if r.begins ∧ opened.head? = some .choice then
            { r with opened := some opened.tail, begins := false }
          else r
      | some word => { r with begins := r.begins && beginners.contains word }
      | none => { r with begins := false }

/-- Takes notice of a mark inside a substitution; none if it ends the substitution. -/
def Reading.noteMark (r : Reading) (mark : String) : Option Reading :=
  match r.opened with
  | none => some r
  | some opened =>
      let r := { r with begins := true }
      match mark, opened with
      | "(", opened => some { r with opened := some (.bracket :: opened) }
      | ")", [] => none
      | ")", .bracket :: rest => some { r with opened := some rest }
      | _, _ => some r

/-- The number of a stream in front of a redirection. -/
def streamNumber? : List Char → Option (Nat × List Char)
  | d :: c :: rest =>
      if d.isDigit && (c = '<' || c = '>') then some (Decimal.ofDigits [d], c :: rest) else none
  | _ => none

/-- Adds characters in front of what is split off. -/
def keeping (chars : List Char) (found : Reads (List Char × List Char)) :
    Reads (List Char × List Char) :=
  found.map fun (inner, rest) => (chars ++ inner, rest)

/-- Whether a character after the name of a parameter in braces means something there. -/
def isOperator (c : Char) : Bool := ['\x7d', ':', '-', '=', '?', '+', '#', '%'].contains c

mutual

/-- Splits at the brace that closes an open one. What is quoted, escaped or inside a substitution
does not count; `single` tells whether single quotes mean anything. -/
def braceEnd (single quoted : Bool) :
    Nat → Option Char → List Char → Reads (List Char × List Char)
  | 0, quote, _ | _, quote, [] =>
      .error { missing := if quoted || quote.isSome then "Unterminated quoted string"
        else "Missing '\x7d'" }
  | fuel + 1, quote, '\\' :: c :: rest =>
      let quote := if quote = some '\'' ∧ c = '\'' then none else quote
      keeping ['\\', c] (braceEnd single quoted fuel quote rest)
  | fuel + 1, quote, c :: rest =>
      if quote = some '\'' then
        keeping [c] (braceEnd single quoted fuel (if c = '\'' then none else quote) rest)
      else if c = '"' then
        keeping [c] (braceEnd single quoted fuel (if quote.isSome then none else some '"') rest)
      else if c = '\'' ∧ single ∧ quote = none then
        keeping [c] (braceEnd single quoted fuel (some c) rest)
      else if c = '\x7d' ∧ quote = none then .ok ([], rest)
      else
        match substitution? (quoted || quote.isSome) fuel (c :: rest) with
        | .error lack => .error lack
        | .ok (some (_, after)) =>
            keeping ((c :: rest).take (rest.length + 1 - after.length))
              (braceEnd single quoted fuel quote after)
        | .ok none => keeping [c] (braceEnd single quoted fuel quote rest)

/-- The piece after a dollar sign. -/
def dollar (quoted : Bool) : Nat → List Char → Reads (Part × List Char)
  | 0, rest => .ok (.text ['$'] quoted, rest)
  | _, '(' :: '(' :: rest =>
      match closing 0 none rest with
      | some (source, ')' :: rest) => .ok (.number source quoted, rest)
      | _ => .error { missing := "Missing '))'" }
  | fuel + 1, '(' :: rest => do
      let (_, after) ← readTokens fuel { opened := some [] } rest
      return (.output (rest.take (rest.length - after.length - 1)) quoted, after)
  | fuel + 1, '\x7b' :: rest =>
      let name := parameterName rest
      let after := rest.drop name.length
      -- A character that means nothing after the name is passed over.
      let passed := (after.take 1).filter fun c => !isOperator c
      match braceEnd (singleQuotes quoted rest) quoted fuel none (after.drop passed.length) with
      | .ok (inner, rest) => .ok (braced quoted (name ++ passed ++ inner), rest)
      | .error lack => .error { lack with uncounted := lack.uncounted + passed.count '\n' }
  | _, c :: rest =>
      if isNameChar c && !c.isDigit then
        let name := (c :: rest).takeWhile isNameChar
        .ok (.parameter (String.ofList name) .unchanged quoted, (c :: rest).drop name.length)
      else if isSpecial c then .ok (.parameter c.toString .unchanged quoted, rest)
      else .ok (.text ['$'] quoted, c :: rest)
  | _, [] => .ok (.text ['$'] quoted, [])

/-- The substitution at the beginning of a text, and what follows it. -/
def substitution? (quoted : Bool) : Nat → List Char → Reads (Option (Part × List Char))
  | 0, _ | _, [] => .ok none
  | fuel + 1, '$' :: rest => some <$> dollar quoted fuel rest
  | _, c :: rest => do
      if c = grave then
        let (source, rest) ← betweenGraves quoted rest
        return some (.output source quoted, rest)
      else return none

/-- The pieces of a word, last one first, inside double quotes or outside, and what follows;
`ends` tells whether a blank or an operator ends it. -/
def pieces (ends : Bool) : Nat → Bool → List Part → List Char → Reads (List Part × List Char)
  | 0, _, done, rest => .ok (done, rest)
  | _, true, _, [] => .error { missing := "Unterminated quoted string" }
  | _, false, done, [] => .ok (done, [])
  | fuel + 1, quotes, done, c :: rest => do
      match ← substitution? quotes fuel (c :: rest) with
      | some (part, rest) => pieces ends fuel quotes (part :: done) rest
      | none =>
          match quotes, c, rest with
          | true, '"', rest => pieces ends fuel false done rest
          -- All the arguments in quotes of their own leave nothing where there are none.
          | false, '"', '$' :: '@' :: '"' :: rest
          | false, '"', '$' :: '\x7b' :: '@' :: '\x7d' :: '"' :: rest =>
              pieces ends fuel false (.parameter "@" .unchanged true :: done) rest
          | false, '"', rest => pieces ends fuel true (.text [] true :: done) rest
          | false, '\'', rest =>
              let inner := rest.takeWhile (· ≠ '\'')
              match rest.drop inner.length with
              | [] => .error { missing := "Unterminated quoted string" }
              | _ :: rest => pieces ends fuel false (.text inner true :: done) rest
          | _, '\\', '\n' :: rest => pieces ends fuel quotes done rest
          | true, '\\', d :: rest =>
              let kept := if ['$', grave, '"', '\\'].contains d then [d] else ['\\', d]
              pieces ends fuel true (.text kept true :: done) rest
          | false, '\\', d :: rest => pieces ends fuel false (.text [d] true :: done) rest
          | quotes, c, rest =>
              if ends && !quotes && isMeta c then .ok (done, c :: rest)
              else pieces ends fuel quotes (.text [c] quotes :: done) rest

/-- The pieces of a text in which single quotes are plain characters, and double ones, too, or left
out; the characters that `escapable` lists lose a backslash in front of them. -/
def textPieces (escapable : List Char) (withQuotes : Bool) : Nat → List Char → List Part
  | 0, _ => []
  | _, [] => []
  | fuel + 1, c :: rest =>
      match substitution? true fuel (c :: rest) with
      | .ok (some (part, rest)) => part :: textPieces escapable withQuotes fuel rest
      | _ =>
          match c, rest with
          | '\\', '\n' :: rest => textPieces escapable withQuotes fuel rest
          | '\\', d :: rest =>
              .text (if escapable.contains d then [d] else ['\\', d]) true ::
                textPieces escapable withQuotes fuel rest
          | c, rest =>
              .text (if c = '"' ∧ !withQuotes then [] else [c]) true ::
                textPieces escapable withQuotes fuel rest

/-- A word, and what follows it. -/
def readWord : Nat → List Char → Reads (Word × List Char)
  | 0, source => .ok ([], source)
  | fuel + 1, source => do
      let (parts, rest) ← pieces true fuel false [] source
      return (joined parts.reverse, rest)

/-- Reads the announced texts from some lines. -/
def readTexts : Nat → List Announced → Reading → List (List Char) → Reading × List (List Char)
  | 0, _, r, lines | _, [], r, lines => ({ r with announced := [] }, lines)
  | fuel + 1, a :: more, r, lines =>
      let shown (line : List Char) : List Char :=
        if a.indented then line.dropWhile (· = '\t') else line
      let (body, rest) := untilDelimiter a.delimiter shown lines
      let chars := body.flatMap (· ++ ['\n'])
      let text :=
        if a.verbatim then [.text chars true]
        else joined (textPieces ['$', grave, '\\'] true fuel chars)
      readTexts fuel more { r with texts := text :: r.texts, line := r.line + body.length + 1 } rest

/-- A redirection of a stream at the beginning of a text. -/
def readRedirection :
    Nat → Reading → Option Nat → List Char → Reads (Option (Reading × List Char))
  | 0, _, _, _ => .ok none
  | fuel + 1, r, stream, source =>
      match Text.after? ['<', '<'] source with
      | some rest => do
          let indented := rest.head? = some '-'
          let start := (if indented then rest.drop 1 else rest).dropWhile (· = ' ')
          let (w, rest) ← readWord fuel start
          if w = [] then return some (r.add (.redirect (stream.getD 0) "<<"), start)
          return some ({ r.add (.here (stream.getD 0) (r.texts.length + r.announced.length)) with
            announced := r.announced ++ [{ delimiterOf w with indented }] }, rest)
      | none =>
          .ok <| (operator? redirections source).map fun (op, rest) =>
            let usual := if op.startsWith "<" then 0 else 1
            (r.add (.redirect (stream.getD usual) op), rest)

/-- Reads tokens up to the end of the script, or of the substitution that it is inside of. -/
def readTokens : Nat → Reading → List Char → Reads (Reading × List Char)
  | 0, r, rest => .ok (r, rest)
  | fuel + 1, r, [] =>
      if r.opened.isSome then
        .error { missing := "end of file unexpected (expecting \")\")" }
      else .ok (((readTexts fuel r.announced r []).1).add (.finish none), [])
  | fuel + 1, r, '\n' :: rest =>
      let r := { r with line := r.line + 1, begins := true }
      let r := r.add (.mark "\n")
      if r.announced.isEmpty then readTokens fuel r rest
      else
        let (r, lines) := readTexts fuel r.announced r (Text.splitOnChar '\n' rest)
        readTokens fuel r (['\n'].intercalate lines)
  | fuel + 1, r, '\\' :: '\n' :: rest => readTokens fuel { r with line := r.line + 1 } rest
  | fuel + 1, r, c :: rest =>
      let source := c :: rest
      if c = ' ' ∨ c = '\t' then readTokens fuel r rest
      else if c = '#' then readTokens fuel r (rest.dropWhile (· ≠ '\n'))
      else
        let (stream, after) :=
          match streamNumber? source with
          | some (n, after) => (some n, after)
          | none => (none, source)
        let broken (lack : Lack) : Reads (Reading × List Char) :=
          if r.opened.isSome then .error lack
          else
            let r := { r with line := r.line + source.count '\n' - lack.uncounted }
            .ok (r.add (.finish (some lack.missing)), [])
        match readRedirection fuel r stream after with
        | .error lack => broken lack
        | .ok (some (r, rest)) => readTokens fuel { r with begins := false } rest
        | .ok none =>
            match operator? operators source with
            | some (op, rest) =>
                match r.noteMark op with
                | some r => readTokens fuel (r.add (.mark op)) rest
                | none => .ok (r, rest)
            | none =>
                match readWord fuel source with
                | .error lack => broken lack
                | .ok (w, rest) =>
                    let lines := (source.take (source.length - rest.length)).count '\n'
                    readTokens fuel { (r.note w).add (.word w) with line := r.line + lines } rest

end

/-- The depth to which the parts of a text can be inside each other. -/
def depthOf (source : List Char) : Nat := 6 * source.length + 12

/-- A whole text as a word, blanks included; one that breaks off is taken as it is. -/
def wordOf (source : List Char) : Word :=
  match pieces false (depthOf source) false [] source with
  | .ok (parts, _) => joined parts.reverse
  | .error _ => [.text source true]

/-- A text that is quoted as a whole. -/
def quotedText (source : List Char) : Word :=
  joined (textPieces ['$', grave, '\\'] true (depthOf source) source)

/-- A text inside quoted braces, in which quotes only hide others. -/
def bracedText (source : List Char) : Word :=
  joined (textPieces ['$', grave, '\\', '"', '\x7d'] false (depthOf source) source)

/-- The tokens of a script with their lines, counted from a first line on, and its texts. -/
def tokensOf (line : Nat) (source : List Char) : List (Nat × Token) × List Word :=
  match readTokens (depthOf source) { line } source with
  | .ok (r, _) => (r.tokens.reverse, r.texts.reverse)
  | .error lack => ([(line, .finish (some lack.missing))], [])

end Montage.Script
