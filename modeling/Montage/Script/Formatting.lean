import Montage.Decimal.Fixed
import Montage.Decimal.Reader
import Montage.Script.Arithmetic
import Montage.Script.Effect

/-!
# Writing texts

The tools that write their arguments: as they are, with their escapes resolved, or as a format says.
-/

namespace Montage.Script.Tool

/-- The byte of some octal digits. -/
def octal (digits : List Char) : UInt8 :=
  UInt8.ofNat (digits.foldl (fun n c => 8 * n + (c.toNat - '0'.toNat)) 0)

/-- Whether a character is an octal digit. -/
def isOctal (c : Char) : Bool := '0' ≤ c && c ≤ '7'

/-- What a letter after a backslash stands for. -/
def letter? : Char → Option UInt8
  | 'a' => some 7
  | 'b' => some 8
  | 'e' => some 27
  | 't' => some 9
  | 'n' => some 10
  | 'v' => some 11
  | 'f' => some 12
  | 'r' => some 13
  | '\\' => some 92
  | _ => none

/-- What the characters after a backslash stand for, and what follows them; none where the text
ends. Octal numbers may begin with an extra zero, unless in a format. -/
def escaped (inFormat : Bool) : List Char → Option (List UInt8) × List Char
  | [] => (some [92], [])
  | c :: rest =>
      match letter? c with
      | some byte => (some [byte], rest)
      | none =>
          if c = 'c' ∧ !inFormat then (none, [])
          else if inFormat ∧ c = '"' then (some [34], rest)
          else if isOctal c then
            let start := if inFormat ∨ c ≠ '0' then c :: rest else rest
            let digits := (start.take 3).takeWhile isOctal
            (some [octal digits], start.drop digits.length)
          else (some (Text.bytesOf ['\\', c]), rest)

/-- The bytes of a text with its escapes resolved, and whether the output goes on after it. -/
def unescaped : Nat → List Char → List UInt8 × Bool
  | 0, text => (Text.bytesOf text, true)
  | _, [] => ([], true)
  | fuel + 1, '\\' :: rest =>
      match escaped false rest with
      | (none, _) => ([], false)
      | (some bytes, rest) =>
          let (more, goesOn) := unescaped fuel rest
          (bytes ++ more, goesOn)
  | fuel + 1, c :: rest =>
      let (more, goesOn) := unescaped fuel rest
      (Text.bytesOf [c] ++ more, goesOn)

/-- The arguments with blanks between them, escapes resolved. -/
def echo : Tool := fun c =>
  let (endsLine, args) :=
    match c.arguments with
    | "-n" :: rest => (false, rest)
    | args => (true, args)
  let text := (" ".intercalate args).toList
  let (shown, goesOn) := unescaped (text.length + 1) text
  printing c (shown ++ if endsLine ∧ goesOn then [10] else [])

/-- A conversion of a format: flags, width, precision and letter. -/
structure Conversion where
  flags : List Char
  width : Nat
  precision : Option Nat
  letter : Char

/-- The number at the beginning of a text, or, for an asterisk, the next argument; with what
follows. -/
def readSize (text : List Char) (args : List String) : Nat × List Char × List String :=
  match text with
  | '*' :: rest => (numberOf (args.headD ""), rest, args.drop 1)
  | text =>
      let digits := text.takeWhile Char.isDigit
      (Decimal.ofDigits digits, text.drop digits.length, args)

/-- The conversion after a percent sign, what follows it, and the arguments that are left. -/
def conversion? (text : List Char) (args : List String) :
    Option (Conversion × List Char × List String) :=
  let flags := text.takeWhile ['-', '0', '+', ' ', '#'].contains
  let (width, rest, args) := readSize (text.drop flags.length) args
  let (precision, rest, args) : Option Nat × List Char × List String :=
    match rest with
    | '.' :: rest =>
        let (n, rest, args) := readSize rest args
        (some n, rest, args)
    | rest => (none, rest, args)
  match rest with
  | letter :: rest => some (⟨flags, width, precision, letter⟩, rest, args)
  | [] => none

/-- A text, one character for each byte, in a field of the width of a conversion. -/
def Conversion.fill (c : Conversion) (zeros : Bool) (text : List Char) : List UInt8 :=
  Text.bytesOf <|
    if c.flags.contains '-' then text.rightpad c.width ' '
    else
      if zeros && c.flags.contains '0' then
        let sign := text.takeWhile ['-', '+', ' '].contains
        sign ++ (text.drop sign.length).leftpad (c.width - sign.length) '0'
      else text.leftpad c.width ' '

/-- A number with the sign that a conversion asks for. -/
def Conversion.signed (c : Conversion) (chars : List Char) : List Char :=
  if chars.head? = some '-' then chars
  else if c.flags.contains '+' then '+' :: chars
  else if c.flags.contains ' ' then ' ' :: chars
  else chars

/-- A whole number as a conversion writes it. -/
def Conversion.whole (c : Conversion) (n : Int) : List UInt8 :=
  let base := match c.letter with
    | 'x' | 'X' => 16
    | 'o' => 8
    | _ => 10
  let signed := c.letter = 'd' || c.letter = 'i'
  let size := if signed then n.natAbs else Arithmetic.bits n
  let digits := (Nat.toDigits base size).leftpad (c.precision.getD 1) '0'
  let digits := if c.letter = 'X' then digits.map Char.toUpper else digits
  let digits :=
    if c.flags.contains '#' && size ≠ 0 && base = 16 then ['0', c.letter] ++ digits
    else if c.flags.contains '#' && base = 8 then '0' :: digits
    else digits
  let digits :=
    if signed then c.signed (if n < 0 then '-' :: digits else digits) else digits
  c.fill (c.precision = none) digits

/-- A real number as a conversion writes it. -/
def Conversion.real (c : Conversion) (x : Binary64) : List UInt8 :=
  let count := c.precision.getD 6
  let chars :=
    match c.letter.toLower with
    | 'e' => Decimal.scientificChars count x
    | 'g' => Decimal.generalChars count x
    | _ => Decimal.fixedChars count x
  let isUpper := c.letter.isUpper
  let chars := chars.map fun d => if isUpper then d.toUpper else d.toLower
  c.fill (x.isFinite) (c.signed chars)

/-- The whole number at the beginning of a text, and what follows it. A zero in front makes it
octal, with an x after it hexadecimal. -/
def readInteger (text : List Char) : Int × List Char :=
  let (negative, rest) := Decimal.splitSign (text.dropWhile Text.isByteBlank)
  let (base, shown) :=
    match rest with
    | '0' :: x :: more =>
        if (x = 'x' ∨ x = 'X') ∧ Arithmetic.digitsOf 16 more ≠ [] then (16, more) else (8, rest)
    | rest => (10, rest)
  let digits := Arithmetic.digitsOf base shown
  let size : Int := (digits.foldl (fun n d => base * n + d) 0 : Nat)
  (if negative then -size else size, if digits = [] then text else shown.drop digits.length)

/-- The number at the beginning of a text, and what follows it. -/
def readReal (text : List Char) : Binary64 × List Char :=
  let start := text.dropWhile Text.isByteBlank
  let lengths := (List.range (start.length + 1)).reverse
  (lengths.findSome? fun n =>
    (Decimal.numberOfText? (start.take n)).map fun x => (x, start.drop n)).getD (0, text)

/-- What is wrong with an argument of which some characters are left. -/
def flaw? (arg : String) (left : List Char) : Option String :=
  if left = [] then none
  else if left.length = arg.length then some "expected numeric value"
  else some "not completely converted"

/-- What is wrong with a number that should have been another one. -/
def rangeFlaw : String := "Numerical result out of range"

/-- The real number that an argument of a conversion spells, and what is wrong with it. -/
def realArgument (arg : String) : Binary64 × Option String :=
  let (x, left) := readReal arg.toList
  let shown := (arg.toList.take (arg.length - left.length)).takeWhile fun c => c ≠ 'e' && c ≠ 'E'
  let hasDigit := shown.any fun c => c.isDigit && c ≠ '0'
  let fits := !hasDigit || (x.isFinite && x.toRat ≠ 0)
  (x, (flaw? arg left).or (if fits then none else some rangeFlaw))

/-- The number that an argument of a conversion spells, and what is wrong with it; a quote gives the
code of the character after it. -/
def numberArgument (signed : Bool) (arg : String) : Int × Option String :=
  match arg.toList with
  | [] | ['\''] | ['"'] => (0, none)
  | '\'' :: c :: _ | '"' :: c :: _ => (c.toNat, none)
  | text =>
      let (n, left) := readInteger text
      let lowest : Int := if signed then -9223372036854775808 else -18446744073709551615
      let highest : Int := if signed then 9223372036854775807 else 18446744073709551615
      let fits := lowest ≤ n ∧ n ≤ highest
      (if fits then n else if n < 0 ∧ signed then lowest else highest,
        (flaw? arg left).or (if fits then none else some rangeFlaw))

/-- An argument as a conversion writes it, whether the output goes on after it, and the complaint
about it; none if there is no such conversion. -/
def Conversion.write? (c : Conversion) (arg : String) :
    Option (List UInt8 × Bool × Option String) :=
  let complaint (flaw : Option String) : Option String := flaw.map fun f => s!"printf: {arg}: {f}"
  let cut (text : List Char) : List Char :=
    match c.precision with
    | some n => text.take n
    | none => text
  match c.letter with
  | 'd' | 'i' | 'u' | 'x' | 'X' | 'o' =>
      let (n, flaw) := numberArgument (c.letter = 'd' || c.letter = 'i') arg
      some (c.whole n, true, complaint flaw)
  | 'e' | 'E' | 'f' | 'F' | 'g' | 'G' =>
      let (x, flaw) := realArgument arg
      some (c.real x, true, complaint flaw)
  | 'c' => some (c.fill false [arg.toList.headD '\x00'], true, none)
  | 'b' =>
      let (bytes, goesOn) := unescaped (arg.length + 1) arg.toList
      some (c.fill false (cut (Text.charsOf bytes)), goesOn, none)
  | 's' => some (c.fill false (cut arg.toList), true, none)
  | _ => none

/-- What a format has made. -/
structure Formatted where
  bytes : List UInt8 := []
  complaints : List String := []
  /-- The arguments that are left. -/
  left : List String
  goesOn : Bool := true
  /-- Whether a conversion was not known. -/
  broken : Bool := false

/-- Something written in front of the rest. -/
def Formatted.after (f : Formatted) (bytes : List UInt8) (complaint : Option String) : Formatted :=
  { f with bytes := bytes ++ f.bytes, complaints := complaint.toList ++ f.complaints }

/-- One pass over a format. -/
def formatOnce : Nat → List Char → List String → Formatted
  | 0, _, args => { left := args }
  | _, [], args => { left := args }
  | fuel + 1, c :: rest, args =>
      match c, rest with
      | '%', '%' :: rest => (formatOnce fuel rest args).after [37] none
      | '%', whole =>
          match conversion? whole args with
          | some (conversion, rest, args) =>
              match conversion.write? (args.headD "") with
              | some (bytes, true, complaint) =>
                  (formatOnce fuel rest (args.drop 1)).after bytes complaint
              | some (bytes, false, complaint) =>
                  { bytes, complaints := complaint.toList, left := [], goesOn := false }
              | none =>
                  let directive := String.ofList (whole.take (whole.length - rest.length))
                  { complaints := [s!"printf: %{directive}: invalid directive"], left := [],
                    goesOn := false, broken := true }
          | none => (formatOnce fuel whole args).after [37] none
      | '\\', rest =>
          match escaped true rest with
          | (some bytes, rest) => (formatOnce fuel rest args).after bytes none
          | (none, _) => { left := [], goesOn := false }
      | c, rest => (formatOnce fuel rest args).after (Text.bytesOf [c]) none

/-- A format applied until no argument is left. -/
def formatAll (format : List Char) : Nat → List String → Formatted
  | 0, args => { left := args }
  | fuel + 1, args =>
      let f := formatOnce (format.length + 1) format args
      if f.left = [] ∨ f.left.length = args.length ∨ !f.goesOn then f
      else
        let more := formatAll format fuel f.left
        { more with bytes := f.bytes ++ more.bytes, complaints := f.complaints ++ more.complaints }

/-- The arguments written after a format. -/
def printf : Tool := fun c =>
  let args := if c.arguments.head? = some "--" then c.arguments.tail else c.arguments
  match args with
  | [] => failing c 2 "usage: printf format [arg ...]"
  | format :: rest =>
      match format.toList with
      | '-' :: letter :: _ =>
          if c.arguments.head? = some "--" then written c format rest
          else failing c 2 s!"Illegal option -{letter}"
      | _ => written c format rest
where
  /-- What a format makes of some arguments. -/
  written (c : Call) (format : String) (args : List String) : Effect :=
    let f := formatAll format.toList (args.length + 1) args
    { writings := (f.complaints.map .complaint) ++ [.shown f.bytes], files := c.files,
      status := if f.broken then 2 else if f.complaints = [] then 0 else 1 }

end Montage.Script.Tool
