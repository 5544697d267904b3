import Montage.Script.Effect
import Montage.Script.Pattern
import Montage.Text.Split

/-!
# Filters

The tools that copy lines of their files, or of their input: all or some of them, numbered, counted,
cut to some columns, with characters replaced, or in another order.
-/

namespace Montage.Script.Tool

/-! ## Copies -/

/-- The contents of some files one after the other, and the complaints about the others. -/
def gathered (c : Call) (paths : List String) : List UInt8 × Effect :=
  eachSource c paths about [] fun bytes _ more e => (bytes ++ more, e)

/-- Copies files one after the other, with numbers in front of the lines on demand. -/
def cat : Tool :=
  withOptions 1 "nu" "" fun c g =>
    let numbered (row : List UInt8 × Nat) : List UInt8 :=
      Text.toBytes (inField 6 (row.2 + 1) ++ "\t") ++ row.1
    if g.has 'n' then
      let (bytes, e) := gathered c g.operands
      e.say ((linesOf bytes).zipIdx.flatMap numbered)
    else filtering c g.operands id

/-- The input, which is also written to files. -/
def tee : Tool :=
  withOptions 1 "a" "" fun c g =>
    let done := forEach c g.operands about fun t path =>
      if devices.contains path then .ok t
      else
        let old := if g.has 'a' then (t.read path).toOption.getD [] else []
        t.write path (old ++ c.input)
    { done.say c.input with left := some [] }

/-- The arguments again and again. -/
def yes : Tool := fun c =>
  let words := if c.arguments = [] then ["y"] else c.arguments
  let line := Text.toBytes (" ".intercalate words ++ "\n")
  printing c (List.replicate (endless / line.length) line).flatten

/-- The whole numbers from one to another. -/
def seq : Tool := fun c =>
  let line (n : Int) : String := s!"{n}\n"
  let counting (first step last : Int) : Effect :=
    if step = 0 then misusing c 1 "invalid Zero increment value: '0'"
    else
      let count := ((last - first).fdiv step + 1).toNat
      let numbers := (List.range (min count endless)).map fun (i : Nat) => first + step * i
      saying c (String.join (numbers.map line))
  match c.arguments.map fun text => Decimal.intOfText? text.toList with
  | [] => misusing c 1 "missing operand"
  | [some last] => counting 1 1 last
  | [some first, some last] => counting first 1 last
  | [some first, some step, some last] => counting first step last
  | _ => misusing c 1 "invalid floating point argument"

/-! ## Parts -/

/-- A number of bytes or lines, which may end in a letter for a power of 1024. -/
def amount? (text : List Char) : Option Nat :=
  let digits := text.takeWhile Char.isDigit
  if digits = [] then none
  else
    match text.drop digits.length with
    | [] => some (Decimal.ofDigits digits)
    | ['k'] | ['K'] => some (Decimal.ofDigits digits * 1024)
    | ['M'] => some (Decimal.ofDigits digits * 1048576)
    | _ => none

/-- A count with the sign in front of it. -/
def signed? (text : String) : Option (Option Char × Nat) :=
  match text.toList with
  | '+' :: rest => (amount? rest).map fun n => (some '+', n)
  | '-' :: rest => (amount? rest).map fun n => (some '-', n)
  | rest => (amount? rest).map fun n => (none, n)

/-- Arguments of which the first one may be a count by itself, which is spelled out. -/
def spelledOut : List String → List String
  | first :: rest =>
      match first.toList with
      | '-' :: d :: digits =>
          if d.isDigit then "-n" :: String.ofList (d :: digits) :: rest else first :: rest
      | _ => first :: rest
  | [] => []

/-- How a tool that shows parts of files complains about a path. -/
def aboutReading (path : String) (e : OsError) : String :=
  if e = .isADirectory then s!"error reading {quoted path}: {reason e}"
  else s!"cannot open {quoted path} for reading: {reason e}"

/-- Some lines or bytes of each file, with titles if there are several files; `part` gives those
that a signed count asks for. -/
def parts (part : Option Char → Nat → List (List UInt8) → List (List UInt8)) : Tool := fun c =>
  { c with arguments := spelledOut c.arguments } |> withOptions 1 "q" "nc" fun c g =>
    let (ofLines, count) : Bool × String :=
      match g.options.reverse.find? fun o => o.1 ≠ 'q' with
      | some (letter, value) => (letter = 'n', value)
      | none => (true, "10")
    match signed? count with
    | none =>
        let kind := if ofLines then "lines" else "bytes"
        failing c 1 s!"invalid number of {kind}: {quoted count}"
    | some (sign, n) =>
        let titled := 1 < g.operands.length && !g.has 'q'
        (eachSource c g.operands aboutReading true fun isFirst s bytes e =>
          let space := if isFirst then "" else "\n"
          let title := if titled then s!"{space}==> {s.path} <==\n" else ""
          let units := if ofLines then linesOf bytes else bytes.map fun b => [b]
          (false, (e.sayText title).say (part sign n units).flatten)).2

/-- The beginning of files; with a minus sign, all but the end. -/
def head : Tool :=
  parts fun sign n units => units.take (if sign = some '-' then units.length - n else n)

/-- The end of files; with a plus sign, all from some place on. -/
def tail : Tool :=
  parts fun sign n units => units.drop (if sign = some '+' then n - 1 else units.length - n)

/-! ## Counts -/

/-- The counts of lines, words and bytes. -/
structure Counts where
  lines : Nat := 0
  words : Nat := 0
  bytes : Nat := 0

/-- The counts of some bytes. -/
def Counts.ofBytes (bytes : List UInt8) : Counts :=
  let isSpace (b : UInt8) : Bool := Text.isByteBlank (Char.ofNat b.toNat)
  { lines := bytes.count 10
    words := (bytes.splitBy fun a b => isSpace a = isSpace b).countP fun run => !run.any isSpace
    bytes := bytes.length }

/-- The counts of two texts together. -/
def Counts.add (a b : Counts) : Counts :=
  { lines := a.lines + b.lines, words := a.words + b.words, bytes := a.bytes + b.bytes }

/-- The counts that an option asks for, or all. -/
def Counts.shown (a : Counts) (g : Given) : List Nat :=
  let all := [('l', a.lines), ('w', a.words), ('m', a.bytes), ('c', a.bytes)]
  if g.options = [] then [a.lines, a.words, a.bytes]
  else (all.filter fun p => g.has p.1).map Prod.snd

/-- Counts lines, words and bytes. -/
def wc : Tool :=
  withOptions 1 "lwmc" "" fun c g =>
    let (found, _) := sources c g.operands
    let isSteady (s : Source) : Bool := s.path ≠ "-" || c.steady
    let sizes := (found.filter isSteady).map fun s => (s.contents.toOption.getD []).length
    let least := if found.all isSteady then 1 else 7
    let width :=
      if (({} : Counts).shown g).length = 1 ∧ g.operands.length ≤ 1 then 1
      else max (Nat.toDigits 10 (sizes.foldl Nat.add 0)).length least
    let row (counts : Counts) (name : String) : String :=
      " ".intercalate ((counts.shown g).map (inField width)) ++
        (if name = "" then "\n" else s!" {name}\n")
    let (total, e) := eachSource c g.operands about ({} : Counts) fun total s bytes e =>
      let counts := Counts.ofBytes bytes
      (total.add counts, e.sayText (row counts (if g.operands = [] then "" else s.path)))
    if 1 < found.length then e.sayText (row total "total") else e

/-! ## Columns and characters -/

/-- The numbers from one to another that an item of a list stands for; without an end, all from the
first one on. -/
def range? (item : List Char) : Option (Nat × Option Nat) :=
  let number (digits : List Char) (usual : Option Nat) : Option (Option Nat) :=
    if digits = [] then some usual else (Decimal.natOfText? digits).map some
  match Text.splitAt? ['-'] item with
  | none => (Decimal.natOfText? item).map fun n => (n, some n)
  | some (low, high) => do
      let low ← number low (some 1)
      return (low.getD 1, ← number high none)

/-- Some fields or characters of each line. -/
def cut : Tool :=
  withOptions 1 "s" "bcdf" fun c g =>
    let list := ((g.value? 'f').or (g.value? 'c')).or (g.value? 'b')
    match list.map fun text => (Text.splitOnChar ',' text.toList).mapM range? with
    | none => misusing c 1 "you must specify a list of bytes, characters, or fields"
    | some none => misusing c 1 "invalid byte, character or field list"
    | some (some ranges) =>
        let separator := ((g.value? 'd').bind fun text => text.toList.head?).getD '\t'
        let isKept (place : Nat) : Bool :=
          ranges.any fun (low, high) => low ≤ place + 1 && high.all (place + 1 ≤ ·)
        let kept {α : Type} (parts : List α) : List α :=
          (parts.zipIdx.filter fun p => isKept p.2).map Prod.fst
        filtering c g.operands fun bytes => (rowsOf bytes).flatMap fun line =>
          if (g.value? 'f').isNone then lineOf (kept line)
          else if line.contains separator then
            lineOf ([separator].intercalate (kept (Text.splitOnChar separator line)))
          else if g.has 's' then []
          else lineOf line

/-- A text of which letters after backslashes stand for control characters. -/
def withControls : List Char → List Char
  | '\\' :: 'n' :: rest => '\n' :: withControls rest
  | '\\' :: 't' :: rest => '\t' :: withControls rest
  | '\\' :: 'r' :: rest => '\r' :: withControls rest
  | '\\' :: '0' :: '0' :: '0' :: rest => '\x00' :: withControls rest
  | '\\' :: '0' :: rest => '\x00' :: withControls rest
  | '\\' :: c :: rest => c :: withControls rest
  | c :: rest => c :: withControls rest
  | [] => []

/-- The characters of the byte texts. -/
def allChars : List Char := (List.range 256).map Char.ofNat

/-- The characters that a set lists, one by one, as ranges or by the names of classes. -/
def listedChars : Nat → List Char → List Char
  | 0, _ | _, [] => []
  | fuel + 1, '[' :: ':' :: rest =>
      match Text.splitAt? [':', ']'] rest with
      | some (name, rest) =>
          let ranges := (classRanges.lookup (String.ofList name)).getD []
          (allChars.filter fun c => ranges.any fun r => r.1 ≤ c && c ≤ r.2) ++
            listedChars fuel rest
      | none => '[' :: ':' :: listedChars fuel rest
  | fuel + 1, a :: '-' :: b :: rest =>
      (allChars.filter fun c => a ≤ c && c ≤ b) ++ listedChars fuel rest
  | fuel + 1, c :: rest => c :: listedChars fuel rest

/-- Runs of a character of a set as one. -/
def squeezed (set : List Char) : List Char → List Char
  | a :: b :: rest =>
      if a = b && set.contains a then squeezed set (b :: rest) else a :: squeezed set (b :: rest)
  | rest => rest

/-- The input with characters replaced, left out, or not repeated. -/
def tr : Tool :=
  withOperands "cCds" "" fun c g =>
    let set (text : String) : List Char :=
      listedChars (text.length + 1) (withControls text.toList)
    let firstText := g.operands.headD ""
    let listed := set firstText
    let first :=
      if g.has 'c' ∨ g.has 'C' then allChars.filter fun c => !listed.contains c else listed
    let second := (g.operands[1]?).map set
    let missing : Nat := first.length - (second.getD []).length
    let table := (first.zip (second.getD [] ++
      List.replicate missing ((second.bind List.getLast?).getD ' '))).reverse
    let input := Text.charsOf c.input
    let changed :=
      if g.has 'd' then input.filter fun c => !first.contains c
      else if second.isNone then input
      else input.map fun c => (table.lookup c).getD c
    let shown := if g.has 's' then squeezed (second.getD first) changed else changed
    if second.isNone ∧ !g.has 'd' ∧ !g.has 's' then
      misusing c 1 s!"missing operand after {quoted firstText}"
    else { printing c (Text.bytesOf shown) with left := some [] }

/-! ## Order -/

/-- The whole number at the beginning of a line, or zero. -/
def leadingNumber (line : List Char) : Int :=
  let (negative, rest) := Decimal.splitSign (line.dropWhile Text.isByteBlank)
  let size : Int := Decimal.ofDigits (rest.takeWhile Char.isDigit)
  if negative then -size else size

/-- The lines in order, by the numbers in front of them on demand. -/
def sort : Tool :=
  withOptions 2 "nrus" "" fun c g =>
    let (bytes, e) := gathered c g.operands
    let below (a b : List Char) : Bool := String.ofList a ≤ String.ofList b
    let inOrder (a b : List Char) : Bool :=
      let (m, n) := (leadingNumber a, leadingNumber b)
      if g.has 'n' ∧ m ≠ n then m < n else g.has 's' || (g.has 'n' && g.has 'u') || below a b
    let ordered := (rowsOf bytes).mergeSort fun a b =>
      if g.has 'r' then inOrder b a else inOrder a b
    let alike (a b : List Char) : Bool :=
      if g.has 'n' then leadingNumber a = leadingNumber b else a = b
    let shown := if g.has 'u' then (ordered.splitBy alike).flatMap (·.take 1) else ordered
    if e.status = 0 then e.say (shown.flatMap lineOf) else { e with status := 2 }

/-- Each run of equal lines once. -/
def uniq : Tool :=
  withOptions 1 "cdu" "" fun c g =>
    filtering c (g.operands.take 1) fun bytes =>
      let runs := ((rowsOf bytes).splitBy (· = ·)).filter fun run =>
        (!g.has 'd' || 1 < run.length) && (!g.has 'u' || run.length = 1)
      runs.flatMap fun run =>
        let count := if g.has 'c' then inField 7 run.length ++ " " else ""
        Text.toBytes count ++ lineOf (run.headD [])

end Montage.Script.Tool
