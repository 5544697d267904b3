/-!
# Pieces of a text

White space around a text and in it, the first occurrence of a mark in a text, with what stands
before and after it, and the lines of a text.
-/

namespace Montage.Text

/-! ## White space

The characters with the Unicode property `White_Space`, and the two operations that depend on them:
trimming, and splitting into words. -/

/-- The characters with the property `White_Space`. -/
def isBlank (c : Char) : Bool :=
  let n := c.toNat
  (0x09 ≤ n && n ≤ 0x0D) || n == 0x20 || n == 0x85 || n == 0xA0 || n == 0x1680 ||
    (0x2000 ≤ n && n ≤ 0x200A) || n == 0x2028 || n == 0x2029 || n == 0x202F || n == 0x205F ||
    n == 0x3000

/-- Without the white space at both ends. -/
def trimChars (s : List Char) : List Char :=
  ((s.dropWhile isBlank).reverse.dropWhile isBlank).reverse

/-- Without the white space at both ends. -/
def trim (s : String) : String := String.ofList (trimChars s.toList)

/-- The maximal runs without white space. -/
def wordsOf (s : List Char) : List (List Char) :=
  (s.splitBy fun a b => isBlank a == isBlank b).filter fun run => run.any fun c => !isBlank c

example : String.ofList (trimChars " a b\t".toList) = "a b" := by decide

example : wordsOf "  ab c ".toList = [['a', 'b'], ['c']] := by decide +kernel

/-! ## Marks -/

/-- What stands before and after the first occurrence of `mark`. -/
def splitAt? (mark : List Char) : List Char → Option (List Char × List Char)
  | [] => if mark = [] then some ([], []) else none
  | c :: rest =>
      if mark.isPrefixOf (c :: rest) then some ([], (c :: rest).drop mark.length)
      else (splitAt? mark rest).map fun (before, after) => (c :: before, after)

/-- Whether `mark` occurs. -/
def contains (mark s : List Char) : Bool := (splitAt? mark s).isSome

/-- What follows `start`, if the text begins so. -/
def after? (start s : List Char) : Option (List Char) :=
  if start.isPrefixOf s then some (s.drop start.length) else none

theorem after?_append (start rest : List Char) : after? start (start ++ rest) = some rest := by
  rw [after?, if_pos (by simp), List.drop_left]

theorem after?_of_ne {c d : Char} (h : c ≠ d) (start text : List Char) :
    after? (c :: start) (d :: text) = none := by
  simp [after?, h]

/-- The runs between occurrences of a character; always at least one. -/
def splitOnChar (c : Char) : List Char → List (List Char)
  | [] => [[]]
  | x :: rest =>
      if x = c then [] :: splitOnChar c rest
      else
        match splitOnChar c rest with
        | [] => [[x]]
        | run :: runs => (x :: run) :: runs

example : splitAt? ['b', 'c'] ['a', 'b', 'b', 'c', 'd'] = some (['a', 'b'], ['d']) := by decide

example : splitOnChar ',' ['a', ',', ',', 'b'] = [['a'], [], ['b']] := by decide

/-! ## Lines

A text is cut at line feeds, without a carriage return before one. A last line that is empty does
not count. -/

/-- The runs between line feeds, the last one only if it is not empty. -/
def rawLines : List Char → List Char → List (List Char)
  | done, [] => if done = [] then [] else [done.reverse]
  | done, c :: rest =>
      if c = '\n' then done.reverse :: rawLines [] rest else rawLines (c :: done) rest

/-- A line without the carriage return at its end. -/
def withoutReturn (line : List Char) : List Char :=
  match line.reverse with
  | '\r' :: rest => rest.reverse
  | _ => line

/-- The lines of a text. -/
def lines (s : List Char) : List (List Char) := (rawLines [] s).map withoutReturn

example : lines "a\r\n\nb".toList = [['a'], [], ['b']] := by decide +kernel

end Montage.Text
