import Montage.Decimal.Reader
import Montage.Host.FileTree
import Montage.Text.Utf8

/-!
# The effects of tools

A tool is a function of how it is called: its options are read first, then it works on its files or
on its input. All its texts are byte texts.
-/

namespace Montage.Script

/-! ## Options -/

/-- What the arguments of a tool say: its options by their letters, with their values, and the other
arguments. -/
structure Given where
  options : List (Char × String) := []
  operands : List String := []

namespace Given

/-- Whether an option is given. -/
def has (g : Given) (letter : Char) : Bool := g.options.any fun o => o.1 = letter

/-- The value of an option, the last one that is given. -/
def value? (g : Given) (letter : Char) : Option String := g.options.reverse.lookup letter

/-- The values of an option. -/
def values (g : Given) (letter : Char) : List String :=
  (g.options.filter fun o => o.1 = letter).map Prod.snd

/-- The options that joined letters stand for, and the letter that still needs a value. -/
def letters (flags valued : List Char) :
    List Char → Except String (List (Char × String) × Option Char)
  | [] => .ok ([], none)
  | c :: rest =>
      if flags.contains c then do
        let (options, pending) ← letters flags valued rest
        return ((c, "") :: options, pending)
      else if !valued.contains c then .error s!"invalid option -- '{c}'"
      else if rest = [] then .ok ([], some c)
      else .ok ([(c, String.ofList rest)], none)

/-- Reads arguments: some letters are options by themselves, others have values. Two lines end the
options, which may otherwise stand between the other arguments. -/
def read (flags valued : String) : List String → Except String Given
  | [] => .ok {}
  | "--" :: rest => .ok { operands := rest }
  | arg :: rest =>
      match arg.toList with
      | '-' :: '-' :: _ => .error s!"unrecognized option '{arg}'"
      | '-' :: c :: more => do
          match ← letters flags.toList valued.toList (c :: more), rest with
          | (options, none), rest =>
              let g ← read flags valued rest
              return { g with options := options ++ g.options }
          | (options, some letter), value :: rest =>
              let g ← read flags valued rest
              return { g with options := options ++ (letter, value) :: g.options }
          | (_, some letter), [] => .error s!"option requires an argument -- '{letter}'"
      | _ => do
          let g ← read flags valued rest
          return { g with operands := arg :: g.operands }

end Given

/-! ## Calls and what they do -/

/-- How a tool is called. -/
structure Call where
  /-- The name by which it is called, which stands in front of its complaints. -/
  name : String
  arguments : List String
  input : List UInt8 := []
  /-- Whether the input is a file. -/
  steady : Bool := false
  files : FileTree

/-- Something that a tool writes: a piece of its output, or a line of complaint. -/
inductive Writing where
  | shown (bytes : List UInt8)
  | complaint (line : String)
  deriving DecidableEq

/-- What a tool does. -/
structure Effect where
  writings : List Writing := []
  status : Nat := 0
  files : FileTree
  /-- What is left of the input, if the tool has read from it. -/
  left : Option (List UInt8) := none

/-- A small program. -/
abbrev Tool := Call → Effect

namespace Effect

/-- With some more output. -/
def say (e : Effect) (bytes : List UInt8) : Effect :=
  { e with writings := e.writings ++ [.shown bytes] }

/-- With a text as more output. -/
def sayText (e : Effect) (text : String) : Effect := e.say (Text.toBytes text)

/-- With one more complaint, which makes for a status. -/
def complain (e : Effect) (line : String) (status : Nat) : Effect :=
  { e with writings := e.writings ++ [.complaint line], status }

end Effect

namespace Tool

/-- A name in quotes. -/
def quoted (name : String) : String := s!"'{name}'"

/-- A refusal as tools report it. -/
def reason (e : OsError) : String := (e.message.splitOn " (os").headD ""

/-- Success with some output. -/
def printing (c : Call) (output : List UInt8) : Effect :=
  { writings := [.shown output], files := c.files }

/-- Success with a text as output. -/
def saying (c : Call) (text : String) : Effect := printing c (Text.toBytes text)

/-- A mere status. -/
def ending (c : Call) (status : Nat) : Effect := { status, files := c.files }

/-- A mere complaint. -/
def failing (c : Call) (status : Nat) (complaint : String) : Effect :=
  { writings := [.complaint s!"{c.name}: {complaint}"], status, files := c.files }

/-- A complaint about the arguments of a tool. -/
def misusing (c : Call) (status : Nat) (complaint : String) : Effect :=
  { writings := [.complaint s!"{c.name}: {complaint}",
      .complaint s!"Try '{c.name} --help' for more information."]
    status, files := c.files }

/-- The effect of a call whose options are read first; a misuse has a status. -/
def withOptions (status : Nat) (flags valued : String) (act : Call → Given → Effect) : Tool :=
  fun c =>
    match Given.read flags valued c.arguments with
    | .error complaint => misusing c status complaint
    | .ok g => act c g

/-- The effect of a call that needs an operand. -/
def withOperands (flags valued : String) (act : Call → Given → Effect) : Tool :=
  withOptions 1 flags valued fun c g =>
    if g.operands = [] then misusing c 1 "missing operand" else act c g

/-- The lines of some bytes, with their ends. -/
def linesOf (bytes : List UInt8) : List (List UInt8) := bytes.splitBy fun a _ => a ≠ 10

/-- A line without its end. -/
def withoutEnd (line : List UInt8) : List UInt8 :=
  if line.getLast? = some 10 then line.dropLast else line

/-- The lines of some bytes as texts, without their ends. -/
def rowsOf (bytes : List UInt8) : List (List Char) :=
  (linesOf bytes).map fun line => Text.charsOf (withoutEnd line)

/-- The bytes of a text as a line. -/
def lineOf (text : List Char) : List UInt8 := Text.bytesOf text ++ [10]

/-- A number, or zero. -/
def numberOf (text : String) : Nat := (Decimal.natOfText? text.toList).getD 0

/-- A number in a field of blanks. -/
def inField (width n : Nat) : String := String.ofList ((Nat.toDigits 10 n).leftpad width ' ')

/-- The bytes that an endless output is cut to. -/
def endless : Nat := 1000000

/-- The devices that take any output. -/
def devices : List String := ["/dev/null", "/dev/zero"]

/-- What is read from a device. -/
def device? (path : String) (input : List UInt8) : Option (List UInt8) :=
  match path with
  | "/dev/stdin" => some input
  | "/dev/null" => some []
  | "/dev/zero" => some (List.replicate endless 0)
  | _ => none

/-- What was to be read: its path, and its contents or the refusal. -/
structure Source where
  path : String
  contents : Except OsError (List UInt8)

/-- The contents at some paths, or of the input if there are none; and what is left of the input, if
it is read. -/
def sources (c : Call) (paths : List String) : List Source × Option (List UInt8) :=
  (if paths = [] then ["-"] else paths).foldl (fun (found, left) path =>
    match device? (if path = "-" then "/dev/stdin" else path) (left.getD c.input) with
    | some bytes => (found ++ [⟨path, .ok bytes⟩], if path = "-" then some [] else left)
    | none => (found ++ [⟨path, c.files.read path⟩], left)) ([], none)

/-- The usual complaint about a path. -/
def about (path : String) (e : OsError) : String := s!"{path}: {reason e}"

/-- What is done with each source in turn; a refusal is reported and the others go on. -/
def eachSource {α : Type} (c : Call) (paths : List String) (complaint : String → OsError → String)
    (start : α) (act : α → Source → List UInt8 → Effect → α × Effect) : α × Effect :=
  let (found, left) := sources c paths
  found.foldl (fun (a, e) s =>
    match s.contents with
    | .ok bytes => act a s bytes e
    | .error refusal => (a, e.complain s!"{c.name}: {complaint s.path refusal}" 1))
    (start, ({ files := c.files, left } : Effect))

/-- A tool that copies each of its files, or its input, with some change. -/
def filtering (c : Call) (paths : List String) (change : List UInt8 → List UInt8) : Effect :=
  (eachSource c paths about () fun _ _ bytes e => ((), e.say (change bytes))).2

/-- Does something to the files for each path. A refusal is reported and the others go on. -/
def forEach (c : Call) (paths : List String) (complaint : String → OsError → String)
    (act : FileTree → String → Except OsError FileTree) : Effect :=
  paths.foldl (fun (done : Effect) path =>
    match act done.files path with
    | .ok files => { done with files }
    | .error e => done.complain s!"{c.name}: {complaint path e}" 1)
    { files := c.files }

end Tool

end Montage.Script
