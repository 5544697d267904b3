import Montage.Script.Lexer

/-!
# The commands of a script

A script is a list of commands between separators. The words that open and close compound commands
count as such only where a command may begin. A script is read line by line, so that the commands
before a flaw can still be run.
-/

namespace Montage.Script

/-- Tokens with their lines. -/
abbrev Tokens := List (Nat × Token)

/-- What was read, and the tokens that follow it. -/
abbrev After (α : Type) := α × Tokens

/-- The words that mean something where a command may begin. -/
def reservedWords : List String :=
  ["!", "case", "do", "done", "elif", "else", "esac", "fi", "for", "if", "in", "then", "until",
   "while", "\x7b", "\x7d"]

/-- The reserved word that the next token is. -/
def reserved? : Tokens → Option String
  | (_, .word w) :: _ => (plain? w).filter reservedWords.contains
  | _ => none

/-- The words and marks that end a list of commands. -/
def closers : List String := ["then", "else", "elif", "fi", "do", "done", "esac", "\x7d", ")", ";;"]

/-- The word or mark that the next token is. -/
def sign? : Tokens → Option String
  | (_, .mark m) :: _ => some m
  | tokens => reserved? tokens

/-- Whether the script ends here, and nothing is missing. -/
def isFinish : Tokens → Bool
  | [] | (_, .finish none) :: _ => true
  | _ => false

/-- What a flaw calls the next token. -/
def tokenName (tokens : Tokens) : String :=
  match tokens with
  | [] | (_, .finish _) :: _ => "end of file"
  | (_, .mark "\n") :: _ => "newline"
  | (_, .mark m) :: _ => s!"\"{m}\""
  | (_, .redirect ..) :: _ | (_, .here ..) :: _ => "redirection"
  | tokens =>
      match reserved? tokens with
      | some word => s!"\"{word}\""
      | none => "word"

/-- The line of the next token. -/
def lineOf (tokens : Tokens) : Nat := (tokens.head?.map Prod.fst).getD 1

/-- A flaw at the next token. -/
def flawAt (tokens : Tokens) (message : String) : Flaw := ⟨lineOf tokens, message⟩

/-- Refuses the next token. -/
def unexpected {α : Type} (tokens : Tokens) (wanted : Option String) : Except Flaw α :=
  let rest :=
    match wanted with
    | some "word" => " (expecting word)"
    | some word => s!" (expecting \"{word}\")"
    | none => ""
  match tokens with
  | (_, .finish (some flaw)) :: _ => .error (flawAt tokens flaw)
  | tokens => .error (flawAt tokens s!"{tokenName tokens} unexpected{rest}")

/-- Skips a reserved word or mark. -/
def expect (sign : String) (tokens : Tokens) : Except Flaw Tokens :=
  if sign? tokens = some sign then .ok tokens.tail else unexpected tokens (some sign)

/-- Skips line ends. -/
def skipLines : Tokens → Tokens
  | (line, .mark m) :: rest => if m = "\n" then skipLines rest else (line, .mark m) :: rest
  | tokens => tokens

/-- The target of a redirection operator. -/
def targetOf (operator : String) (w : Word) : Target :=
  match operator with
  | "<" => .readFrom w
  | ">>" => .appendTo w
  | ">&" | "<&" => .sameAs w
  | _ => .writeTo w

/-- The redirection at the beginning of some tokens, if there is one; it may refer to the texts that
the script announces. -/
def redirection (texts : List Word) (tokens : Tokens) : Except Flaw (After (Option Redirection)) :=
  match tokens with
  | (_, .redirect stream op) :: (_, .word w) :: rest => .ok (some ⟨stream, targetOf op w⟩, rest)
  | (_, .redirect ..) :: rest => unexpected rest none
  | (_, .here stream index) :: rest => .ok (some ⟨stream, .here (texts[index]?.getD [])⟩, rest)
  | tokens => .ok (none, tokens)

/-- The redirections at the beginning of some tokens. -/
def redirectionsOf (texts : List Word) : Nat → Tokens → Except Flaw (After (List Redirection))
  | 0, tokens => .ok ([], tokens)
  | fuel + 1, tokens => do
      match ← redirection texts tokens with
      | (none, tokens) => return ([], tokens)
      | (some r, rest) =>
          let (more, rest) ← redirectionsOf texts fuel rest
          return (r :: more, rest)

/-- A command with its redirections, if it has any. -/
def withRedirections (line : Nat) (c : Command) (rs : List Redirection) : Command :=
  if rs = [] then c else .redirected line c rs

/-- The name and the value of an assignment. -/
def assignment? : Word → Option (String × Word)
  | .text chars false :: rest =>
      match Text.splitAt? ['='] chars with
      | some (name, value) =>
          if isName name then
            some (String.ofList name, if value = [] then rest else .text value false :: rest)
          else none
      | none => none
  | _ => none

/-- A simple command, read up to the next mark. -/
def simpleCommand (texts : List Word) (line : Nat) :
    Nat → List (String × Word) → List Word → List Redirection → Tokens → Except Flaw (After Command)
  | 0, _, _, _, tokens => unexpected tokens none
  | fuel + 1, assignments, words, rs, tokens => do
      match ← redirection texts tokens with
      | (some r, rest) => simpleCommand texts line fuel assignments words (r :: rs) rest
      | (none, tokens) =>
          match tokens with
          | (_, .word w) :: rest =>
              match if words = [] then assignment? w else none with
              | some a => simpleCommand texts line fuel (assignments ++ [a]) words rs rest
              | none => simpleCommand texts line fuel assignments (w :: words) rs rest
          | tokens =>
              let c := Command.simple line assignments words.reverse
              return (withRedirections line c rs.reverse, tokens)

/-- The words up to the next mark. -/
def wordsOf : Tokens → List Word × Tokens
  | (_, .word w) :: rest =>
      let (ws, rest) := wordsOf rest
      (w :: ws, rest)
  | tokens => ([], tokens)

/-- The patterns of a branch, up to their closing bracket. -/
def patternsOf : Nat → Tokens → Except Flaw (After (List Word))
  | 0, tokens => unexpected tokens none
  | fuel + 1, tokens =>
      match tokens with
      | (_, .word w) :: (_, .mark "|") :: rest => do
          let (ws, rest) ← patternsOf fuel rest
          return (w :: ws, rest)
      | (_, .word w) :: rest => do return ([w], ← expect ")" rest)
      | tokens => do return ([], ← expect ")" tokens.tail)

/-- The special commands, whose names no command can take. -/
def specialNames : List String :=
  [":", ".", "break", "continue", "eval", "exec", "exit", "export", "return", "set", "shift",
   "trap", "unset"]

/-- The name that a definition gives. -/
def definedName (w : Word) (tokens : Tokens) : Except Flaw String :=
  match plain? w with
  | some name =>
      if isName name.toList && !specialNames.contains name then .ok name
      else .error (flawAt tokens "Bad function name")
  | none => .error (flawAt tokens "Bad function name")

/-- Some commands in order. -/
def inOrder : List Command → Command
  | [c] => c
  | cs => .sequence cs

mutual

/-- The commands up to a word or mark that ends them; `mayBeEmpty` tells whether there has to be
one. -/
def commands (texts : List Word) : Nat → Bool → Tokens → Except Flaw (After (List Command))
  | 0, _, tokens => unexpected tokens none
  | fuel + 1, mayBeEmpty, tokens => do
      let tokens := skipLines tokens
      if isFinish tokens then return ([], tokens)
      if mayBeEmpty && (sign? tokens).any closers.contains then return ([], tokens)
      let (first, rest) ← chain texts fuel tokens
      match rest with
      | (_, .mark "&") :: rest =>
          let (others, rest) ← commands texts fuel true rest
          return (.background first :: others, rest)
      | (_, .mark ";") :: rest | (_, .mark "\n") :: rest =>
          let (others, rest) ← commands texts fuel true rest
          return (first :: others, rest)
      | rest => return ([first], rest)

/-- Pipelines joined by `&&` and `||`. -/
def chain (texts : List Word) : Nat → Tokens → Except Flaw (After Command)
  | 0, tokens => unexpected tokens none
  | fuel + 1, tokens => do
      let (first, rest) ← pipeline texts fuel tokens
      chainRest texts fuel first rest

/-- The rest of a chain. -/
def chainRest (texts : List Word) : Nat → Command → Tokens → Except Flaw (After Command)
  | 0, _, tokens => unexpected tokens none
  | fuel + 1, first, tokens => do
      match tokens with
      | (_, .mark "&&") :: rest =>
          let (next, rest) ← pipeline texts fuel (skipLines rest)
          chainRest texts fuel (.both first next) rest
      | (_, .mark "||") :: rest =>
          let (next, rest) ← pipeline texts fuel (skipLines rest)
          chainRest texts fuel (.either first next) rest
      | tokens => return (first, tokens)

/-- Commands joined by `|`. -/
def pipeline (texts : List Word) : Nat → Tokens → Except Flaw (After Command)
  | 0, tokens => unexpected tokens none
  | fuel + 1, tokens => do
      let negated := sign? tokens = some "!"
      let (cs, rest) ← stages texts fuel (if negated then tokens.tail else tokens)
      let c := match cs with
        | [c] => c
        | cs => .pipeline cs
      return (if negated then .negated c else c, rest)

/-- The stages of a pipeline. -/
def stages (texts : List Word) : Nat → Tokens → Except Flaw (After (List Command))
  | 0, tokens => unexpected tokens none
  | fuel + 1, tokens => do
      let (c, rest) ← command texts fuel tokens
      match rest with
      | (_, .mark "|") :: rest =>
          let (cs, rest) ← stages texts fuel (skipLines rest)
          return (c :: cs, rest)
      | rest => return ([c], rest)

/-- One command with its redirections. -/
def command (texts : List Word) : Nat → Tokens → Except Flaw (After Command)
  | 0, tokens => unexpected tokens none
  | fuel + 1, tokens => do
      let (c, rest) ← compound texts fuel tokens
      let (rs, rest) ← redirectionsOf texts fuel rest
      return (withRedirections (lineOf tokens) c rs, rest)

/-- A compound command, or a simple one with all its redirections. -/
def compound (texts : List Word) : Nat → Tokens → Except Flaw (After Command)
  | 0, tokens => unexpected tokens none
  | fuel + 1, tokens => do
      match sign? tokens with
      | some "if" => conditional texts fuel tokens.tail
      | some "while" => loop texts fuel false tokens.tail
      | some "until" => loop texts fuel true tokens.tail
      | some "for" => each texts fuel tokens.tail
      | some "case" => choice texts fuel tokens.tail
      | some "\x7b" =>
          let (body, rest) ← commands texts fuel false tokens.tail
          return (inOrder body, ← expect "\x7d" rest)
      | some "(" =>
          let (body, rest) ← commands texts fuel false tokens.tail
          return (.subshell (inOrder body), ← expect ")" rest)
      | none =>
          match tokens with
          | (line, .word w) :: (_, .mark "(") :: rest =>
              if (assignment? w).isSome then
                simpleCommand texts line (tokens.length + 1) [] [] [] tokens
              else
                let rest ← expect ")" rest
                let name ← definedName w rest
                let (body, rest) ← command texts fuel (skipLines rest)
                return (.define name body, rest)
          | (line, .word _) :: _ | (line, .redirect ..) :: _ | (line, .here ..) :: _ =>
              simpleCommand texts line (tokens.length + 1) [] [] [] tokens
          | tokens => unexpected tokens none
      | some _ => unexpected tokens none

/-- A conditional after `if` or `elif`. -/
def conditional (texts : List Word) : Nat → Tokens → Except Flaw (After Command)
  | 0, tokens => unexpected tokens none
  | fuel + 1, tokens => do
      let (condition, rest) ← commands texts fuel false tokens
      let (thenBody, rest) ← commands texts fuel false (← expect "then" rest)
      match reserved? rest with
      | some "elif" =>
          let (elseBody, rest) ← conditional texts fuel rest.tail
          return (.conditional (inOrder condition) (inOrder thenBody) elseBody, rest)
      | some "else" =>
          let (elseBody, rest) ← commands texts fuel false rest.tail
          return (.conditional (inOrder condition) (inOrder thenBody) (inOrder elseBody),
            ← expect "fi" rest)
      | _ =>
          return (.conditional (inOrder condition) (inOrder thenBody) .nothing, ← expect "fi" rest)

/-- A loop after `while` or `until`. -/
def loop (texts : List Word) : Nat → Bool → Tokens → Except Flaw (After Command)
  | 0, _, tokens => unexpected tokens none
  | fuel + 1, awaited, tokens => do
      let (condition, rest) ← commands texts fuel false tokens
      let (body, rest) ← commands texts fuel false (← expect "do" rest)
      return (.loop awaited (inOrder condition) (inOrder body), ← expect "done" rest)

/-- A loop over words after `for`. -/
def each (texts : List Word) : Nat → Tokens → Except Flaw (After Command)
  | 0, tokens => unexpected tokens none
  | fuel + 1, tokens => do
      let name ←
        match tokens with
        | (_, .word w) :: _ =>
            match plain? w with
            | some name =>
                if isName name.toList then pure name
                else throw (flawAt tokens "Bad for loop variable")
            | none => throw (flawAt tokens "Bad for loop variable")
        | tokens => throw (flawAt tokens "Bad for loop variable")
      let rest := skipLines tokens.tail
      let (words, rest) ←
        if sign? rest = some "in" then
          let (ws, rest) := wordsOf rest.tail
          match rest with
          | (_, .mark ";") :: rest | (_, .mark "\n") :: rest => pure (some ws, rest)
          | rest => unexpected rest none
        else if sign? rest = some ";" then pure (none, rest.tail)
        else pure (none, rest)
      let (body, rest) ← commands texts fuel false (← expect "do" (skipLines rest))
      return (.each name words (inOrder body), ← expect "done" rest)

/-- A choice after `case`. -/
def choice (texts : List Word) : Nat → Tokens → Except Flaw (After Command)
  | 0, tokens => unexpected tokens none
  | fuel + 1, tokens => do
      match tokens with
      | (_, .word subject) :: rest =>
          let (found, rest) ← branches texts fuel (← expect "in" (skipLines rest))
          return (.choice subject found, rest)
      | tokens => unexpected tokens (some "word")

/-- The branches of a choice, up to `esac`. -/
def branches (texts : List Word) : Nat → Tokens → Except Flaw (After (List (List Word × Command)))
  | 0, tokens => unexpected tokens none
  | fuel + 1, tokens => do
      let tokens := skipLines tokens
      if sign? tokens = some "esac" then return ([], tokens.tail)
      let start := if sign? tokens = some "(" then tokens.tail else tokens
      let (patterns, rest) ← patternsOf (start.length + 1) start
      let (body, rest) ← commands texts fuel true rest
      let rest := skipLines rest
      if sign? rest = some "esac" then return ([(patterns, inOrder body)], rest.tail)
      let (more, rest) ← branches texts fuel (← expect ";;" rest)
      return ((patterns, inOrder body) :: more, rest)

end

/-- The number of calls that suffices for reading some tokens. -/
def readingFuel (tokens : Tokens) : Nat := 8 * tokens.length + 8

/-- The commands up to the end of a line of the script. -/
def lineOfCommands (texts : List Word) : Nat → Tokens → Except Flaw (After (List Command))
  | 0, tokens => unexpected tokens none
  | fuel + 1, tokens => do
      let goOn (c : Command) (rest : Tokens) : Except Flaw (After (List Command)) := do
        let (others, rest) ← lineOfCommands texts fuel rest
        return (c :: others, rest)
      match tokens with
      | (_, .mark "\n") :: rest => return ([], rest)
      | tokens =>
          if isFinish tokens then return ([], tokens)
          let (c, rest) ← chain texts (readingFuel tokens) tokens
          match rest with
          | (_, .mark "&") :: rest => goOn (.background c) rest
          | (_, .mark ";") :: rest => goOn c rest
          | (_, .mark "\n") :: rest => return ([c], rest)
          | rest => if isFinish rest then return ([c], rest) else unexpected rest none

end Montage.Script
