import Montage.Script.Effect

/-!
# File tools

The tools that make, list, copy and remove files and directories, and those that take paths apart.
-/

namespace Montage.Script.Tool

/-- The names in a directory. -/
def namesIn (t : FileTree) (place : Location) : List String :=
  (t.contents.filterMap fun e =>
    if e.1.dropLast = place ∧ e.1 ≠ [] then e.1.getLast? else none).mergeSort fun a b => a ≤ b

/-- The last part of a path, slashes at its end apart. -/
def lastPart (path : String) : String := ((Path.partsToName path).getLast?).getD ""

/-- Makes directories. -/
def mkdir : Tool :=
  withOperands "p" "m" fun c g =>
    let complaint (path : String) (e : OsError) : String :=
      s!"cannot create directory {quoted path}: {reason e}"
    forEach c g.operands complaint fun t path =>
      if g.has 'p' then
        match t.createDirectories path with
        | (files, .ok _) => .ok files
        | (_, .error e) => .error e
      else t.createDirectory path

/-- Removes an empty directory. -/
def removeDirectory (t : FileTree) (path : String) : Except OsError FileTree := do
  let place ← t.locateEntry path
  match t.entry? place with
  | some .directory => if t.listing place = [] then return t.drop place else throw .notEmpty
  | some _ => throw .notADirectory
  | none => throw .notFound

/-- Removes empty directories. -/
def rmdir : Tool :=
  withOperands "" "" fun c g =>
    forEach c g.operands (fun path e => s!"failed to remove {quoted path}: {reason e}")
      removeDirectory

/-- Removes files, and directories if it is told to. -/
def rm : Tool :=
  withOptions 1 "fRr" "" fun c g =>
    let complaint (path : String) (e : OsError) : String :=
      s!"cannot remove {quoted path}: {reason e}"
    if g.operands = [] ∧ !g.has 'f' then misusing c 1 "missing operand"
    else
      forEach c g.operands complaint fun t path =>
        match t.findEntry path with
        | .ok .directory =>
            if g.has 'r' ∨ g.has 'R' then .ok (t.withoutDirectory path) else .error .isADirectory
        | .ok _ => t.removeFile path
        | .error e =>
            if g.has 'f' ∧ (e = .notFound ∨ e = .notADirectory) then .ok t else .error e

/-- Creates files that are missing. -/
def touch : Tool :=
  withOperands "c" "dt" fun c g =>
    let complaint (path : String) (e : OsError) : String :=
      s!"cannot touch {quoted path}: {reason e}"
    forEach c g.operands complaint fun t path =>
      if t.hasDirectory path ∨ devices.contains path ∨ (g.has 'c' ∧ !t.has path) then .ok t
      else t.touch path

/-- Lets files be run, or not. -/
def chmod : Tool := fun c =>
  match c.arguments with
  | mode :: paths =>
      let isNumber := mode.toList.all Char.isDigit
      let runs (old : Bool) : Bool :=
        if isNumber then mode.toList.any fun c => (c.toNat - '0'.toNat) % 2 = 1
        else if !mode.toList.contains 'x' then old
        else !mode.toList.contains '-'
      forEach c paths (fun path e => s!"cannot access {quoted path}: {reason e}") fun t path => do
        match t.entry? (← t.locate path) with
        | some (.file bytes old) => return t.put (← t.locate path) (.file bytes (runs old))
        | some _ => return t
        | none => throw .notFound
  | [] => misusing c 1 "missing operand"

/-- Where a file goes: to a path, or into a directory at it, with its own name. -/
def goalIn (t : FileTree) (target source : String) : String :=
  if t.hasDirectory target then Path.join target (lastPart source) else target

/-- Makes links. -/
def ln : Tool :=
  withOperands "sf" "" fun c g =>
    let source := g.operands.headD ""
    let name := goalIn c.files ((g.operands[1]?).getD (lastPart source)) source
    let files := if g.has 'f' then c.files.withoutFile name else c.files
    let kind := if g.has 's' then "symbolic" else "hard"
    let made :=
      if g.has 's' then files.createLink name source
      else (files.find source).bind fun entry => files.create name entry
    match made with
    | .ok files => { files }
    | .error e => failing c 1 s!"failed to create {kind} link {quoted name}: {reason e}"

/-- The tree with all that is at a location, and below it, at another one as well. -/
def graft (t : FileTree) (source target : Location) : FileTree :=
  (t.contents.filter fun (place, _) => source.isPrefixOf place).foldl
    (fun new (place, entry) => new.put (target ++ place.drop source.length) entry) t

/-- Copies or moves a file to a path, or into a directory at it. -/
def transfer (moving deep : Bool) (t : FileTree) (target source : String) :
    Except OsError FileTree := do
  let start ← if moving then t.locateEntry source else t.locate source
  let goal := goalIn t target source
  match t.entry? start with
  | none => throw .notFound
  | some .directory =>
      if !deep then throw .isADirectory
      let place ← t.locateEntry goal
      return if moving then (graft t start place).dropAll start else graft t start place
  | some (.file bytes _) =>
      if devices.contains goal then return t
      let written ← t.write goal bytes
      return if moving ∧ (t.locateEntry goal).toOption ≠ some start then written.drop start
        else written
  | some entry =>
      let made ← (t.withoutFile goal).create goal entry
      return if moving then made.drop start else made

/-- Copies or moves all but the last one of some paths there. -/
def transferring (moving deep : Bool) (c : Call) (g : Given) : Effect :=
  match g.operands.reverse with
  | target :: last :: others =>
      let word := if moving then "move" else "copy"
      forEach c (others.reverse ++ [last])
        (fun path e =>
          if e = .notFound then s!"cannot stat {quoted path}: {reason e}"
          else if e = .isADirectory then s!"-r not specified; omitting directory {quoted path}"
          else s!"cannot {word} {quoted path}: {reason e}")
        fun t path => transfer moving deep t target path
  | [one] => misusing c 1 s!"missing destination file operand after {quoted one}"
  | [] => misusing c 1 "missing file operand"

/-- Copies files. -/
def cp : Tool :=
  withOptions 1 "afpRr" "" fun c g =>
    transferring false (g.has 'a' || g.has 'R' || g.has 'r') c g

/-- Moves files. -/
def mv : Tool := withOptions 1 "f" "" (transferring true true)

/-- The names of files, and those in directories. -/
def ls : Tool :=
  withOptions 2 "aA1" "" fun c g =>
    let t := c.files
    let paths := if g.operands = [] then ["."] else g.operands.mergeSort fun a b => a ≤ b
    let isShown (name : String) : Bool := g.has 'a' || g.has 'A' || !name.startsWith "."
    let text (names : List String) : String := String.join (names.map (· ++ "\n"))
    let directories := paths.filter t.hasDirectory
    let singles := paths.filter fun path => !t.hasDirectory path && (t.findEntry path).isOk
    let lost := paths.filter fun path => !(t.findEntry path).isOk
    let e := lost.foldl (fun (e : Effect) path =>
      e.complain s!"{c.name}: cannot access {quoted path}: {reason .notFound}" 2) { files := t }
    let listed := directories.map fun path =>
      let names := namesIn t ((t.locate path).toOption.getD [])
      let title := if 1 < paths.length then s!"{path}:\n" else ""
      title ++ text ((if g.has 'a' then [".", ".."] else []) ++ names.filter isShown)
    let parts := (if singles = [] then [] else [text singles]) ++ listed
    e.sayText ("\n".intercalate parts)

/-- A text without slashes at its end; one of slashes only is the root. -/
def withoutSlashes (path : String) : String :=
  match (path.toList.reverse.dropWhile (· = '/')).reverse with
  | [] => if path = "" then "" else "/"
  | chars => String.ofList chars

/-- The last part of a path, without an ending that is given. -/
def basename : Tool :=
  withOperands "" "" fun c g =>
    let path := withoutSlashes (g.operands.headD "")
    let name := if path = "/" then path else (Path.parts path).getLast?.getD ""
    let ending := (g.operands[1]?).getD ""
    let isCut := name ≠ ending && ending.toList.isSuffixOf name.toList
    let kept := if isCut then name.toList.take (name.length - ending.length) else name.toList
    saying c (String.ofList kept ++ "\n")

/-- A path without its last part. -/
def dirname : Tool :=
  withOperands "" "" fun c g =>
    let parent (path : String) : String :=
      let start := (Path.parts (withoutSlashes path)).dropLast
      let joined := withoutSlashes ("/".intercalate start)
      if start = [] then (if withoutSlashes path = "/" then "/" else ".")
      else if joined = "" then "/" else joined
    saying c (String.join (g.operands.map fun path => parent path ++ "\n"))

/-- The current directory. -/
def pwd : Tool := fun c => saying c ("/" ++ "/".intercalate c.files.current ++ "\n")

/-- The tool that does nothing, with a status. -/
def idle (status : Nat) : Tool := fun c => ending c status

end Montage.Script.Tool
