import Montage.Cli.Tasks
import Montage.OutputPath
import Montage.Script.Launch
import Montage.Script.System

/-!
# The program

Reads the files that a call may need into a file tree, makes the call, and writes back what has
changed. The tools are run as scripts.
-/

namespace Montage.Main

/-- The environment variables that a call depends on. -/
def variableNames : List String :=
  ["HOME", "XDG_CONFIG_HOME", "TMPDIR", "PATH", Locator.credentialVariable]

/-- The values of the environment variables that are set. -/
def readEnvironment : IO (List (String × String)) :=
  variableNames.filterMapM fun name => do return (← IO.getEnv name).map fun value => (name, value)

/-- Whether a path leads to a directory. -/
def isDirectory (path : String) : IO Bool := do
  try
    let _ ← IO.FS.Handle.mk (path ++ "/.") .read
    return true
  catch _ => return false

/-- The bytes of a file, if there is one. -/
def readFile? (path : String) : IO (Option (List UInt8)) := do
  try return some (← IO.FS.readBinFile path).toList
  catch _ => return none

/-- A path and the directories that lead to it, the outermost one first. -/
def withParents (path : String) : List String :=
  let parts := Path.parts path
  (List.range parts.length).map fun i =>
    let start := "/".intercalate (parts.take (i + 1))
    if start = "" then "/" else start

/-- The tree with what a path leads to. A file that names an interpreter can be run. -/
def loadPath (t : FileTree) (path : String) : IO FileTree := do
  let mut t := t
  for start in withParents path do
    if !t.has start then
      if ← isDirectory start then t := (t.createDirectories start).1
      else
        match ← readFile? start with
        | none => pure ()
        | some bytes =>
            match t.locate start with
            | .ok place => t := t.put place (.file bytes (bytes.take 2 = [35, 33]))
            | .error _ => pure ()
  return t

/-- The tree with what some paths lead to. -/
def loadPaths (t : FileTree) (paths : List String) : IO FileTree := paths.foldlM loadPath t

/-- The paths among some arguments, also those attached to an option. -/
def argumentPaths (args : List String) : List String :=
  args.flatMap fun arg => arg :: ((Text.splitAt? ['='] arg.toList).map fun p =>
    String.ofList p.2).toList

/-- The paths that a configuration names; programs are looked for in the given directories. -/
def configPaths (dirs : List String) (c : Config) : List String :=
  let programs := [c.render.ffmpegPath, c.render.ffprobePath].flatMap fun name =>
    if name.toList.contains '/' then [name] else dirs.map fun dir => Path.join dir name
  programs ++ c.render.soundEffectPath.toList ++ c.render.tempDir.toList ++
    c.render.outputDir.toList ++ c.logging.file.toList

/-- The paths that the file at a path names, if it holds an edit or a configuration. -/
def namedPaths (dirs : List String) (t : FileTree) (path : String) : List String :=
  match t.readText path with
  | .error _ => []
  | .ok text =>
      ((Edit.ofText? text).toList.flatMap fun e => e.outputPath.toList ++ e.files.map Prod.snd) ++
        (Config.ofText? text).toList.flatMap (configPaths dirs)

/-- The seconds since the beginning of 1970: those from there to the start of the machine and those
since then. -/
def epochSeconds : IO Nat := do
  let words (path : String) : IO (List String) := do
    let text := Text.decodeLossy ((← readFile? path).getD [])
    return (Text.wordsOf text.toList).map String.ofList
  let number (text : String) : Nat :=
    (Decimal.natOfText? (text.toList.takeWhile Char.isDigit)).getD 0
  let started := ((← words "/proc/stat").dropWhile (· ≠ "btime")).drop 1
  return number (started.headD "") + number ((← words "/proc/uptime").headD "")

/-- Six random letters. -/
def randomSuffix : IO String := do
  let bytes ← IO.getRandomBytes 6
  return String.ofList (bytes.toList.map fun b => Char.ofNat ('a'.toNat + b.toNat % 26))

/-- The path of a location. -/
def pathOf (place : Location) : String := "/" ++ "/".intercalate place

/-- Writes back what differs between two trees; for a link, the file that it leads to. -/
def writeBack (before after : FileTree) : IO Unit := do
  for (place, entry) in after.contents.reverse do
    if before.entry? place ≠ some entry then
      match entry with
      | .directory => IO.FS.createDirAll (pathOf place)
      | .file bytes _ => IO.FS.writeBinFile (pathOf place) ⟨bytes.toArray⟩
      | .link _ =>
          match after.read (pathOf place) with
          | .ok bytes => IO.FS.writeBinFile (pathOf place) ⟨bytes.toArray⟩
          | .error _ => pure ()
  for (place, entry) in before.contents do
    if (after.entry? place).isNone then
      match entry with
      | .directory => IO.FS.removeDirAll (pathOf place)
      | _ => IO.FS.removeFile (pathOf place)

/-- Makes a call and gives its exit code. -/
def run (args : List String) : IO UInt32 := do
  let bindings ← readEnvironment
  let environment (name : String) : Option String := bindings.lookup name
  let here := (← IO.currentDir).toString
  let dirs := ((environment "PATH").getD Script.usualPath).splitOn ":"
  let host : Host := {
    environment
    now := Calendar.instantOf (← epochSeconds)
    suffix := ← randomSuffix
    launch := Script.launch environment }
  let empty : FileTree := { Script.programTree with current := (Path.parts here).filter (· ≠ "") }
  let paths := argumentPaths args ++ [Config.path environment]
  let t ← loadPaths (← loadPaths empty [here, host.temporaryDirectory]) paths
  let before ← loadPaths t (configPaths dirs {} ++ paths.flatMap (namedPaths dirs t))
  let ended := Cli.call host args before
  writeBack before ended.files
  (← IO.getStdout).putStr ended.output
  (← IO.getStderr).putStr ended.errors
  return UInt32.ofNat ended.code

end Montage.Main

def main (args : List String) : IO UInt32 := Montage.Main.run args
