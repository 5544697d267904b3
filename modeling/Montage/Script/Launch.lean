import Montage.Host.Basic
import Montage.Script.Eval

/-!
# Starting programs

A program that is started from outside runs to its end; what it has written, how it ended and what
became of the files is what others see of it. Inside, all texts are byte texts.
-/

namespace Montage.Script

/-- The files after the first pieces of the output that hold so many lines. -/
def filesAfter (count : Nat) (last : FileTree) : List (List UInt8 × FileTree) → FileTree
  | [] => last
  | (bytes, t) :: rest =>
      let lines := bytes.count 10
      if count ≤ lines then t else filesAfter (count - lines) last rest

/-- What a program does. -/
def run (environment : Environment) (invocation : Invocation) (t : FileTree) : Run :=
  let (result, s) := Id.run ((runHere fuel invocation).run.run
    { name := invocation.2.headD "", files := t, environment })
  let ending (files : FileTree) : FileTree :=
    { files with current := t.current }.respelled false Text.ofByteText
  let pieces := (s.written.filter fun w => w.1 = outputBuffer).reverse.map Prod.snd
  { output := s.bufferText outputBuffer
    errors := s.bufferText errorBuffer
    status :=
      match result with
      | .error (.exit status) => .exited status
      | .error (.killed signal) => .killed signal
      | _ => .exited s.status
    files := ending s.files
    filesAt := fun count => ending (filesAfter (max count 1) s.files pieces) }

/-- Starts a program by its name or path. -/
def launch (environment : Environment) (program : String) (args : List String)
    (t : FileTree) : Except OsError Run :=
  if (program :: args).any fun a => a.toList.contains '\x00' then .error .nulInArgument
  else
    let environment (name : String) : Option String :=
      (environment (Text.ofByteText name)).map Text.toByteText
    let program := Text.toByteText program
    let t := t.respelled true Text.toByteText
    (findProgram (environment "PATH") program (program :: args.map Text.toByteText) t).map
      fun (_, invocation) => run environment invocation t

end Montage.Script
