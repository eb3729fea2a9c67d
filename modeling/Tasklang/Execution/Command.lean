import Tasklang.Execution.Error
import Tasklang.Host.Shell
import Tasklang.Text.Blank

/-! # Running external programs

A program runs in a directory with its input empty and its output captured. When it succeeds its
output is passed on; otherwise its messages are.
-/

namespace Tasklang.Execution

open Lua

/-- What a finished command leaves behind, with the files as they are then. -/
structure CommandResult where
  finished : Finished
  files : FileSystem

/-- Run the shell, called by some name, with arguments. A shell that a signal ends counts as exit code one. -/
def runShell (w : World) (cwd : Place) (name : String) (args : List String) : CommandResult :=
  let (s, ending) := Shell.run w cwd name args
  let code := match ending with
    | .exited code => code
    | .killed _ => 1
  ⟨⟨s.written 1, s.written 2, code⟩, s.files⟩

/-- Run a program in a directory. -/
def capture (w : World) (directory program : String) (args : List String) :
    Except IoError CommandResult :=
  match w.files.resolve w.cwd directory with
  | .error e => .error e
  | .ok cwd =>
    if !w.files.isDirectory w.cwd directory then
      .error (if w.files.isFile w.cwd directory then .notADirectory else .notFound)
    else if program.contains '\x00' || args.any (·.contains '\x00') then .error .nulInArgument
    else
      if Programs.bareName program = "sh" then .ok (runShell w cwd program args)
      else match Programs.run? w.files cwd [] program args with
        | some finished => .ok ⟨finished, w.files⟩
        | none =>
          if program.contains '/' then
            match w.files.stat cwd program with
            | .ok _ => .error .permissionDenied
            | .error e => .error e
          else .error .notFound

/-- Whether a command succeeded. -/
def CommandResult.success (r : CommandResult) : Bool := r.finished.code == 0

/-- Pass on what a finished command wrote. -/
def relay (r : CommandResult) (w : World) : World :=
  let w := { w with files := r.files }
  if r.success then w.passOn r.finished.out
  else w.printError (Bytes.ofChars (Text.trimEnd (Bytes.decodeLossy r.finished.err).toList) ++ [10])

/-- Run a program in a directory and pass on its output; the exit code. -/
def runProgram (directory program : String) (args : List String) : Running Nat := do
  let w ← Run.world
  match capture w directory program args with
  | .error cause => Run.throw (.spawn program cause)
  | .ok r =>
    Run.modifyWorld (relay r)
    return r.finished.code

end Tasklang.Execution
