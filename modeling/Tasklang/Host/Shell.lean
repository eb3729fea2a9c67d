import Tasklang.Host.Shell.Run
import Tasklang.Host.World

/-! # The shell

The shell as a program: it runs a script in a directory of the world.
-/

namespace Tasklang.Shell

/-- How a shell ended. -/
inductive Ending where
  | exited (code : Nat)
  | killed (signal : Nat)
  deriving DecidableEq, Repr

/-- The bound on how deeply the commands of a script may be nested and repeated. -/
def depth : Nat := 20000

/-- The session in which a shell of some name starts. -/
def start (w : World) (cwd : Place) (name : String) : Session :=
  let outside : Session := {
    files := w.files
    cwd
    bindings := w.environment.map fun (x, value) => (x, { value := some value, exported := true }) }
  outside.child name

/-- Run the shell with arguments: what it leaves behind, and how it ended. -/
def run (w : World) (cwd : Place) (name : String) (args : List String) : Session × Ending :=
  let (result, s) := (runArguments depth args).run.run (start w cwd name)
  match result with
  | .ok () => (s, .exited s.status)
  | .error (.exit code) => (s, .exited code)
  | .error (.returned code) => (s, .exited code)
  | .error (.killed signal) => (s, .killed signal)
  | .error .mistake => (s, .exited mistakeCode)
  | .error _ => (s, .exited s.status)

/-- What a session has written to a stream. -/
def Session.written (s : Session) (stream : Nat) : Bytes := s.buffers.getD (stream - 1) []

end Tasklang.Shell
