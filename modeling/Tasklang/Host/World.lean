import Tasklang.Host.FileSystem
import Tasklang.Json.Basic

/-! # The world around a run

What a run can read and change: the files, the current directory, the environment, both output
streams, and the record of calls to recording functions.
-/

namespace Tasklang

/-- A call that a recording function has seen. -/
structure RecordedCall where
  name : String
  args : List Json
  deriving DecidableEq, Repr

/-- The world around a run. -/
structure World where
  files : FileSystem := {}
  cwd : Place := []
  environment : List (String × String) := []
  out : Bytes := []
  /-- What was written to the standard output and waits until a whole line is printed. -/
  waiting : Bytes := []
  err : Bytes := []
  calls : List RecordedCall := []
  deriving DecidableEq, Repr

namespace World

/-- The current directory as a path. -/
def cwdPath (w : World) : String := "/" ++ "/".intercalate w.cwd

/-- Print to the standard output, after what waits there. -/
def print (w : World) (bs : Bytes) : World :=
  { w with out := w.out ++ w.waiting ++ bs, waiting := [] }

/-- Write to the standard output, where it waits for what is printed next. -/
def write (w : World) (bs : Bytes) : World := { w with waiting := w.waiting ++ bs }

/-- Pass the output of a program on, which does not wait. -/
def passOn (w : World) (bs : Bytes) : World := { w with out := w.out ++ bs }

/-- All of the standard output at the end. -/
def output (w : World) : Bytes := w.out ++ w.waiting

/-- Append to the standard error. -/
def printError (w : World) (bs : Bytes) : World := { w with err := w.err ++ bs }

/-- Add a call to the record. -/
def record (w : World) (call : RecordedCall) : World := { w with calls := w.calls ++ [call] }

end World

end Tasklang
