import Tasklang.Expression

/-! # Errors of running

Why a run of a program fails.
-/

namespace Tasklang

/-- Why the value of an import cannot be had. -/
inductive ImportFailure where
  | notFound (from_ base : String)
  | unreadable (path : String) (cause : IoError)
  /-- The code of the module failed, or is no code. -/
  | code (fault : Lua.Fault)
  /-- The module has no field of that name. -/
  | noExport (name : String)
  /-- A field was asked for, but the module is no table. -/
  | notATable (kind : String)
  deriving DecidableEq, Repr

/-- The message of a failed import. -/
def ImportFailure.message : ImportFailure → String
  | .notFound from_ base => "module '" ++ from_ ++ "' not found in " ++ base
  | .unreadable path cause => "cannot read '" ++ path ++ "': " ++ cause.message
  | .code fault => fault.message
  | .noExport name => "no export named '" ++ name ++ "'"
  | .notATable kind => "module returned a " ++ kind ++ ", not a table"

/-- Why a run fails. -/
inductive RuntimeError where
  | evaluation (e : EvalError)
  /-- The target of a call is no function. -/
  | notCallable (target : String)
  /-- The source of a loop is no table. -/
  | invalidLoopSource (kind : String)
  /-- A program cannot be started. -/
  | spawn (program : String) (cause : IoError)
  | importFailed (from_ : String) (cause : ImportFailure)
  deriving DecidableEq, Repr

/-- The message of an error. -/
def RuntimeError.message : RuntimeError → String
  | .evaluation e => e.message
  | .notCallable target => "'" ++ target ++ "' is not a function"
  | .invalidLoopSource kind => "loop source must be a sequence, got " ++ kind
  | .spawn program cause => "Failed to spawn '" ++ program ++ "': " ++ cause.message
  | .importFailed from_ cause => "Failed to import '" ++ from_ ++ "': " ++ cause.message

namespace Execution

/-- A computation of a run. -/
abbrev Running := Lua.Run RuntimeError

/-- An evaluation whose errors are errors of the run. -/
def evaluated {α : Type} (x : Lua.Run EvalError α) : Running α := x.mapError .evaluation

end Execution

end Tasklang
