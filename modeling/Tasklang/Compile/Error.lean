import Tasklang.Expression
import Tasklang.Template.Basic

/-! # Errors of compiling

Why a task list has no program.
-/

namespace Tasklang

/-- Why a task list cannot be compiled. -/
inductive CompileError where
  | template (e : TemplateError)
  | evaluation (e : EvalError)
  /-- The target of a task is no function that anything provides. -/
  | unresolvedTarget (target : String)
  /-- Variables are not declared by one mapping. -/
  | invalidVariables
  /-- The source of a loop is neither a sequence nor a template. -/
  | invalidLoop (shown : String)
  /-- A name is bound neither now nor when the program runs. -/
  | undefinedName (name : String)
  /-- A name that has to be bound is no Lua name. -/
  | invalidBinding (name : String)
  deriving DecidableEq, Repr

/-- The message of an error. -/
def CompileError.message : CompileError → String
  | .template e => e.message
  | .evaluation e => "Failed to evaluate expression: " ++ e.message
  | .unresolvedTarget target => "can't find function " ++ target ++ ", did you forget \x60from\x60 param?"
  | .invalidVariables => "invalid args, setVars args must be object"
  | .invalidLoop shown => "invalid loop params: " ++ shown
  | .undefinedName name =>
    "'" ++ name ++ "' is not defined at compile time and is never bound at run time"
  | .invalidBinding name => "'" ++ name ++ "' is not a valid binding name"

namespace Compile

/-- A computation of the compiler. -/
abbrev Compiling := Lua.Run CompileError

/-- The value of a parsed template, or its error. -/
def parsed {α : Type} (r : Except TemplateError α) : Compiling α :=
  Lua.Run.ofExcept (r.mapError .template)

/-- An evaluation whose errors are errors of compiling. -/
def evaluated {α : Type} (x : Lua.Run EvalError α) : Compiling α := x.mapError .evaluation

end Compile

end Tasklang
