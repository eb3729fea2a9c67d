import Tasklang.Program.Literal
import Tasklang.Program.Naming

/-! # Steps and imports

What a compiled program is made of: imports, which bind names before the body runs, and the steps
of the body.
-/

namespace Tasklang

/-- One step of a program. -/
inductive Step where
  /-- Bind a name in the current scope. -/
  | declare (name : String) (value : Literal)
  /-- Call a function and keep its value as the result. -/
  | call (target : String) (args : List Literal)
  /-- Run an external program and end with its exit code. -/
  | command (program : String) (args : List Literal)
  /-- Run steps once for every element of a sequence. -/
  | loop (source : Literal) (body : List Step)
  /-- Run steps in a scope of their own. -/
  | block (body : List Step)
  deriving Inhabited, Repr

/-- Where the value of an import comes from. -/
inductive ImportSource where
  /-- A module, or one field of it. -/
  | module (from_ : String) (export_ : Option String)
  /-- A root entry of the built-in functions. -/
  | builtin (name : String)
  deriving DecidableEq, Repr, Inhabited

/-- A name that is bound before the body runs. -/
structure Import where
  binding : String
  source : ImportSource
  deriving DecidableEq, Repr, Inhabited

/-- Whether an import loads a module. -/
def Import.isModule (i : Import) : Bool :=
  match i.source with
  | .module .. => true
  | .builtin _ => false

/-- A compiled program in structured form. -/
structure Program where
  imports : List Import
  steps : List Step
  naming : Naming
  deriving Inhabited, Repr

end Tasklang
