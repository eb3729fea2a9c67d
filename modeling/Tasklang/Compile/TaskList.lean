import Tasklang.Compile.Invocation

/-! # Compiling a task list

Every task is classified and compiled, and the fragments are assembled in the order of the tasks.
The names that a program binds as it runs are gathered on the way, so that a strict compiler can
refuse all others.
-/

namespace Tasklang

open Lua

/-- The settings of a compiler. -/
structure CompileOptions where
  publicContext : PublicContext := {}
  /-- How far bodies are indented beyond the usual. -/
  indent : Nat := 0
  naming : Naming := {}
  /-- Whether names that are bound neither now nor later are refused. -/
  strictNames : Bool := false
  coloured : Bool := false
  deriving Repr, Inhabited

namespace Compile

/-- The names that every program binds. -/
def startNames (n : Naming) : List String := [n.result, n.root, n.env, n.item, n.index]

/-- What the compilation of a task depends on. -/
def contextOf (options : CompileOptions) (registry : Registry) (taskIndex : Nat)
    (known : List String) : Context where
  publicBindings := options.publicContext.toBindings
  bindings := options.publicContext.toBindings
  naming := options.naming
  registry := registry
  indent := options.indent + 2
  taskIndex := taskIndex
  runtimeNames := if options.strictNames then some known else none
  coloured := options.coloured

/-- The fragment of one task. `known` are the names bound before it. -/
def taskFragment (options : CompileOptions) (registry : Registry) (taskIndex : Nat)
    (known : List String) (task : Task) : Compiling Fragment := do
  let target ← classify (contextOf options registry taskIndex known) task
  let known := known ++ target.fragment.boundNames
  let body ← taskBody (contextOf options registry taskIndex known) target task
  return target.fragment ++ body

/-- The fragment of tasks from a position on. -/
def tasksFragment (options : CompileOptions) (registry : Registry) :
    Nat → List String → List Task → Compiling Fragment
  | _, _, [] => return {}
  | taskIndex, known, task :: rest => do
    let f ← taskFragment options registry taskIndex known task
    return f ++ (← tasksFragment options registry (taskIndex + 1) (known ++ f.boundNames) rest)

end Compile

/-- The program of a task list. -/
def compile (options : CompileOptions) (registry : Registry) (tasks : List Task) :
    Compile.Compiling CompiledProgram := do
  let f ← Compile.tasksFragment options registry 0 (Compile.startNames options.naming) tasks
  return (Fragment.start options.naming (options.indent + 2) ++ f).assemble options.naming

end Tasklang
