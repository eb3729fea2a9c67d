import Tasklang.Compile.Target

/-! # Invocations and loops

The steps of a task. A loop over a sequence is unrolled: every element becomes a block that binds
the element and its position. A loop over a template stays a loop, whose sequence is known when the
program runs.
-/

namespace Tasklang.Compile

open Lua

/-- The steps that declare variables. -/
def declarations (c : Context) : List (String × Json) → Compiling (List Step)
  | [] => return []
  | (name, v) :: rest => do
    if !Lua.isIdentifier name then Run.throw (.invalidBinding name)
    let value ← c.folder.reconstruct v
    return .declare name value :: (← declarations c rest)

/-- The steps of one invocation. -/
def invocationSteps (c : Context) (target : Target) (args : List Json) : Compiling (List Step) :=
  match target.kind with
  | .declaration =>
    match args with
    | [.obj entries] => declarations c entries
    | _ => Run.throw .invalidVariables
  | .command => do return [.command target.name (← c.reconstructArgs args)]
  | .function => do return [.call target.name (← c.reconstructArgs args)]

/-- What is known inside the block of an element. -/
def elementBindings (c : Context) (index : Nat) (item : Literal) : Bindings :=
  let withIndex := c.bindings.insert c.naming.index (.int index)
  match item.constant with
  | some v => withIndex.insert c.naming.item v
  | none => withIndex

/-- The block of one element of a sequence. -/
def elementBlock (c : Context) (target : Target) (args : List Json) (index : Nat) (item : Json) :
    Compiling Step := do
  let item ← c.folder.reconstruct item
  let inner := { c with bindings := elementBindings c index item }
  let steps ← invocationSteps inner target args
  return .block (.declare c.naming.item item :: .declare c.naming.index (.const (.int index)) :: steps)

/-- The blocks of the elements of a sequence, from a position on. -/
def elementBlocks (c : Context) (target : Target) (args : List Json) :
    Nat → List Json → Compiling (List Step)
  | _, [] => return []
  | index, item :: rest => do
    let b ← elementBlock c target args index item
    return b :: (← elementBlocks c target args (index + 1) rest)

/-- The steps of an invocation that is repeated. -/
def loopSteps (c : Context) (target : Target) (args : List Json) (source : Json) :
    Compiling (List Step) :=
  match source with
  | .str text =>
    if Template.isTemplated text then do
      let source ← c.folder.foldExpression text
      return [.loop source (← invocationSteps c target args)]
    else if Text.isAllBlank text then Run.throw (.invalidLoop "empty loop source")
    else Run.throw (.invalidLoop (Text.quoted text ++ " is neither a sequence nor a template"))
  | .arr items => elementBlocks c target args 0 items
  | v => Run.throw (.invalidLoop v.print)

/-- The steps of a task with a target. -/
def taskSteps (c : Context) (target : Target) (task : Task) : Compiling (List Step) :=
  match task.loop with
  | some source => loopSteps c target task.args source
  | none => invocationSteps c target task.args

/-- The body of a task with a target. -/
def taskBody (c : Context) (target : Target) (task : Task) : Compiling Fragment := do
  return .ofSteps (← taskSteps c target task) c.naming c.indent

end Tasklang.Compile
