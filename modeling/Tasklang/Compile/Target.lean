import Tasklang.Compile.Context
import Tasklang.Program.Fragment
import Tasklang.Template.Render
import Tasklang.Text.Quoted

/-! # Targets

What a task invokes: a function, an external command, or the declaration of variables. A function
comes from a module, from the built-in functions or from the globals, in this order; the first two
have to be imported.
-/

namespace Tasklang.Compile

open Lua

/-- What kind of thing a task invokes. -/
inductive TargetKind where
  /-- A function is called. -/
  | function
  /-- Variables are declared. -/
  | declaration
  /-- An external program is run. -/
  | command
  deriving DecidableEq, Repr, Inhabited

/-- What a task invokes. -/
structure Target where
  kind : TargetKind
  /-- The function, or the program of a command. -/
  name : String
  /-- Where the function is imported from. -/
  from_ : Option String := none
  /-- The import and the note of the task. -/
  fragment : Fragment := {}
  deriving Repr, Inhabited

/-- The first segment of a dotted name. -/
def rootSegment (name : String) : String := (Text.split '.' name).headD name

/-- The first segment of a dotted name, which has to be a Lua name. -/
def rootBinding (name : String) : Compiling String :=
  let root := rootSegment name
  if Lua.isIdentifier root then return root else Run.throw (.invalidBinding root)

/-- A text that may be a template, rendered against the names known while compiling. -/
def renderPublic (c : Context) (text : String) : Compiling String := do
  if Template.isTemplated text then
    let t ← parsed (Template.ofText text c.publicBindings.names)
    evaluated (t.render c.publicBindings)
  else return Folder.textOf (← parsed (Template.parse text))

/-- What a text says without the blanks around it, if that is anything. -/
def filled? (text : Option String) : Option String :=
  match text with
  | none => none
  | some s => let t := Text.trim s; if t.isEmpty then none else some t

/-- The name of the target of a task. -/
def targetName (c : Context) (task : Task) : Compiling String := do
  match filled? task.use with
  | some name => return Text.trim (← renderPublic c name)
  | none => return c.naming.defaultUse

/-- The program that a command names after its mark. -/
def commandProgram? (naming : Naming) (name : String) : Option String :=
  if name.startsWith naming.commandSigil then
    filled? (some (String.ofList (name.toList.drop naming.commandSigil.length)))
  else none

/-- The module that a task imports from. -/
def moduleName? (c : Context) (task : Task) : Compiling (Option String) := do
  match filled? task.from_ with
  | none => return none
  | some text =>
    let from_ ← renderPublic c text
    return if Text.isAllBlank from_ then none else some from_

/-- The target of a task that imports from a module. -/
def moduleTarget (c : Context) (name from_ : String) : Compiling Target := do
  let note (name : String) : Fragment :=
    .ofDiagnostic ("use " ++ c.highlight name ++ " from " ++ Text.quoted from_)
  if name = c.naming.defaultUse then
    let binding := c.naming.defaultUse ++ "_" ++ Nat.repr c.taskIndex
    let import_ : Import := ⟨binding, .module from_ none⟩
    return ⟨.function, binding, some from_, .ofImport import_ c.naming ++ note binding⟩
  else
    let root ← rootBinding name
    let import_ : Import := ⟨root, .module from_ (some root)⟩
    return ⟨.function, name, some from_, .ofImport import_ c.naming ++ note name⟩

/-- The target of a task that uses a built-in function. -/
def builtinTarget (c : Context) (name : String) : Compiling Target := do
  let root ← rootBinding name
  let note := Fragment.ofDiagnostic ("use " ++ c.highlight name ++ " from built-ins")
  return ⟨.function, name, none, .ofImport ⟨root, .builtin root⟩ c.naming ++ note⟩

/-- What a task invokes. -/
def classify (c : Context) (task : Task) : Compiling Target := do
  let name ← targetName c task
  if name = c.naming.setVars then return ⟨.declaration, name, none, {}⟩
  match commandProgram? c.naming name with
  | some program =>
    return ⟨.command, program, none, .ofDiagnostic ("run " ++ c.highlight program)⟩
  | none =>
    match ← moduleName? c task with
    | some from_ => moduleTarget c name from_
    | none =>
      if c.registry.contains name then builtinTarget c name
      else if ← evaluated (isGlobalFunction name) then return ⟨.function, name, none, {}⟩
      else Run.throw (.unresolvedTarget name)

end Tasklang.Compile
