import Tasklang.Execution.Command
import Tasklang.Program.Step
import Tasklang.Tasks.Registry
import Tasklang.Template.Render

/-! # Running programs

A program runs in a machine of its own, in which an object holds the built-in functions and a
function that imports modules. Imports are bound first; then the steps run in the same scope, until
they are done or an external program ends the run.
-/

namespace Tasklang

open Lua

/-- How a run ends. -/
inductive RunOutcome where
  /-- All steps are done. -/
  | completed
  /-- An external program ended the run with its exit code. -/
  | exited (code : Nat)
  deriving DecidableEq, Repr

/-- What a program may use. -/
structure Capabilities where
  registry : Registry
  /-- The directory of modules and commands. -/
  base : String
  deriving Repr

namespace Execution

/-- What every step of a run depends on. -/
structure Session where
  naming : Naming
  base : String
  /-- The object that holds what the program may use. -/
  object : TableRef

/-- Put the object that holds what a program may use into a machine. -/
def install (naming : Naming) (c : Capabilities) : Running Session := do
  match c.registry.install with
  | .error e => Run.throw (.evaluation (.failed (.runtimeError e.message)))
  | .ok entries =>
    let functions ← (Namespace.table entries).toValue
    let fields : Table := (({} : Table).setField "globals" functions).setField "import"
      (.function (.importer c.base))
    let object ← Run.newTable fields
    evaluated (unlifted
      (setGlobal naming.capabilities (.table object)))
    return ⟨naming, c.base, object⟩

/-- The value of a key of an object; a failure is one of the run. -/
def fieldOf (object : Value) (name : String) : Running Value :=
  evaluated (unlifted (indexFromOutside object (.ofString name)))

/-- The failure of an import whose module cannot be had. -/
def importFailure (m : Machine) : ImportError → ImportFailure
  | .notFound from_ base => .notFound from_ base
  | .unreadable path cause => .unreadable path cause
  | .malformed cause => .code cause.fault
  | .failed thrown => .code (m.faultOf thrown)

/-- The value of a module. -/
def moduleOf (s : Session) (from_ : String) : Running Value :=
  .code ((importModule host s.base from_).catchError fun e => do
    Code.throw (.importFailed from_ (importFailure (← Code.get) e)))

/-- The value that an import binds. -/
def importValue (s : Session) (source : ImportSource) : Running Value := do
  match source with
  | .module from_ none => moduleOf s from_
  | .module from_ (some name) =>
    match ← moduleOf s from_ with
    | .table r =>
      match ← fieldOf (.table r) name with
      | .nil => Run.throw (.importFailed from_ (.noExport name))
      | v => return v
    | v => Run.throw (.importFailed from_ (.notATable v.kindName))
  | .builtin name =>
    match ← fieldOf (.table s.object) "globals" with
    | .table r => fieldOf (.table r) name
    | _ => Run.throw (.evaluation (.failed .conversion))

/-- Bind imports in a scope, in order. -/
def bindImports (s : Session) (scope : Scope) : List Import → Running Unit
  | [] => return ()
  | i :: rest => do
    scope.declare i.binding (← importValue s i.source)
    bindImports s scope rest

mutual

/-- The value of a literal in a scope. -/
def literalValue (scope : Scope) : Literal → Running Value
  | .const v => Value.ofJson .nil v
  | .expr source => evaluated (scope.eval source)
  | .deferred segments => do
    return .ofString (← evaluated (Template.textIn scope segments))
  | .seq items => do
    let r ← Run.newTable {}
    fillSequence scope r 1 items
    return .table r
  | .map entries => do
    let r ← Run.newTable {}
    fillMapping scope r entries
    return .table r

/-- Put the values of literals into a table, one by one from a position on. -/
def fillSequence (scope : Scope) (r : TableRef) (n : Nat) : List Literal → Running Unit
  | [] => return ()
  | l :: ls => do
    let v ← literalValue scope l
    Run.modifyTable r fun t => t.setItem n v
    fillSequence scope r (n + 1) ls

/-- Put the values of entries into a table, one by one. -/
def fillMapping (scope : Scope) (r : TableRef) : List (String × Literal) → Running Unit
  | [] => return ()
  | (k, l) :: es => do
    let v ← literalValue scope l
    Run.modifyTable r fun t => t.setField k v
    fillMapping scope r es

end

/-- The values of arguments, in order. -/
def argumentValues (scope : Scope) : List Literal → Running (List Value)
  | [] => return []
  | l :: ls => do
    let v ← literalValue scope l
    return v :: (← argumentValues scope ls)

/-- The texts of arguments, in order. -/
def argumentTexts (scope : Scope) : List Literal → Running (List String)
  | [] => return []
  | l :: ls => do
    let t ← evaluated (display (← literalValue scope l))
    return t :: (← argumentTexts scope ls)

/-- Follow the segments of a dotted name; no value when one of them leads through no table. -/
def follow : List String → Value → Running (Option Value)
  | [], v => return some v
  | segment :: rest, .table r => do follow rest (← fieldOf (.table r) segment)
  | _ :: _, _ => return none

/-- The function at the end of a path from a value. -/
def functionAt (target : String) (path : List String) (v : Value) : Running Value := do
  match ← follow path v with
  | some (.function f) => return .function f
  | _ => Run.throw (.notCallable target)

/-- The function that a plain or dotted name stands for in a scope. -/
def callable (scope : Scope) (target : String) : Running Value := do
  match Text.split '.' target with
  | [] => Run.throw (.notCallable target)
  | root :: rest =>
    match ← (scope.get root).attempt with
    | .error (.unbound _) => Run.throw (.notCallable target)
    | .error e => Run.throw (.evaluation e)
    | .ok v => functionAt target rest v

/-- Run a body once for every position of a table, until an external program ends the run. -/
def repeatFor (s : Session) (scope : Scope) (r : TableRef) (body : Scope → Running (Option Nat)) :
    List Nat → Running (Option Nat)
  | [] => return none
  | n :: ns => do
    let inner ← scope.child
    inner.declare s.naming.item ((← Run.table r).item (n + 1))
    inner.declare s.naming.index (.int (Int64.ofNat n))
    match ← body inner with
    | some code => return some code
    | none => repeatFor s scope r body ns

mutual

/-- Run a step. An exit code ends the run. -/
def runStep (s : Session) : Step → Scope → Running (Option Nat)
  | .declare name value, scope => do
    scope.declare name (← literalValue scope value)
    return none
  | .call target args, scope => do
    let f ← callable scope target
    let vs ← argumentValues scope args
    let result ← evaluated (unlifted (invoke f vs))
    scope.assign s.naming.result (first result)
    return none
  | .command program args, scope => do
    let texts ← argumentTexts scope args
    return some (← runProgram s.base program texts)
  | .loop source body, scope => do
    match ← literalValue scope source with
    | .table r =>
      let count := (← Run.table r).border
      repeatFor s scope r (fun inner => runSteps s body inner) (List.range count)
    | v => Run.throw (.invalidLoopSource v.kindName)
  | .block body, scope => do
    let inner ← scope.child
    runSteps s body inner

/-- Run steps in a scope, one after the other. -/
def runSteps (s : Session) : List Step → Scope → Running (Option Nat)
  | [], _ => return none
  | step :: rest, scope => do
    match ← runStep s step scope with
    | some code => return some code
    | none => runSteps s rest scope

end

/-- The scope in which a program starts. -/
def startScope (naming : Naming) : Running Scope := do
  let scope ← Scope.root
  scope.declare naming.result .nil
  scope.declare naming.root .nil
  scope.declare naming.env (.table (← Run.newTable {}))
  return scope

/-- Run a program in a machine. -/
def runIn (p : Program) (c : Capabilities) : Running RunOutcome := do
  let s ← install p.naming c
  let scope ← startScope p.naming
  bindImports s scope p.imports
  match ← runSteps s p.steps scope with
  | some code => return .exited code
  | none => return .completed

end Execution

/-- How a run in a world ended, and the world after it. -/
structure RunReport where
  outcome : Except RuntimeError RunOutcome
  world : World

/-- Run a program once, in a machine of its own; no report when its budget does not suffice. -/
def Program.run (p : Program) (c : Capabilities) (w : World) : Option RunReport :=
  match Execution.runIn p c (Machine.initial w) with
  | .done outcome m => some ⟨.ok outcome, m.world⟩
  | .failed e m => some ⟨.error e, m.world⟩
  | .exhausted => none

end Tasklang
