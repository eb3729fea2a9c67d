import Tasklang.Lua.Evaluation
import Tasklang.Text.Split

/-! # Expressions

Evaluating the source of an expression in a scope, and the conversions around it. A name that is
bound nowhere is an error of its own, so that a caller can tell "not known yet" from a failure.
-/

namespace Tasklang

open Lua

/-- Why an expression has no value. -/
inductive EvalError where
  /-- A name that the expression reads is bound nowhere. -/
  | unbound (name : String)
  /-- The expression failed in another way. -/
  | failed (fault : Fault)
  deriving DecidableEq, Repr

namespace EvalError

/-- The message of an error. -/
def message : EvalError → String
  | .unbound name => "'" ++ name ++ "' is not defined"
  | .failed fault => fault.message

/-- The error of a fault, in which an unbound name is told apart. -/
def ofFault : Fault → EvalError
  | .unbound name => .unbound name
  | f => .failed f

end EvalError

/-- A computation of code whose thrown values are told apart by what they mean for evaluation. -/
def lifted {α : Type} (x : Code Value α) : Run EvalError α :=
  .code (x.explain .ofFault)

/-- A computation of code whose thrown values are failures, unbound names included. -/
def unlifted {α : Type} (x : Code Value α) : Run EvalError α :=
  .code (x.explain .failed)

/-- The value of a call of a function with arguments. -/
def callFunction (f : Value) (args : List Value) : Run EvalError Value := do
  return first (← unlifted (invoke f args))

/-- The value of a key in an object, its metamethods called from outside. -/
def indexFromOutside (object key : Value) : Code Value Value := do
  index (← host.deeper) metaHops object key

/-- The value of a global name. -/
def globalValue (name : String) : Code Value Value :=
  indexFromOutside (.table globalsRef) (.ofString name)

/-- Give a global name a value. -/
def setGlobal (name : String) (v : Value) : Code Value Unit := do
  setIndex (← host.deeper) metaHops (.table globalsRef) (.ofString name) v

/-- The structured form of a value. -/
def structuredForm (v : Value) : Run EvalError Json := .code ((Value.toJson v).mapError .failed)

/-- The text of a value: a string as it is, anything else as the global `tostring` shows it. -/
def display (v : Value) : Run EvalError String := do
  match v with
  | .str s => return Bytes.decodeLossy s
  | _ =>
    match ← unlifted (globalValue "tostring") with
    | .function f =>
      let text ← callFunction (.function f) [v]
      Run.ofExcept ((Value.toText? text).mapError .failed)
    | _ => Run.throw (.failed .conversion)

namespace Lua.Scope

/-- What evaluating the source of an expression in a scope computes. -/
def valueOf (s : Scope) (source : String) : Code Value Value := do
  let environment ← s.table
  let parsed := Chunk.parse 0 (returning (Bytes.ofString source))
  let chunk ← Code.loadChunk (ChunkName.ofPlaceholder source) parsed (.table environment)
  return first (← invoke chunk [])

/-- The value of an expression in a scope. -/
def eval (s : Scope) (source : String) : Run EvalError Value :=
  if Text.has '\x00' source then Run.throw (.failed (.runtimeError "the source holds a NUL"))
  else lifted (s.valueOf source)

/-- The value of a name in a scope. -/
def get (s : Scope) (name : String) : Run EvalError Value := lifted (s.find host name)

/-- Declare every binding of a list. -/
def declareAll {ε : Type} (s : Scope) : Bindings → Run ε Unit
  | [] => return ()
  | (name, v) :: rest => do
    s.declare name (← Value.ofJson .nil v)
    s.declareAll rest

/-- An outermost scope that holds bindings. -/
def ofBindings {ε : Type} (bindings : Bindings) : Run ε Scope := do
  let s ← root
  s.declareAll bindings
  return s

end Lua.Scope

/-- The structured value of an expression against bindings. -/
def evaluate (source : String) (bindings : Bindings) : Run EvalError Json := do
  let s ← Scope.ofBindings bindings
  structuredForm (← s.eval source)

/-- Whether the segments of a dotted name lead from a value to a function. -/
def leadsToFunction : List String → Value → Run EvalError Bool
  | [], .function _ => return true
  | [], _ => return false
  | segment :: rest, .table r => do
    match ← Run.attempt (lifted (indexFromOutside (.table r) (.ofString segment))) with
    | .ok v => leadsToFunction rest v
    | .error (_ : EvalError) => leadsToFunction rest .nil
  | _ :: _, _ => return false

/-- Whether a plain or dotted name is a function among the globals. -/
def isGlobalFunction (path : String) : Run EvalError Bool :=
  leadsToFunction (Text.split '.' path) (.table globalsRef)

end Tasklang
