import Tasklang.Lua.Environment

/-! # Expressions without calls

An expression in which no function is called has its value at once; metamethods are called by the
operations themselves.
-/

namespace Tasklang.Lua

open Code

mutual

/-- Whether evaluating an expression calls a function. -/
def Expr.hasCall : Expr → Bool
  | .call .. => true
  | .method .. => true
  | .index _ o k => o.hasCall || k.hasCall
  | .paren e => e.hasCall
  | .unary _ _ e => e.hasCall
  | .binary _ _ l r => l.hasCall || r.hasCall
  | .and l r => l.hasCall || r.hasCall
  | .or l r => l.hasCall || r.hasCall
  | .table _ fs => fieldsHaveCall fs
  | _ => false

/-- Whether filling a table with fields calls a function. -/
def fieldsHaveCall : List Field → Bool
  | [] => false
  | .item e :: fs => e.hasCall || fieldsHaveCall fs
  | .entry k e :: fs => k.hasCall || e.hasCall || fieldsHaveCall fs

end

/-- Whether an expression can have several values. -/
def Expr.isMultiple : Expr → Bool
  | .call .. => true
  | .method .. => true
  | .varargs => true
  | _ => false

/-- A table that a constructor fills. Its items wait to be stored together, the last one first. -/
structure Filling where
  table : TableRef
  stored : Nat := 0
  waiting : List Value := []
  deriving Inhabited

namespace Filling

variable {ε : Type}

/-- How many items wait together to be stored. -/
def together : Nat := 50

/-- How many items fields have, not counting one that can have several values at the end. -/
def itemCount : List Field → Nat
  | [] => 0
  | [.item e] => if e.isMultiple then 0 else 1
  | .item _ :: fs => itemCount fs + 1
  | .entry .. :: fs => itemCount fs

/-- How many entries fields have. -/
def entryCount : List Field → Nat
  | [] => 0
  | .item _ :: fs => entryCount fs
  | .entry .. :: fs => entryCount fs + 1

/-- A new table with room for fields. -/
def start (fs : List Field) : Code ε Filling := do
  return { table := ← newTable (Table.withRoom (itemCount fs) (entryCount fs)) }

/-- Store the items that wait. -/
def flush (f : Filling) : Code ε Filling := do
  if f.waiting.isEmpty then return f
  modifyTable f.table fun t => t.setItems (f.stored + 1) f.waiting.reverse
  return { f with stored := f.stored + f.waiting.length, waiting := [] }

/-- Make ready for another field. -/
def ready (f : Filling) : Code ε Filling :=
  if f.waiting.length = together then f.flush else return f

/-- Add an item. -/
def add (f : Filling) (v : Value) : Filling := { f with waiting := v :: f.waiting }

/-- Add the last items; the table. -/
def finish (f : Filling) (vs : List Value) : Code ε Value := do
  let f ← { f with waiting := vs.reverse ++ f.waiting }.flush
  return .table f.table

end Filling

namespace Env

mutual

/-- The value of an expression without calls. -/
def value (env : Env) (apply : Apply) : Expr → Code Value Value
  | .nil => return .nil
  | .bool b => return .bool b
  | .int n => return .int n
  | .float x => return .float x
  | .str s => return .str s
  | .varargs => return first env.activation.varargs
  | .name x =>
    match env.cell? x with
    | some c => cell c
    | none => do index (env.caller apply 0) metaHops (← env.globals) (.ofString x)
  | .index line o k => do
    let held := env.heldObject? o
    let object ← (if held.isSome then return .nil else env.value apply o)
    let key ← env.value apply k
    index (env.caller apply line) metaHops (← (Operand.ofHeld held object).read) key
  | .paren e => env.value apply e
  | .unary line op e => do unary (env.caller apply line) op (← env.value apply e)
  | .binary line op l r => do
    let held := env.heldLeft? op l
    let left ← (if held.isSome then return .nil else env.value apply l)
    let right ← env.value apply r
    binary (env.caller apply line) op (← (Operand.ofHeld held left).read) right
  | .and l r => do
    let v ← env.value apply l
    if v.truthy then env.value apply r else return v
  | .or l r => do
    let v ← env.value apply l
    if v.truthy then return v else env.value apply r
  | .table line fs => do env.fill apply line (← Filling.start fs) fs
  | .function b => env.closure b
  | .call .. => return .nil
  | .method .. => return .nil

/-- The table that is filled with fields without calls. -/
def fill (env : Env) (apply : Apply) (line : Nat) (f : Filling) : List Field → Code Value Value
  | [] => f.finish []
  | .item e :: fs => do
    let f ← f.ready
    if fs.isEmpty && e.isMultiple then f.finish env.activation.varargs
    else env.fill apply line (f.add (← env.value apply e)) fs
  | .entry k e :: fs => do
    let f ← f.ready
    let held := env.held? k
    let key ← (if held.isSome then return .nil else env.value apply k)
    let v ← env.value apply e
    rawSet (env.caller apply line) f.table (← (Operand.ofHeld held key).read) v
    env.fill apply line f fs

end

/-- The values of expressions without calls: one of each, and all of the last. -/
def values (env : Env) (apply : Apply) : List Expr → Code Value (List Value)
  | [] => return []
  | [.varargs] => return env.activation.varargs
  | e :: es => do
    let v ← env.value apply e
    return v :: (← env.values apply es)

end Env

end Tasklang.Lua
