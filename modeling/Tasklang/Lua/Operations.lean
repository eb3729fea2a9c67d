import Tasklang.Lua.Arith
import Tasklang.Lua.Outcome
import Tasklang.Lua.Site

/-! # Operations on values

Indexing, arithmetic, comparison, joining and conversion to text, each with its metamethods. An
operation takes the way to call functions from where it happens, so that it needs no evaluator.
-/

namespace Tasklang.Lua

open Code

/-- How many metatables an access may pass through. -/
def metaHops : Nat := 2000

/-- The metatable of a value. -/
def metatableOf (v : Value) : Code Value (Option TableRef) :=
  match v with
  | .table r => do return (← table r).metatable
  | .str _ => return some stringMetaRef
  | _ => return none

/-- The metamethod of a value for an event, or nil. -/
def metamethod (v : Value) (event : String) : Code Value Value := do
  match ← metatableOf v with
  | none => return .nil
  | some r => return (← table r).field event

/-- The value of a key in a stream. -/
def streamField (key : Value) : Value :=
  match key with
  | .str name =>
    if name = Bytes.ofString "write" then .function (.system .streamWrite)
    else if name = Bytes.ofString "close" ∨ name = Bytes.ofString "flush"
        ∨ name = Bytes.ofString "setvbuf" then .function (.system .streamClose)
    else .nil
  | _ => .nil

/-- The value of a key in an object. -/
def index (c : Caller) : Nat → Value → Value → Code Value Value
  | 0, _, _ => c.raise "'__index' chain too long; possibly a loop"
  | hops + 1, object, key =>
    match object with
    | .table r => do
      match ← lookUp r key with
      | .nil =>
        match (← table r).metatable with
        | none => return .nil
        | some m => match (← table m).field "__index" with
          | .nil => return .nil
          | handler =>
            if handler.isFunction then return first (← c.call handler [object, key])
            else index c hops handler key
      | v => return v
    | .stream _ => return streamField key
    | _ => do
      match ← metamethod object "__index" with
      | .nil => c.raise ("attempt to index a " ++ object.typeName ++ " value")
      | handler =>
        if handler.isFunction then return first (← c.call handler [object, key])
        else index c hops handler key

/-- A field that is there is its value, whatever the metatable says. -/
theorem index_held {c : Caller} {hops : Nat} {r : TableRef} {name : String} {m : Machine}
    (held : (m.tables.getD r {}).field name ≠ .nil) :
    ∃ m', (index c (hops + 1) (.table r) (.ofString name)).exec m =
      .done ((m.tables.getD r {}).field name) m' := by
  have found : ∃ m', (lookUp r (.ofString name) : Code Value Value).exec m =
      .done ((m.tables.getD r {}).field name) m' := by
    unfold lookUp
    dsimp only
    split <;> exact ⟨_, rfl⟩
  obtain ⟨m', found⟩ := found
  refine ⟨m', ?_⟩
  simp only [index, exec_bind, found, Outcome.andThen_done]
  rfl

/-- Why a value cannot be a key. -/
def badKey? : Value → Option String
  | .nil => some "index is nil"
  | .float x => if x.isNaN then some "index is NaN" else none
  | _ => none

/-- Set a key of a table without metamethods. -/
def rawSet (c : Caller) (r : TableRef) (key value : Value) : Code Value Unit := do
  match badKey? key with
  | some message => c.raise message
  | none => modifyTable r fun t => t.set key value

/-- Give a key of an object a value. -/
def setIndex (c : Caller) : Nat → Value → Value → Value → Code Value Unit
  | 0, _, _, _ => c.raise "'__newindex' chain too long; possibly a loop"
  | hops + 1, object, key, value =>
    match object with
    | .table r => do
      match (← table r).metatable with
      | none => rawSet c r key value
      | some m =>
        match ← lookUp r key with
        | .nil =>
          match (← table m).field "__newindex" with
          | .nil => rawSet c r key value
          | handler =>
            if handler.isFunction then discard (c.call handler [object, key, value])
            else setIndex c hops handler key value
        | _ => rawSet c r key value
    | _ => do
      match ← metamethod object "__newindex" with
      | .nil => c.raise ("attempt to index a " ++ object.typeName ++ " value")
      | handler =>
        if handler.isFunction then discard (c.call handler [object, key, value])
        else setIndex c hops handler key value

/-- The metamethod of the first operand that has one. -/
def binaryMetamethod (event : String) (a b : Value) : Code Value Value := do
  match ← metamethod a event with
  | .nil => metamethod b event
  | handler => return handler

/-- What an operation on operands that it cannot take says. -/
def operandMessage (action : String) (a b : Value) : String :=
  let culprit := if (a.number?).isSome then b else a
  "attempt to " ++ action ++ " a " ++ culprit.typeName ++ " value"

/-- The result of arithmetic or of an operation on bits with numbers. -/
def ofNumbers (op : BinaryOp) (a b : Number) : Except String Value :=
  if op.isBitwise then
    match a.toInt?, b.toInt? with
    | some x, some y => .ok (.int (Number.bitwise op x y))
    | _, _ => .error "number has no integer representation"
  else (Number.arith op a b).map Value.ofNumber

/-- Arithmetic, and operations on bits, of two values. Strings take part through the metamethods
that all strings have. -/
def arithmetic (c : Caller) (op : BinaryOp) (a b : Value) : Code Value Value := do
  match a.number?, b.number? with
  | some x, some y =>
    match ofNumbers op x y with
    | .ok v => return v
    | .error message => c.raise message
  | _, _ =>
    match ← binaryMetamethod op.event a b with
    | .nil =>
      let action := if op.isBitwise then "perform bitwise operation on" else "perform arithmetic on"
      c.raise (operandMessage action a b)
    | handler => return first (← c.call handler [a, b])

/-- The result of arithmetic on numbers that strings denote. -/
def StringOperator.ofNumbers (op : StringOperator) (a b : Number) : Except String Value :=
  match op.binary? with
  | some op => Lua.ofNumbers op a b
  | none => .ok (Value.ofNumber a.negate)

/-- What an arithmetic operator does to strings: those that denote numbers count as these, and any
other operand leaves it to the metamethod of the second one. -/
def stringArithmetic (c : Caller) (op : StringOperator) (a b : Value) : Code Value Value := do
  match a.toNumber?, b.toNumber? with
  | some x, some y =>
    match op.ofNumbers x y with
    | .ok v => return v
    | .error message => c.native.raise message
  | _, _ =>
    match ← (if b.isString then return .nil else metamethod b op.event) with
    | .nil => c.raise ("attempt to perform arithmetic on a " ++ a.typeName ++ " value")
    | handler => return first (← c.native.call handler [a, b])

/-- Two values joined as strings. -/
def concatenate (c : Caller) (a b : Value) : Code Value Value := do
  match a.toBytes?, b.toBytes? with
  | some x, some y => return .str (x ++ y)
  | _, _ =>
    match ← binaryMetamethod "__concat" a b with
    | .nil =>
      let culprit := if (a.toBytes?).isSome then b else a
      c.raise ("attempt to concatenate a " ++ culprit.typeName ++ " value")
    | handler => return first (← c.call handler [a, b])

/-- Whether two values are equal. -/
def equals (c : Caller) (a b : Value) : Code Value Bool := do
  if Value.rawEq a b then return true
  match a, b with
  | .table _, .table _ =>
    match ← binaryMetamethod "__eq" a b with
    | .nil => return false
    | handler => return (first (← c.call handler [a, b])).truthy
  | _, _ => return false

/-- What a comparison of operands that have no order says. -/
def comparisonMessage (a b : Value) : String :=
  if a.typeName = b.typeName then "attempt to compare two " ++ a.typeName ++ " values"
  else "attempt to compare " ++ a.typeName ++ " with " ++ b.typeName

/-- Whether one value is less than another, or at most it when `orEqual`. Where only the
metamethod for less exists, at most means that the other way round is not less. -/
def less (c : Caller) (orEqual : Bool) (a b : Value) : Code Value Bool := do
  match a, b with
  | .str x, .str y => return if orEqual then !Bytes.lt y x else Bytes.lt x y
  | _, _ =>
    match a.number?, b.number? with
    | some x, some y => return if orEqual then Number.le x y else Number.lt x y
    | _, _ =>
      match ← binaryMetamethod (if orEqual then "__le" else "__lt") a b with
      | .nil =>
        match ← (if orEqual then binaryMetamethod "__lt" b a else return .nil) with
        | .nil => c.raise (comparisonMessage a b)
        | handler => return !(first (← c.call handler [b, a])).truthy
      | handler => return (first (← c.call handler [a, b])).truthy

/-- The result of a binary operator. -/
def binary (c : Caller) (op : BinaryOp) (a b : Value) : Code Value Value :=
  match op with
  | .concat => concatenate c a b
  | .eq => do return .bool (← equals c a b)
  | .ne => do return .bool !(← equals c a b)
  | .lt => do return .bool (← less c false a b)
  | .le => do return .bool (← less c true a b)
  | .gt => do return .bool (← less c false b a)
  | .ge => do return .bool (← less c true b a)
  | op => arithmetic c op a b

/-- The length of a value. -/
def length (c : Caller) (v : Value) : Code Value Value := do
  match v with
  | .str s => return .int (Int64.ofNat s.length)
  | _ =>
    match ← metamethod v "__len" with
    | .nil =>
      match v with
      | .table r => return .int (Int64.ofNat (← lengthOf r))
      | _ => c.raise ("attempt to get length of a " ++ v.typeName ++ " value")
    | handler => return first (← c.call handler [v])

/-- The result of a unary operator. -/
def unary (c : Caller) (op : UnaryOp) (v : Value) : Code Value Value := do
  match op with
  | .not => return .bool !v.truthy
  | .len => length c v
  | .neg =>
    match v.number? with
    | some n => return Value.ofNumber n.negate
    | none =>
      match ← metamethod v "__unm" with
      | .nil => c.raise ("attempt to perform arithmetic on a " ++ v.typeName ++ " value")
      | handler => return first (← c.call handler [v, v])
  | .bnot =>
    match v.number? with
    | some n =>
      match n.toInt? with
      | some i => return .int (~~~i)
      | none => c.raise "number has no integer representation"
    | none =>
      match ← metamethod v "__bnot" with
      | .nil => c.raise ("attempt to perform bitwise operation on a " ++ v.typeName ++ " value")
      | handler => return first (← c.call handler [v, v])

/-- An address as it is shown. -/
def addressText (n : Nat) : String :=
  "0x" ++ String.ofList (Number.padZeros 14 (Nat.toDigits 16 n))

/-- The text of a value that has no metamethod for it, in a machine. -/
def plainText (m : Machine) (v : Value) : Bytes :=
  match v with
  | .nil => Bytes.ofString "nil"
  | .bool b => Bytes.ofString (if b then "true" else "false")
  | .int n => Number.display (.int n)
  | .float x => Number.display (.float x)
  | .str s => s
  | .table r => Bytes.ofString ("table: " ++ addressText (m.address (.table r)))
  | .function f => Bytes.ofString ("function: " ++ addressText (m.address f.reference))
  | .stream _ => Bytes.ofString ("file (" ++ addressText (m.address .stream) ++ ")")
  | .null => Bytes.ofString "userdata: (nil)"
  | .fault _ => Bytes.ofString (m.faultOf v).message

/-- The text of a value. A metamethod may give a number in place of a string. -/
def toText (c : Caller) (v : Value) : Code Value Bytes := do
  match ← metamethod v "__tostring" with
  | .nil =>
    let m ← get
    match v with
    | .table r =>
      match ← metamethod v "__name" with
      | .str s => return s ++ Bytes.ofString (": " ++ addressText (m.address (.table r)))
      | _ => return plainText m v
    | _ => return plainText m v
  | handler =>
    match (first (← c.native.call handler [v])).toBytes? with
    | some text => return text
    | none => c.raise "'__tostring' must return a string"

end Tasklang.Lua
