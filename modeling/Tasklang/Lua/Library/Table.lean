import Tasklang.Lua.Library.Arguments

/-! # Table functions

Functions on the sequence that a table holds: joining, inserting, removing, moving, sorting, and
conversion between lists of values and tables.
-/

namespace Tasklang.Lua

open Code

namespace TableFunction

/-- The name of a function. -/
def name : TableFunction → String
  | .concat => "concat" | .insert => "insert" | .move => "move" | .pack => "pack"
  | .remove => "remove" | .sort => "sort" | .unpack => "unpack"

/-- The length of an argument. -/
def lengthOf (a : Arguments) (v : Value) : Code Value Int := do
  match (← length a.inside v).toInt? with
  | some n => return n.toInt
  | none => a.raise "object length is not an integer"

/-- The value at a position of an object. -/
def at_ (a : Arguments) (v : Value) (i : Int) : Code Value Value :=
  index a.inside metaHops v (.int (Int64.ofInt i))

/-- Give a position of an object a value. -/
def put (a : Arguments) (v : Value) (i : Int) (x : Value) : Code Value Unit :=
  setIndex a.inside metaHops v (.int (Int64.ofInt i)) x

/-- The strings at positions of a table, joined. -/
def join (a : Arguments) : Code Value (List Value) := do
  let v := Value.table (← a.table 0)
  let size ← lengthOf a v
  let sep ← a.bytesOr 1 []
  let i ← a.intOr 2 1
  let j ← a.intOr 3 size
  let m ← Code.get
  let pieces ← iterate m.budget (fun (state : Int × List Bytes) => do
    let (k, pieces) := state
    if j < k then return .inr pieces.reverse
    match (← at_ a v k).toBytes? with
    | some bs => return .inl (k + 1, bs :: pieces)
    | none => a.raise ("invalid value (at index " ++ toString k ++ ") in table for 'concat'")) (i, [])
  return [.str (sep.intercalate pieces)]

/-- Move so many values, the last of them at a position, by one place up. -/
def shiftUp (a : Arguments) (v : Value) : Nat → Int → Code Value Unit
  | 0, _ => return ()
  | n + 1, i => do
    put a v (i + 1) (← at_ a v i)
    shiftUp a v n (i - 1)

/-- Move so many values by one place down, from the one after a position on. -/
def shiftDown (a : Arguments) (v : Value) : Nat → Int → Code Value Unit
  | 0, _ => return ()
  | n + 1, i => do
    put a v i (← at_ a v (i + 1))
    shiftDown a v n (i + 1)

/-- Put a value at the end of a table or at a position. -/
def insertAt (a : Arguments) : Code Value (List Value) := do
  let v := Value.table (← a.table 0)
  let stop := (← lengthOf a v) + 1
  match a.values.length with
  | 2 => put a v stop (a.value 1)
  | 3 =>
    let i ← a.int 1
    if i < 1 ∨ stop < i then a.refuse 1 "position out of bounds"
    shiftUp a v (stop - i).toNat (stop - 1)
    put a v i (a.value 2)
  | _ => a.raise "wrong number of arguments to 'insert'"
  return []

/-- Take the value at the end of a table or at a position. -/
def removeAt (a : Arguments) : Code Value (List Value) := do
  let v := Value.table (← a.table 0)
  let size ← lengthOf a v
  let i ← a.intOr 1 size
  if i ≠ size ∧ ¬(1 ≤ i ∧ i ≤ size + 1) then a.refuse 1 "position out of bounds"
  let taken ← at_ a v i
  shiftDown a v (size - i).toNat i
  put a v (max i size) .nil
  return [taken]

/-- How the values of a table are sorted. -/
structure Sorting where
  arguments : Arguments
  object : Value
  before : Value → Value → Code Value Bool

namespace Sorting

/-- The value at a position. -/
def value (s : Sorting) (i : Nat) : Code Value Value := at_ s.arguments s.object i

/-- Give a position a value, and then another one. -/
def put2 (s : Sorting) (i : Nat) (x : Value) (j : Nat) (y : Value) : Code Value Unit := do
  put s.arguments s.object i x
  put s.arguments s.object j y

/-- Exchange two values where the one that should come later comes first. -/
def order (s : Sorting) (low high : Nat) : Code Value Bool := do
  let x ← s.value low
  let y ← s.value high
  if ← s.before y x then
    s.put2 low y high x
    return true
  else return false

/-- The error of an order that is none. -/
def refuse {α : Type} (s : Sorting) : Code Value α :=
  s.arguments.raise "invalid order function for sorting"

/-- The first position after one whose value does not come before the pivot, with the value. -/
def upward (s : Sorting) (pivot : Value) (high : Nat) : Nat → Nat → Code Value (Nat × Value)
  | 0, _ => s.refuse
  | fuel + 1, i => do
    let x ← s.value (i + 1)
    if ← s.before x pivot then
      if i + 1 = high - 1 then s.refuse else upward s pivot high fuel (i + 1)
    else return (i + 1, x)

/-- The first position before one whose value does not come after the pivot, with the value. -/
def downward (s : Sorting) (pivot : Value) (low : Nat) : Nat → Nat → Code Value (Nat × Value)
  | 0, _ => s.refuse
  | fuel + 1, j => do
    let x ← s.value (j - 1)
    if ← s.before pivot x then
      if j - 1 < low then s.refuse else downward s pivot low fuel (j - 1)
    else return (j - 1, x)

/-- Bring the values that come before the pivot below it and the others above it; the position of
the pivot. It stands next to the end at first. -/
def partition (s : Sorting) (pivot : Value) (high : Nat) : Nat → Nat → Nat → Code Value Nat
  | 0, _, _ => s.refuse
  | fuel + 1, i, j => do
    let (i, x) ← s.upward pivot high (high + 1) i
    let (j, y) ← s.downward pivot i (high + 1) j
    if j < i then
      s.put2 (high - 1) x i pivot
      return i
    else
      s.put2 i y j x
      partition s pivot high fuel i j

/-- Sort the values from one position to another: bring the first, the middle and the last one into
order, then divide the others by the middle one. The shorter part is sorted first. -/
def between (s : Sorting) : Nat → Nat → Nat → Code Value Unit
  | 0, _, _ => return ()
  | fuel + 1, low, high => do
    if high ≤ low then return ()
    let _ ← s.order low high
    if high - low = 1 then return ()
    let middle := (low + high) / 2
    let exchanged ← s.order low middle
    if !exchanged then discard (s.order middle high)
    if high - low = 2 then return ()
    let pivot ← s.value middle
    let last ← s.value (high - 1)
    s.put2 middle last (high - 1) pivot
    let p ← s.partition pivot high (high + 1) low (high - 1)
    if p - low < high - p then
      between s fuel low (p - 1)
      between s fuel (p + 1) high
    else
      between s fuel (p + 1) high
      between s fuel low (p - 1)

end Sorting

/-- Sort the values of a table. -/
def sortAll (a : Arguments) : Code Value (List Value) := do
  let v := Value.table (← a.table 0)
  let size := (← lengthOf a v).toNat
  if size < 2 then return []
  let before ← (match a.value 1 with
    | .nil => return less a.inside false
    | .function f => return fun x y => do
      return (first (← a.inside.call (.function f) [x, y])).truthy
    | _ => a.expected 1 "function")
  Sorting.between ⟨a, v, before⟩ size 1 size
  return []

/-- The values at positions of a table. -/
def unpackAll (a : Arguments) : Code Value (List Value) := do
  let v := a.value 0
  let i ← a.intOr 1 1
  let j ← if a.isAbsent 2 then lengthOf a v else a.int 2
  if j < i then return []
  a.checkRoom (j - i) "too many results to unpack"
  (List.range (j - i + 1).toNat).mapM fun (n : Nat) => at_ a v (i + (n : Int))

/-- Copy values from positions of one table to positions of another. -/
def moveAll (a : Arguments) : Code Value (List Value) := do
  let start ← a.int 1
  let stop ← a.int 2
  let first ← a.int 3
  let source := Value.table (← a.table 0)
  let target ← if a.isAbsent 4 then Pure.pure source else do Pure.pure (Value.table (← a.table 4))
  if stop < start then return [target]
  let count := stop - start + 1
  if Nat.pow 2 63 ≤ count then a.refuse 2 "too many elements to move"
  if Nat.pow 2 63 - count < first then a.refuse 3 "destination wrap around"
  let downward ← (if first ≤ start || stop < first then return true
    else do return !(← equals a.inside source target))
  let count := count.toNat
  let m ← Code.get
  iterate m.budget (fun (n : Nat) => do
    if count ≤ n then return .inr ()
    let k : Int := if downward then n else (count : Int) - 1 - n
    put a target (first + k) (← at_ a source (start + k))
    return .inl (n + 1)) 0
  return [target]

/-- The results of a call to a table function. -/
def apply (f : TableFunction) (caller : Caller) (values : List Value) : Code Value (List Value) := do
  let a : Arguments := ⟨"table." ++ f.name, values, caller⟩
  match f with
  | .concat => join a
  | .insert => insertAt a
  | .move => moveAll a
  | .pack =>
    let filled := (Table.withRoom values.length 1).setItems 1 values
    return [.table (← newTable (filled.setField "n" (intValue values.length)))]
  | .remove => removeAt a
  | .sort => sortAll a
  | .unpack => unpackAll a

end TableFunction

end Tasklang.Lua
