import Tasklang.Json.Basic
import Tasklang.Lua.Machine

/-! # Values and structured data

Structured data becomes tables and back. A table made from a sequence carries the array mark, so
that an empty sequence comes back as a sequence and not as a mapping.
-/

namespace Tasklang.Lua

variable {ε : Type}

namespace Value

open Code

/-- A number of structured data: an integer that does not fit becomes a double. -/
def ofInt (n : Int) : Value :=
  if Json.leastInt ≤ n ∧ n ≤ Json.greatestInt then .int (Int64.ofInt n)
  else .float (.ofFloat (Float.ofInt n))

mutual

/-- The value of structured data, `absent` standing for its nulls. -/
def make (absent : Value) : Json → Code ε Value
  | .null => return absent
  | .bool b => return .bool b
  | .int n => return ofInt n
  | .float x => return .float (.ofFloat x)
  | .str s => return ofString s
  | .arr items => do
    let r ← newTable { Table.withRoom items.length 0 with metatable := some arrayMetaRef }
    fillItems absent r 1 items
    return .table r
  | .obj entries => do
    let r ← newTable (Table.withRoom 0 entries.length)
    fillEntries absent r entries
    return .table r

/-- Put the values of a sequence into a table, from a position on. -/
def fillItems (absent : Value) (r : TableRef) (n : Nat) : List Json → Code ε Unit
  | [] => return ()
  | v :: vs => do
    let item ← make absent v
    modifyTable r fun t => t.setItem n item
    fillItems absent r (n + 1) vs

/-- Put the entries of a mapping into a table. -/
def fillEntries (absent : Value) (r : TableRef) : List (String × Json) → Code ε Unit
  | [] => return ()
  | (k, v) :: es => do
    let item ← make absent v
    modifyTable r fun t => t.setField k item
    fillEntries absent r es

end

/-- The value of structured data in a machine. -/
def ofJson (absent : Value) (v : Json) : Run ε Value := .code (make absent v)

/-- Whether a value has no structured form and is left out of tables. -/
def isSkipped : Value → Bool
  | .function _ => true
  | .stream _ => true
  | .null => true
  | .fault _ => true
  | _ => false

/-- The text of a string as structured data. -/
def textOf (s : Bytes) : Except Fault String :=
  match Bytes.decode? s with
  | some text => .ok text
  | none => .error .serialization

/-- Structured data from the values of a sequence. -/
def itemsToJson (convert : Value → Except Fault Json) (vs : List Value) :
    Except Fault (List Json) :=
  (vs.filter fun v => !v.isSkipped).mapM convert

/-- Structured data from an entry of a table, whose key has to be a string. -/
def entryToJson (convert : Value → Except Fault Json) (entry : Value × Value) :
    Except Fault (String × Json) := do
  match entry.1 with
  | .str s => return (← textOf s, ← convert entry.2)
  | _ => .error .serialization

/-- Structured data from the entries of a table. -/
def entriesToJson (convert : Value → Except Fault Json) (entries : List (Value × Value)) :
    Except Fault (List (String × Json)) :=
  (entries.filter fun (k, v) => !k.isSkipped && !v.isSkipped).mapM (entryToJson convert)

/-- The values at the positions of a table up to its length. -/
def itemsOf (t : Table) : List Value := (List.range t.border).map fun n => t.item (n + 1)

/-- The structured form of a value. Tables on the path from the outermost value down are in
`above`, and none of them may come again; `fuel` bounds how deep tables nest. -/
def toJsonFrom (tables : Array Table) : Nat → List TableRef → Value → Except Fault Json
  | 0, _, _ => .error .serialization
  | fuel + 1, above, v =>
    match v with
    | .bool b => .ok (.bool b)
    | .int n => .ok (.int n.toInt)
    | .float x => .ok (if x.isFinite then .float x.toFloat else .null)
    | .str s => (textOf s).map .str
    | .table r =>
      if above.contains r then .error .serialization
      else
        let t := tables.getD r {}
        let convert := toJsonFrom tables fuel (r :: above)
        if t.border > 0 || t.metatable == some arrayMetaRef then
          (itemsToJson convert (itemsOf t)).map .arr
        else (entriesToJson convert t.live).map .obj
    | _ => .ok .null

/-- The structured form of a value in a machine. -/
def toJson? (m : Machine) (v : Value) : Except Fault Json :=
  toJsonFrom m.tables (m.tables.size + 2) [] v

/-- The structured form of a value. -/
def toJson (v : Value) : Code Fault Json := do
  ofExcept (toJson? (← get) v)

/-- The text of a value that is a string or a number. -/
def toText? (v : Value) : Except Fault String :=
  match v.toBytes? with
  | some bs => match Bytes.decode? bs with
    | some s => .ok s
    | none => .error .conversion
  | none => .error .conversion

/-- The text of a value that is a string or a number; a failure of the host for any other. -/
def readText (v : Value) : Code Value String :=
  match toText? v with
  | .ok s => return s
  | .error _ => fail .conversion Fault.conversion_known

/-- The structured form of a value; a failure of the host where it has none. -/
def readJson (v : Value) : Code Value Json := do
  match toJson? (← get) v with
  | .ok form => return form
  | .error _ => fail .serialization

end Value

end Tasklang.Lua
