import Tasklang.Lua.InPlace
import Tasklang.Lua.Value

/-! # Places of keys

Where a table keeps the keys that are not laid out as a sequence. A key has a home among the
places. A key that finds its home taken moves to the last free place, or sends there the key that
is in its home without having its own home there. Walking a table goes by places, and a table grows
when no free place is left.
-/

namespace Tasklang.Lua

/-- The least exponent whose power of two is not below a number. -/
def binaryLog (n : Nat) : Nat := if n ≤ 1 then 0 else Nat.log2 (n - 1) + 1

/-- The least power of two that is not below a number; zero for zero. -/
def powerAbove (n : Nat) : Nat := if n = 0 then 0 else Nat.pow 2 (binaryLog n)

/-- The keys at the places of a table. -/
structure Layout where
  keys : Array (Option Value) := #[]
  /-- From this place on no place was free when one was last looked for. -/
  free : Nat := 0
  deriving DecidableEq, Repr, Inhabited

namespace Layout

/-- A layout with room for so many keys. -/
def withRoom (n : Nat) : Layout := ⟨Array.replicate (powerAbove n) none, powerAbove n⟩

/-- The number that stands for a double: its first thirty-one bits together with its exponent. -/
def doubleCode (x : Double) : Nat :=
  if !x.isFinite then 0
  else
    let (m, e) := x.toFloat.frExp
    let leading := (Number.truncate (m * 2147483648.0)).1
    let sum := ((leading + e) % 4294967296).toNat
    if sum < 2147483648 then sum else 4294967295 - sum

/-- The number that stands for a string. -/
def stringCode (s : Bytes) : Nat :=
  (s.foldl (fun (h : UInt64) b => h * 31 + b.toUInt64) 7).toNat

/-- The home of a key among so many places, a power of two. What is known by its address has the
first place for its home. -/
def home (size : Nat) (key : Value) : Nat :=
  let odd := (size - 1) ||| 1
  match key with
  | .nil | .null => 0
  | .bool b => (if b then 1 else 0) % size
  | .int n => n.toUInt64.toNat % odd
  | .float x => doubleCode x % odd
  | .str s => stringCode s % size
  | .function (.closure _) => 0
  | .function (.gmatchStep ..) => 0
  | .function f => (hash f).toNat % odd
  | .table _ | .stream _ | .fault _ => 0

/-- The last free place below a bound. -/
def freeBelow (keys : Array (Option Value)) : Nat → Option Nat
  | 0 => none
  | n + 1 => match keys.getD n none with
    | none => some n
    | some _ => freeBelow keys n

/-- Put a key at a place. -/
def put (l : Layout) (i : Nat) (key : Value) : Layout :=
  { l with keys := putAt l.keys i (some key) }

/-- Find a place for a new key. With the layout comes the absent key whose place it takes, if it
takes one's; there is no layout when no place is free. -/
def place (l : Layout) (isPresent : Value → Bool) (key : Value) :
    Option (Layout × Option Value) :=
  let size := l.keys.size
  if size = 0 then none
  else
    let i := home size key
    match l.keys.getD i none with
    | none => some (l.put i key, none)
    | some there =>
      if !isPresent there then some (l.put i key, some there)
      else match freeBelow l.keys l.free with
        | none => none
        | some j =>
          let l := { l with free := j }
          some (if home size there = i then l.put j key else (l.put j there).put i key, none)

/-- A layout of keys, placed one after the other, with room for so many. -/
def ofKeys (room : Nat) (keys : List Value) : Layout :=
  keys.foldl (fun l k => ((l.place (fun _ => true) k).map (·.1)).getD l) (withRoom room)

/-- The first key that is present, from a place on, within so many places. -/
def presentFrom (l : Layout) (isPresent : Value → Bool) : Nat → Nat → Option Value
  | 0, _ => none
  | count + 1, i => match l.keys.getD i none with
    | some k => if isPresent k then some k else presentFrom l isPresent count (i + 1)
    | none => presentFrom l isPresent count (i + 1)

/-- The place of a key. -/
def placeOf? (l : Layout) (key : Value) : Option Nat :=
  l.keys.findIdx? fun k => k == some key

/-- The keys by place. -/
def toList (l : Layout) : List Value := l.keys.toList.filterMap id

end Layout

end Tasklang.Lua
