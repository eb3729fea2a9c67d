import Tasklang.Lua.Layout

/-! # Lua tables

A table holds a sequence, whose keys are the positions from one on, and entries with other keys.
Which positions belong to the sequence is decided anew whenever a new key finds no room: it is made
as long as it can be with more than half of its positions used. What a key holds never depends on
that; the length of a table with holes does.
-/

namespace Tasklang.Lua

/-- A table. Keys of entries are normal and occur once; a key with the value nil is absent. -/
structure Table where
  /-- The sequence. -/
  items : Array Value := #[]
  /-- Where the length is looked for first, a position of the sequence. -/
  limit : Nat := 0
  /-- The other entries, in the order in which they came. -/
  others : List (Value × Value) := []
  /-- The places of the keys of the other entries. -/
  layout : Layout := {}
  metatable : Option TableRef := none
  unique : (others.map (·.1)).Nodup := by exact List.nodup_nil
  deriving DecidableEq, Repr

instance : Inhabited Table := ⟨{}⟩

namespace Table

/-- An empty table with room for a sequence and for other keys. -/
def withRoom (sequence others : Nat) : Table :=
  { items := Array.replicate sequence .nil, limit := sequence, layout := Layout.withRoom others }

/-- The value of a key among entries. -/
def find (key : Value) : List (Value × Value) → Value
  | [] => .nil
  | (k, v) :: rest => if k = key then v else find key rest

/-- Whether entries have a key, even with the value nil. -/
def hasKey (key : Value) : List (Value × Value) → Bool
  | [] => false
  | (k, _) :: rest => k = key || hasKey key rest

/-- Give a key that is there a new value. -/
def replace (key value : Value) : List (Value × Value) → List (Value × Value)
  | [] => []
  | (k, v) :: rest => if k = key then (k, value) :: rest else (k, v) :: replace key value rest

/-- Entries with one more at their end, in place of one that has its key. -/
def withEntry (entries : List (Value × Value)) (entry : Value × Value) : List (Value × Value) :=
  entries.filter (fun (k, _) => k != entry.1) ++ [entry]

theorem replace_keys (key value : Value) (entries : List (Value × Value)) :
    (replace key value entries).map (·.1) = entries.map (·.1) := by
  induction entries with
  | nil => rfl
  | cons e rest ih =>
    obtain ⟨k, v⟩ := e
    simp only [replace]
    split
    · rfl
    · simp only [List.map_cons, ih]

theorem filter_unique {entries : List (Value × Value)} (p : Value × Value → Bool)
    (h : (entries.map (·.1)).Nodup) : ((entries.filter p).map (·.1)).Nodup :=
  h.sublist (List.filter_sublist.map _)

theorem withEntry_unique {entries : List (Value × Value)} (entry : Value × Value)
    (h : (entries.map (·.1)).Nodup) : ((withEntry entries entry).map (·.1)).Nodup := by
  simp only [withEntry, List.map_append, List.map_cons, List.map_nil]
  refine List.nodup_append.2 ⟨filter_unique _ h, by simp, ?_⟩
  intro k hk k' hk' heq
  obtain ⟨e, he, rfl⟩ := List.mem_map.1 hk
  have hne := (List.mem_filter.1 he).2
  simp_all

theorem withEntries_unique {entries : List (Value × Value)} (more : List (Value × Value))
    (h : (entries.map (·.1)).Nodup) : ((more.foldl withEntry entries).map (·.1)).Nodup := by
  induction more generalizing entries with
  | nil => exact h
  | cons e more ih => exact ih (withEntry_unique e h)

/-- The position that a normal key has in a sequence of some length, if it has one. -/
def position? (size : Nat) : Value → Option Nat
  | .int n => if 0 < n ∧ n.toInt.toNat ≤ size then some n.toInt.toNat else none
  | _ => none

/-- Whether a key is a position of a sequence of some length. -/
def inSequence (size : Nat) (key : Value) : Bool := (position? size key).isSome

/-- The value of a normal key. -/
def getNormal (t : Table) (key : Value) : Value :=
  match position? t.items.size key with
  | some n => t.items.getD (n - 1) .nil
  | none => find key t.others

/-- The value of a key, nil when the key is absent. -/
def get (t : Table) (key : Value) : Value := t.getNormal key.normalKey

/-- The value at a position, counted from one. -/
def item (t : Table) (n : Nat) : Value := t.getNormal (.int (Int64.ofNat n))

/-- The value of a named field. -/
def field (t : Table) (name : String) : Value := find (.ofString name) t.others

/-- Whether a normal key among the other entries is present. -/
def isPresent (t : Table) (key : Value) : Bool := find key t.others != .nil

/-- The table after a key of it was looked at: the length is looked for there first when the key
is a position of the sequence above the limit. -/
def touch (t : Table) (key : Value) : Table :=
  if t.limit = t.items.size then t
  else match position? t.items.size key.normalKey with
    | some n => if t.limit < n then { t with limit := n } else t
    | none => t

/-- How many positions are counted at most. -/
def positionLimit : Nat := Nat.pow 2 31

/-- Count positions by the power of two that is the least one not below them. -/
def countByPower (positions : List Nat) : Array Nat :=
  positions.foldl (fun counts n => counts.modify (binaryLog n) (· + 1)) (Array.replicate 32 0)

/-- The largest power of two such that more than half of the positions up to it are used, with how
many those are. `total` counts all positions; the exponent grows in each round. -/
def bestSize (counts : Array Nat) (total : Nat) : Nat → Nat → Nat → Nat × Nat → Nat × Nat
  | 0, _, _, best => best
  | fuel + 1, exponent, covered, best =>
    let power := Nat.pow 2 exponent
    if power / 2 < total then
      let covered := covered + counts.getD exponent 0
      bestSize counts total fuel (exponent + 1) covered
        (if power / 2 < covered then (power, covered) else best)
    else best

/-- The positions of the sequence that are used. -/
def usedPositions (t : Table) : List Nat :=
  ((t.items.toList.zipIdx 1).filter fun (v, _) => v != .nil).map (·.2)

/-- The entries that are present, the sequence first. -/
def live (t : Table) : List (Value × Value) :=
  (t.usedPositions.map fun n => (Value.int (Int64.ofNat n), t.items.getD (n - 1) .nil))
    ++ t.others.filter fun (_, v) => v != .nil

/-- Lay out a table anew, with a sequence of some length and room for so many other keys. -/
def resize (t : Table) (size room : Nat) : Table :=
  let cut := (t.usedPositions.filter (size < ·)).map fun n =>
    (Value.int (Int64.ofNat n), t.items.getD (n - 1) .nil)
  let entries := cut.foldl withEntry (t.others.filter fun (_, v) => v != .nil)
  let outside (k : Value) : Bool := !inSequence size k
  let items := t.items.extract 0 size ++ Array.replicate (size - t.items.size) .nil
  let moved := t.layout.toList.filter fun k => t.isPresent k && outside k
  { t with
    items := entries.foldl (fun items (k, v) => match position? size k with
      | some n => items.setIfInBounds (n - 1) v
      | none => items) items
    limit := size
    others := entries.filter fun (k, _) => outside k
    layout := Layout.ofKeys room (cut.map (·.1) ++ moved)
    unique := filter_unique _ (withEntries_unique cut (filter_unique _ t.unique)) }

/-- Lay out a table anew so that one more key finds room. -/
def grow (t : Table) (key : Value) : Table :=
  let live := t.others.filter fun (_, v) => v != .nil
  let used := t.usedPositions
  let positions := used ++ (key :: live.map (·.1)).filterMap (position? positionLimit)
  let (size, covered) := bestSize (countByPower positions) positions.length 32 0 0 (0, 0)
  t.resize size (used.length + live.length + 1 - covered)

/-- Make the sequence at least so long, with as much room for other keys as before. -/
def lengthen (t : Table) (size : Nat) : Table :=
  if size ≤ t.items.size then t else t.resize size t.layout.keys.size

/-- Give a new key a value where there is room for it. -/
def insert? (t : Table) (key value : Value) : Option Table :=
  match position? t.items.size key with
  | some n => some { t with items := putAt t.items (n - 1) value }
  | none => match t.layout.place t.isPresent key with
    | none => none
    | some (layout, none) =>
      some { t with
        layout
        others := withEntry t.others (key, value)
        unique := withEntry_unique _ t.unique }
    | some (layout, some gone) =>
      some { t with
        layout
        others := withEntry (t.others.filter fun (k, _) => k != gone) (key, value)
        unique := withEntry_unique _ (filter_unique _ t.unique) }

/-- Give a normal key a value. -/
def setNormal (t : Table) (key value : Value) : Table :=
  match position? t.items.size key with
  | some n =>
    let t := t.touch key
    { t with items := putAt t.items (n - 1) value }
  | none =>
    if hasKey key t.others then
      { t with
        others := replace key value t.others
        unique := by rw [replace_keys]; exact t.unique }
    else if value = .nil then t
    else match t.insert? key value with
      | some t => t
      | none =>
        let t := t.grow key
        (t.insert? key value).getD
          { t with
            others := withEntry t.others (key, value)
            unique := withEntry_unique _ t.unique }

/-- Give a key a value; nil removes it. -/
def set (t : Table) (key value : Value) : Table := t.setNormal key.normalKey value

/-- Give a position a value. -/
def setItem (t : Table) (n : Nat) (value : Value) : Table :=
  t.setNormal (.int (Int64.ofNat n)) value

/-- Give positions of the sequence values, from one on, making it long enough. -/
def setItems (t : Table) (start : Nat) (values : List Value) : Table :=
  let t := t.lengthen (start + values.length - 1)
  { t with
    items := (values.zipIdx (start - 1)).foldl (fun items (v, i) => items.setIfInBounds i v)
      t.items }

/-- Give a named field a value. -/
def setField (t : Table) (name : String) (value : Value) : Table :=
  t.setNormal (.ofString name) value

/-- A position between `low`, which is used or zero, and `high`, which is not used, such that the
next one is not used. -/
def borderBetween (t : Table) : Nat → Nat → Nat → Nat
  | 0, low, _ => low
  | fuel + 1, low, high =>
    if high - low > 1 then
      let middle := (low + high) / 2
      if t.item middle = .nil then borderBetween t fuel low middle
      else borderBetween t fuel middle high
    else low

/-- The greatest integer. -/
def greatest : Nat := Nat.pow 2 63 - 1

/-- A border at or above a used position, by doubling until a position is not used. -/
def borderAbove (t : Table) : Nat → Nat → Nat
  | 0, present => present
  | fuel + 1, present =>
    let next := if present ≤ greatest / 2 then present * 2 else greatest
    if t.item next = .nil then t.borderBetween 64 present next
    else if next = greatest then greatest
    else borderAbove t fuel next

/-- The length when the sequence is used up to its end. -/
def borderBeyond (t : Table) : Nat :=
  let size := t.items.size
  if t.item (size + 1) = .nil then size else t.borderAbove 64 (max size 1)

/-- The length, and where it is looked for first the next time. Only a sequence whose size is a
power of two remembers a position other than its end, and only one in its upper half. -/
def measure (t : Table) : Nat × Nat :=
  let size := t.items.size
  let kept (n : Nat) : Nat := if size = powerAbove size ∧ size / 2 < n then n else t.limit
  if t.limit ≠ 0 ∧ t.item t.limit = .nil then
    let n :=
      if 2 ≤ t.limit ∧ t.item (t.limit - 1) ≠ .nil then t.limit - 1
      else t.borderBetween 64 0 t.limit
    (n, kept n)
  else if t.limit = size then (t.borderBeyond, t.limit)
  else if t.item (t.limit + 1) = .nil then (t.limit, t.limit)
  else if t.item size = .nil then
    let n := t.borderBetween 64 t.limit size
    (n, n)
  else (t.borderBeyond, t.limit)

/-- The length: a position that is used while the next one is not, or zero. -/
def border (t : Table) : Nat := t.measure.1

/-- The table after its length was looked for. -/
def measured (t : Table) : Table := { t with limit := t.measure.2 }

/-- The first used position from `start` on, within so many positions. -/
def usedFrom (t : Table) : Nat → Nat → Option Nat
  | 0, _ => none
  | count + 1, start =>
    if t.items.getD (start - 1) .nil = .nil then usedFrom t count (start + 1) else some start

/-- The first of the other entries of a walk, from a place on. -/
def walkPlaces (t : Table) (place : Nat) : Value × Value :=
  match t.layout.presentFrom t.isPresent (t.layout.keys.size - place) place with
  | some k => (k, find k t.others)
  | none => (.nil, .nil)

/-- The first entry of a walk from a position of the sequence on. -/
def walkFrom (t : Table) (start : Nat) : Value × Value :=
  match t.usedFrom (t.items.size + 1 - start) start with
  | some n => (.int (Int64.ofNat n), t.items.getD (n - 1) .nil)
  | none => t.walkPlaces 0

/-- The entry after a key when walking the table: the sequence first, then the other keys by
place. The walk starts and ends at nil; no value when the key is not in the table. -/
def next (t : Table) (key : Value) : Option (Value × Value) :=
  match key.normalKey with
  | .nil => some (t.walkFrom 1)
  | k => match position? t.items.size k with
    | some n => some (t.walkFrom (n + 1))
    | none => (t.layout.placeOf? k).map fun i => t.walkPlaces (i + 1)

end Table

end Tasklang.Lua
