/-! # Structured values

The data that tasks carry: null, booleans, integers, doubles, texts, sequences and mappings. The
entries of a mapping keep their order. Integers and doubles are different values even when they
are numerically equal.
-/

namespace Tasklang

/-- A structured value. -/
inductive Json where
  | null
  | bool (b : Bool)
  | int (n : Int)
  | float (x : Float)
  | str (s : String)
  | arr (items : List Json)
  | obj (entries : List (String × Json))
  deriving Inhabited, BEq, Repr

/-- Named values, in order. -/
abbrev Bindings := List (String × Json)

namespace Bindings

/-- The value of a name. -/
def get? (bindings : Bindings) (name : String) : Option Json := bindings.lookup name

/-- Bind a name: an existing entry keeps its place and takes the new value. -/
def insert (name : String) (value : Json) : Bindings → Bindings
  | [] => [(name, value)]
  | (k, v) :: rest => if k = name then (k, value) :: rest else (k, v) :: insert name value rest

/-- The names, in order. -/
def names (bindings : Bindings) : List String := bindings.map (·.1)

/-- Bind every entry of a list, later ones replacing earlier ones. -/
def ofList (entries : List (String × Json)) : Bindings :=
  entries.foldl (fun acc (k, v) => acc.insert k v) []

end Bindings

namespace Json

/-- The value of a field of a mapping. -/
def field? (v : Json) (name : String) : Option Json :=
  match v with
  | .obj entries => entries.lookup name
  | _ => none

/-- The least integer that fits a machine integer. -/
def leastInt : Int := -(Nat.pow 2 63 : Int)

/-- The greatest integer that fits a signed machine integer. -/
def greatestInt : Int := (Nat.pow 2 63 : Int) - 1

/-- The greatest integer that fits an unsigned machine integer. -/
def greatestNat : Int := (Nat.pow 2 64 : Int) - 1

mutual

/-- Whether two values are the same, the order of entries included. -/
def decEq (a b : Json) : Decidable (a = b) :=
  match a, b with
  | .null, .null => .isTrue rfl
  | .bool x, .bool y => decidable_of_iff (x = y) (by simp)
  | .int x, .int y => decidable_of_iff (x = y) (by simp)
  | .float x, .float y => decidable_of_iff (x = y) (by simp)
  | .str x, .str y => decidable_of_iff (x = y) (by simp)
  | .arr xs, .arr ys => match decEqItems xs ys with
    | .isTrue h => .isTrue (by rw [h])
    | .isFalse h => .isFalse (by simpa using h)
  | .obj xs, .obj ys => match decEqEntries xs ys with
    | .isTrue h => .isTrue (by rw [h])
    | .isFalse h => .isFalse (by simpa using h)
  | .null, .bool _ | .null, .int _ | .null, .float _ | .null, .str _ | .null, .arr _
  | .null, .obj _ | .bool _, .null | .bool _, .int _ | .bool _, .float _ | .bool _, .str _
  | .bool _, .arr _ | .bool _, .obj _ | .int _, .null | .int _, .bool _ | .int _, .float _
  | .int _, .str _ | .int _, .arr _ | .int _, .obj _ | .float _, .null | .float _, .bool _
  | .float _, .int _ | .float _, .str _ | .float _, .arr _ | .float _, .obj _ | .str _, .null
  | .str _, .bool _ | .str _, .int _ | .str _, .float _ | .str _, .arr _ | .str _, .obj _
  | .arr _, .null | .arr _, .bool _ | .arr _, .int _ | .arr _, .float _ | .arr _, .str _
  | .arr _, .obj _ | .obj _, .null | .obj _, .bool _ | .obj _, .int _ | .obj _, .float _
  | .obj _, .str _ | .obj _, .arr _ => .isFalse nofun

/-- Whether two sequences hold the same values. -/
def decEqItems (xs ys : List Json) : Decidable (xs = ys) :=
  match xs, ys with
  | [], [] => .isTrue rfl
  | [], _ :: _ => .isFalse nofun
  | _ :: _, [] => .isFalse nofun
  | x :: xs, y :: ys => match decEq x y, decEqItems xs ys with
    | .isTrue h, .isTrue hs => .isTrue (by rw [h, hs])
    | .isFalse h, _ => .isFalse (by simp [h])
    | _, .isFalse h => .isFalse (by simp [h])

/-- Whether two lists of entries are the same. -/
def decEqEntries (xs ys : List (String × Json)) : Decidable (xs = ys) :=
  match xs, ys with
  | [], [] => .isTrue rfl
  | [], _ :: _ => .isFalse nofun
  | _ :: _, [] => .isFalse nofun
  | (j, x) :: xs, (k, y) :: ys =>
    if hk : j = k then
      match decEq x y, decEqEntries xs ys with
      | .isTrue h, .isTrue hs => .isTrue (by rw [hk, h, hs])
      | .isFalse h, _ => .isFalse (by simp [h])
      | _, .isFalse h => .isFalse (by simp [h])
    else .isFalse (by simp [hk])

end

instance : DecidableEq Json := decEq

end Json

end Tasklang
