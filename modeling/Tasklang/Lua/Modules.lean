import Tasklang.Lua.Value

/-! # Imported modules

The values of imported modules are kept by the names that they were imported under, so that a module
is loaded once. What came of every import is written down, the code of a module between its start and
its end; the values that are kept follow from that.
-/

namespace Tasklang.Lua

/-- Something that came of importing a module under a name. -/
inductive ImportEvent where
  /-- There was no file, it could not be read, or it held no chunk. -/
  | missed (name : String)
  /-- The code of a file began to run. -/
  | started (name path : String)
  /-- The code came to its end and returned a value. -/
  | loaded (name : String) (returned : Value)
  /-- The code failed. -/
  | failed (name : String)
  /-- The value that is kept was given again. -/
  | reused (name : String) (v : Value)
  deriving DecidableEq, Repr

/-- The value that stands for a module whose code returned a value. -/
def moduleValue (returned : Value) : Value := if returned.isNil then .bool true else returned

/-- The imports of a machine. -/
structure Modules where
  /-- The values that are kept, the latest first. -/
  kept : List (String × Value) := []
  /-- What came of the imports, the latest first. -/
  history : List ImportEvent := []
  deriving DecidableEq, Repr, Inhabited

namespace Modules

/-- The value that is kept under a name. -/
def find? (k : Modules) (name : String) : Option Value := k.kept.lookup name

/-- Write down what came of an import. -/
def tell (k : Modules) (e : ImportEvent) : Modules := { k with history := e :: k.history }

/-- Keep the value of a module whose code returned a value. -/
def keep (k : Modules) (name : String) (returned : Value) : Modules :=
  { k.tell (.loaded name returned) with kept := (name, moduleValue returned) :: k.kept }

/-- How imports go on: a value that is kept is given again; under any other name the file of a module
is looked for, and what its code imports comes between the start of the code and its end. -/
inductive Evolves : Modules → Modules → Prop where
  | refl (k) : Evolves k k
  | trans {k k' k''} : Evolves k k' → Evolves k' k'' → Evolves k k''
  | reused {k name v} : k.find? name = some v → Evolves k (k.tell (.reused name v))
  | missed {k name} : k.find? name = none → Evolves k (k.tell (.missed name))
  | loaded {k k' name path} (returned) : k.find? name = none →
    Evolves (k.tell (.started name path)) k' → Evolves k (k'.keep name returned)
  | failed {k k' name path} : k.find? name = none →
    Evolves (k.tell (.started name path)) k' → Evolves k (k'.tell (.failed name))

end Modules

end Tasklang.Lua
