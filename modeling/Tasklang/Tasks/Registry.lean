import Tasklang.Lua.Machine
import Tasklang.Text.Quoted
import Tasklang.Text.Split

/-! # Built-in functions

The built-in functions that programs may use, under plain or dotted names. Installing them makes a
table in which a dotted name is a path.
-/

namespace Tasklang

open Lua

/-- Registered functions: the names are sorted and occur once. -/
structure Registry where
  entries : List (String × HostFunction) := []
  deriving DecidableEq, Repr, Inhabited

/-- A table of functions that dotted names lead to. -/
inductive Namespace where
  | function (f : HostFunction)
  | table (entries : List (String × Namespace))
  deriving Inhabited, Repr

/-- Why functions cannot be installed: a dotted name leads through a function. -/
structure NestedName where
  name : String
  deriving DecidableEq, Repr

/-- The message of a name that leads through a function. -/
def NestedName.message (e : NestedName) : String :=
  "built-in '" ++ e.name ++ "' is nested under a function"

namespace Registry

/-- The order of names, by their bytes. -/
def before (a b : String) : Bool := Bytes.lt (Bytes.ofString a) (Bytes.ofString b)

/-- Put a function at its place among sorted entries. -/
def insert (name : String) (f : HostFunction) :
    List (String × HostFunction) → List (String × HostFunction)
  | [] => [(name, f)]
  | (k, g) :: rest =>
    if k = name then (name, f) :: rest
    else if before name k then (name, f) :: (k, g) :: rest
    else (k, g) :: insert name f rest

/-- Register a function under a name, in place of one that has it already. -/
def register (r : Registry) (name : String) (f : HostFunction) : Registry :=
  ⟨insert name f r.entries⟩

/-- The functions that are registered unless a program asks for none. -/
def defaults : Registry :=
  ((((({} : Registry).register "json.stringify" .jsonStringify).register "json.parse" .jsonParse
    ).register "fs.read" .fsRead).register "fs.write" .fsWrite).register "sleep" .sleep

/-- The registered names, sorted. -/
def names (r : Registry) : List String := r.entries.map (·.1)

/-- Whether a path names a function or leads to one. -/
def contains (r : Registry) (path : String) : Bool :=
  !path.isEmpty && r.names.any fun name => name == path || name.startsWith (path ++ ".")

/-- The names as a message shows them. -/
def debugText (r : Registry) : String :=
  "\x7b" ++ ", ".intercalate (r.names.map Text.quoted) ++ "\x7d"

end Registry

namespace Namespace

/-- Put a namespace in place of an entry, or after the others. -/
def replace (key : String) (v : Namespace) :
    List (String × Namespace) → List (String × Namespace)
  | [] => [(key, v)]
  | (k, w) :: rest => if k = key then (k, v) :: rest else (k, w) :: replace key v rest

/-- Put a function at the end of a path; no value when the path leads through a function. -/
def put (f : HostFunction) : List String → String → List (String × Namespace) →
    Option (List (String × Namespace))
  | [], last, entries => some (replace last (.function f) entries)
  | segment :: path, last, entries =>
    match entries.lookup segment with
    | some (.table inner) =>
      (put f path last inner).map fun inner => replace segment (.table inner) entries
    | none => (put f path last []).map fun inner => replace segment (.table inner) entries
    | some (.function _) => none

end Namespace

namespace Registry

/-- Install entries after others, in order. -/
def installFrom (entries : List (String × Namespace)) :
    List (String × HostFunction) → Except NestedName (List (String × Namespace))
  | [] => .ok entries
  | (name, f) :: rest =>
    let segments := Text.split '.' name
    match Namespace.put f segments.dropLast (segments.getLastD "") entries with
    | some entries => installFrom entries rest
    | none => .error ⟨name⟩

/-- The nested table of the registered functions. -/
def install (r : Registry) : Except NestedName (List (String × Namespace)) :=
  installFrom [] r.entries

end Registry

namespace Namespace

mutual

/-- The value of a namespace in a machine. -/
def toValue {ε : Type} : Namespace → Run ε Value
  | .function f => return .function (.host f)
  | .table entries => do
    let r ← Run.newTable {}
    fill r entries
    return .table r

/-- Put the entries of a namespace into a table. -/
def fill {ε : Type} (r : TableRef) : List (String × Namespace) → Run ε Unit
  | [] => return ()
  | (k, n) :: rest => do
    let v ← toValue n
    Run.modifyTable r fun t => t.setField k v
    fill r rest

end

end Namespace

end Tasklang
