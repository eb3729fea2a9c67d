import Tasklang.Compile.Folding
import Tasklang.Program.Naming
import Tasklang.Tasks.Registry
import Tasklang.Tasks.Task

/-! # What compiling a task depends on

The values that are known while compiling, and the settings that hold for every task of a list.
-/

namespace Tasklang

/-- Values known while compiling: the environment of the build, and the system it runs on. -/
structure PublicContext where
  env : List (String × String) := []
  os : List (String × String) := []
  deriving DecidableEq, Repr, Inhabited

namespace PublicContext

/-- Put an entry at its place among sorted ones. -/
def insert (name value : String) : List (String × String) → List (String × String)
  | [] => [(name, value)]
  | (k, v) :: rest =>
    if k = name then (name, value) :: rest
    else if Registry.before name k then (name, value) :: (k, v) :: rest
    else (k, v) :: insert name value rest

/-- Entries sorted by name, a later one replacing an earlier one of its name. -/
def sorted (entries : List (String × String)) : List (String × String) :=
  entries.foldl (fun acc (k, v) => insert k v acc) []

/-- Texts by name as a mapping. -/
def textsOf (entries : List (String × String)) : Json :=
  .obj ((sorted entries).map fun (k, v) => (k, .str v))

/-- The names that placeholders see while compiling. -/
def toBindings (p : PublicContext) : Bindings :=
  [("build", .obj [("env", textsOf p.env), ("os", textsOf p.os)])]

end PublicContext

namespace Compile

/-- What the compilation of one task depends on. -/
structure Context where
  /-- The names known while compiling. -/
  publicBindings : Bindings
  /-- What placeholders are folded against. -/
  bindings : Bindings
  naming : Naming
  registry : Registry
  /-- How far the lines of the body are indented. -/
  indent : Nat
  /-- The position of the task in its list. -/
  taskIndex : Nat
  /-- The names bound when the program runs, when unbound names are refused. -/
  runtimeNames : Option (List String) := none
  /-- Whether notes are coloured. -/
  coloured : Bool := false
  deriving Repr

namespace Context

/-- What placeholders are folded against. -/
def folder (c : Context) : Folder := ⟨c.bindings, c.runtimeNames⟩

/-- What the literals of arguments are. -/
def reconstructArgs (c : Context) (args : List Json) : Compiling (List Literal) :=
  c.folder.reconstructAll args

/-- A name in a note, green where notes are coloured. -/
def highlight (c : Context) (name : String) : String :=
  if c.coloured then
    "\x1b[32m" ++ "\x1b[0m\x1b[32m".intercalate (name.splitOn "\x1b[0m") ++ "\x1b[0m"
  else name

end Context

end Compile

end Tasklang
