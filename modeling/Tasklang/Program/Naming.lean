/-! # Names in programs

The names that compiled programs use for their own bindings, and the marks by which the compiler
knows reserved targets. All of them can be chosen.
-/

namespace Tasklang

/-- The names that programs are compiled with. -/
structure Naming where
  /-- The binding of the last result. -/
  result : String := "result"
  /-- A binding that starts as nil. -/
  root : String := "root"
  /-- A binding that starts as an empty table. -/
  env : String := "env"
  /-- The binding of the element in a loop. -/
  item : String := "item"
  /-- The binding of the position in a loop. -/
  index : String := "index"
  /-- The target of a task that names none. -/
  defaultUse : String := "__ys_use"
  /-- The object that holds what a program may use. -/
  capabilities : String := "__capabilities"
  /-- The parameter of the function that renders a template. -/
  contextParam : String := "__ctx"
  /-- The target that declares variables. -/
  setVars : String := "setVars"
  /-- The mark in front of an external command. -/
  commandSigil : String := ":"
  /-- The module that holds the built-in functions. -/
  builtinPackage : String := "ys.globals"
  deriving DecidableEq, Repr, Inhabited

namespace Naming

/-- The keys by which the names are set. -/
def keys : List String :=
  ["result", "root", "env", "item", "index", "default_use", "capabilities", "context_param",
   "set_vars", "command_sigil", "builtin_package"]

/-- Set the name that a key stands for. Other keys change nothing. -/
def set (n : Naming) (key value : String) : Naming :=
  match key with
  | "result" => { n with result := value }
  | "root" => { n with root := value }
  | "env" => { n with env := value }
  | "item" => { n with item := value }
  | "index" => { n with index := value }
  | "default_use" => { n with defaultUse := value }
  | "capabilities" => { n with capabilities := value }
  | "context_param" => { n with contextParam := value }
  | "set_vars" => { n with setVars := value }
  | "command_sigil" => { n with commandSigil := value }
  | "builtin_package" => { n with builtinPackage := value }
  | _ => n

/-- The names with their keys. -/
def toList (n : Naming) : List (String × String) :=
  [("result", n.result), ("root", n.root), ("env", n.env), ("item", n.item), ("index", n.index),
   ("default_use", n.defaultUse), ("capabilities", n.capabilities),
   ("context_param", n.contextParam), ("set_vars", n.setVars),
   ("command_sigil", n.commandSigil), ("builtin_package", n.builtinPackage)]

end Naming

end Tasklang
