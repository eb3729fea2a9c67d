import Tasklang.Json.Basic

/-! # Tasks

One entry of a task list: what it uses, where that comes from, the arguments, and what it is
repeated for. A task is written as a mapping that leaves out what is missing.
-/

namespace Tasklang

/-- A task. -/
structure Task where
  /-- Where the target is imported from. -/
  from_ : Option String := none
  /-- The target: a name, a command, or the word that declares variables. -/
  use : Option String := none
  args : List Json := []
  /-- A sequence, or a template that gives one. -/
  loop : Option Json := none
  deriving DecidableEq, Repr, Inhabited

namespace Task

/-- The arguments of a written value: a sequence holds them, null is none, and any other value is
the only one. -/
def argsOf : Json → List Json
  | .arr items => items
  | .null => []
  | v => [v]

/-- The source of repetition of a written value; null means that there is none. -/
def loopOf : Json → Option Json
  | .null => none
  | v => some v

/-- The written form of a task. -/
def toJson (t : Task) : Json :=
  .obj ((t.from_.map fun s => ("from", .str s)).toList
    ++ (t.use.map fun s => ("use", .str s)).toList
    ++ (if t.args.isEmpty then [] else [("args", .arr t.args)])
    ++ (t.loop.map fun v => ("loop", v)).toList)

/-- A text that may be left out or null. -/
def optionalText? : Option Json → Option (Option String)
  | none => some none
  | some .null => some none
  | some (.str s) => some (some s)
  | _ => none

/-- The task of a written form. Fields with other names do not count. -/
def ofJson? : Json → Option Task
  | .obj entries => do
    let from_ ← optionalText? (entries.lookup "from")
    let use ← optionalText? (entries.lookup "use")
    some {
      from_, use
      args := argsOf ((entries.lookup "args").getD .null)
      loop := loopOf ((entries.lookup "loop").getD .null) }
  | _ => none

end Task

end Tasklang
