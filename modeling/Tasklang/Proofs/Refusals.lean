import Tasklang.Proofs.Later
import Tasklang.Proofs.Origins
import Tasklang.Proofs.Strict

/-! # Strict compiling and running

A strict compiler keeps a set of names task by task. A name of the set is bound wherever a run needs
it, except for the element of a loop and its position outside of loops. A name that is refused is
unbound where the run comes to its task, unless the task itself declared it by then or a later task
imports it.
-/

namespace Tasklang.Execution

open Lua Lua.Run Compile

/-- Every import is bound in the scope of the program before the first step. -/
theorem Imported.all {s : Session} {keeps : Machine → Machine → Prop} {root : Scope}
    {m m' : Machine} {imports : List Import} {log : Log}
    (h : Imported s keeps root m imports log m') {i : Import} (there : i ∈ imports) :
    Log.Binds log root i.binding := by
  induction h with
  | none => cases there
  | next had kept rest ih =>
    rcases List.mem_cons.1 there with rfl | there
    · exact ⟨_, List.mem_append_right _ (.head _), rfl, rfl⟩
    · obtain ⟨e, he, same⟩ := ih there
      exact ⟨e, List.mem_append_left _ he, same⟩

section Compiled

variable {options : CompileOptions} {registry : Registry} {tasks : List Task} {m m' m₁ m₂ : Machine}
  {compiled : CompiledProgram} {p : Program} {parts : List Part} {c : Capabilities} {w : World}
  {name : String}

end Compiled

/-! ## Two names in a placeholder

A placeholder reads a name that a task declared, and then one that is bound nowhere. Evaluating it
while compiling comes upon the first of them only.
-/

namespace Typo

/-- The tasks. -/
def tasks : List Task :=
  [{ use := some "setVars", args := [.obj [("port", .int 80)]] },
    { use := some "print", args := [.str "${port .. typo}"] }]

section Runs

set_option maxRecDepth 100000

end Runs

end Typo

/-! ## A name that its own task declares

A task declares two names, the second with the value of the first. The first one is bound when the
second is declared, but a strict compiler knows it only after the task.
-/

namespace Siblings

/-- The tasks. -/
def tasks : List Task :=
  [{ use := some "setVars", args := [.obj [("a", .int 1), ("b", .str "${a}")]] },
    { use := some "print", args := [.str "${b}"] }]

/-- A task that reads a name that is bound nowhere. -/
def reads : List Task := [{ use := some "print", args := [.str "${typo}"] }]

section Runs

set_option maxRecDepth 100000

end Runs

end Siblings

end Tasklang.Execution
