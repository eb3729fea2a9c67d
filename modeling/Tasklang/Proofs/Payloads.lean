import Tasklang.Proofs.Parts

/-! # The text of a compiled program

A fragment holds what was compiled twice, as text and in structured form. What is put together from
imports, steps and notes has the text of its structured form, and so have both payloads of a program:
the statements of its imports and of its steps, each once and in their order.
-/

namespace Tasklang

open Lua Lua.Run

theorem stepsSource_eq_join (naming : Naming) (indent : Nat) (steps : List Step) :
    stepsSource naming indent steps = String.join (steps.map (stepSource naming indent)) := by
  induction steps with
  | nil => rfl
  | cons step steps ih => rw [stepsSource, ih, List.map_cons, String.join_cons]

theorem stepsSource_append (naming : Naming) (indent : Nat) (first next : List Step) :
    stepsSource naming indent (first ++ next) =
      stepsSource naming indent first ++ stepsSource naming indent next := by
  simp only [stepsSource_eq_join, List.map_append, String.join_append]

namespace Fragment

/-- The sections of a fragment are the text of its structured form. -/
structure Written (naming : Naming) (indent : Nat) (f : Fragment) : Prop where
  moduleImports : f.moduleImports = String.join (f.imports.map (·.moduleLine naming))
  runtimeImports : f.runtimeImports = String.join (f.imports.map (·.runtimeLine naming))
  body : f.body = stepsSource naming indent f.steps

namespace Written

variable {naming : Naming} {indent : Nat} {f g : Fragment}

theorem empty : Written naming indent {} := ⟨rfl, rfl, rfl⟩

theorem ofImport (i : Import) : (Fragment.ofImport i naming).Written naming indent where
  moduleImports := by simp [Fragment.ofImport, String.join_cons]
  runtimeImports := by simp [Fragment.ofImport, String.join_cons]
  body := rfl

theorem ofSteps (steps : List Step) : (Fragment.ofSteps steps naming indent).Written naming indent :=
  ⟨rfl, rfl, rfl⟩

theorem ofDiagnostic (line : String) : (Fragment.ofDiagnostic line).Written naming indent :=
  ⟨rfl, rfl, rfl⟩

theorem append (first : f.Written naming indent) (next : g.Written naming indent) :
    (f ++ g).Written naming indent where
  moduleImports := by
    show f.moduleImports ++ g.moduleImports = String.join ((f.imports ++ g.imports).map _)
    rw [first.moduleImports, next.moduleImports, List.map_append, String.join_append]
  runtimeImports := by
    show f.runtimeImports ++ g.runtimeImports = String.join ((f.imports ++ g.imports).map _)
    rw [first.runtimeImports, next.runtimeImports, List.map_append, String.join_append]
  body := by
    show f.body ++ g.body = stepsSource naming indent (f.steps ++ g.steps)
    rw [first.body, next.body, stepsSource_append]

end Written

end Fragment

namespace Compile

open Fragment (Written)

/-- What a task has before its body, an import or a note, is the text of it. -/
theorem classify_written {c : Context} {task : Task} {target : Target} {m m' : Machine} (indent : Nat)
    (chosen : classify c task m = .done target m') : target.fragment.Written c.naming indent := by
  obtain ⟨name, m₁, -, decided⟩ := classify_cases chosen
  cases decided with
  | declaration | global => exact .empty
  | command => exact .ofDiagnostic _
  | whole | exported | builtin => exact .append (.ofImport _) (.ofDiagnostic _)

variable {options : CompileOptions} {registry : Registry}

theorem taskFragment_written {k : Nat} {known : List String} {task : Task} {f : Fragment}
    {m m' : Machine} (made : taskFragment options registry k known task m = .done f m') :
    f.Written options.naming (options.indent + 2) := by
  simp only [taskFragment, taskBody, bind_done, pure_done] at made
  obtain ⟨target, m₁, chosen, body, m₂, ⟨steps, m₃, -, rfl, rfl⟩, rfl, rfl⟩ := made
  exact .append (classify_written _ chosen) (.ofSteps steps)

theorem tasksFragment_written {k : Nat} {known : List String} {tasks : List Task} {f : Fragment}
    {m m' : Machine} (made : tasksFragment options registry k known tasks m = .done f m') :
    f.Written options.naming (options.indent + 2) := by
  induction tasks generalizing k known m f with
  | nil =>
    cases made
    exact .empty
  | cons task tasks ih =>
    simp only [tasksFragment, bind_done, pure_done] at made
    obtain ⟨first, m₁, first_made, others, m₂, others_made, rfl, rfl⟩ := made
    exact .append (taskFragment_written first_made) (ih others_made)

end Compile

/-- Both payloads of a program are the text of its structured form. -/
structure CompiledProgram.Written (indent : Nat) (c : CompiledProgram) : Prop where
  runtimePayload : c.runtimePayload =
    String.join (c.program.imports.map (·.runtimeLine c.program.naming))
      ++ preamble c.program.naming indent
      ++ stepsSource c.program.naming indent c.program.steps
  modulePayload : c.modulePayload =
    (if ∃ i ∈ c.program.imports, i.isModule then loaderSource else "")
      ++ String.join (c.program.imports.map (·.moduleLine c.program.naming))
      ++ "local function main()\n"
      ++ preamble c.program.naming indent
      ++ stepsSource c.program.naming indent c.program.steps
      ++ "end\n\nreturn main\n"

theorem Fragment.Written.assemble {naming : Naming} {indent : Nat} {f : Fragment}
    (written : f.Written naming indent) :
    ((Fragment.start naming indent ++ f).assemble naming).Written indent where
  runtimePayload := by
    show "" ++ f.runtimeImports ++ (preamble naming indent ++ f.body) = _
    rw [written.runtimeImports, written.body, String.empty_append, String.append_assoc]
    rfl
  modulePayload := by
    have loads : f.imports.any Import.isModule = true ↔ ∃ i ∈ f.imports, i.isModule :=
      List.any_eq_true
    show (if f.imports.any Import.isModule then loaderSource else "") ++ ("" ++ f.moduleImports)
      ++ "local function main()\n" ++ (preamble naming indent ++ f.body) ++ "end\n\nreturn main\n" = _
    rw [written.moduleImports, written.body, String.empty_append, ← String.append_assoc,
      if_congr loads rfl rfl]
    rfl

/-- The payloads of a compiled program are the text of its structured form: the runtime payload is made
of the statements of the imports, the preamble and the source of the steps; the module payload has
the loader first exactly when a module is imported, and the same body in its main function. The
source of steps has the source of every step once, in their order. -/
theorem payloads_written {options : CompileOptions} {registry : Registry} {tasks : List Task}
    {compiled : CompiledProgram} {m m' : Machine}
    (done : compile options registry tasks m = .done compiled m') :
    compiled.program.naming = options.naming ∧ compiled.Written (options.indent + 2) ∧
      stepsSource options.naming (options.indent + 2) compiled.program.steps =
        String.join (compiled.program.steps.map (stepSource options.naming (options.indent + 2))) := by
  simp only [compile, bind_done, pure_done] at done
  obtain ⟨f, m₁, made, rfl, rfl⟩ := done
  exact ⟨rfl, (Compile.tasksFragment_written made).assemble, stepsSource_eq_join _ _ _⟩

/-! ## A program of every kind of step -/

namespace Everything

/-- Tasks that import a module and a built-in function, are unrolled, loop, declare and run a command. -/
def tasks : List Task :=
  [{ from_ := some "m.lua", use := some "f", loop := some (.arr [.int 1, .str "two"]), args := [.str "${item}!"] },
    { use := some "setVars", args := [.obj [("list", .str "${result}")]] },
    { use := some "json.stringify", loop := some (.str "${list}"), args := [.str "${item}", .null] },
    { use := some ":echo", args := [.str "${build.env.NAME}"] }]

/-- The body is indented, and one name is known. -/
def options : CompileOptions := { indent := 2, publicContext := { env := [("NAME", "world")] } }

theorem compiles : (compile options .defaults tasks (Machine.initial {})).passes (fun compiled _ =>
    compiled.program.imports.map (·.binding) = ["f", "json"] ∧
      compiled.program.steps.length = 5) = true := by
  decide +kernel

/-- The payloads of these tasks are the text of their imports and of their five steps. -/
theorem payloads_of_everything : ∃ compiled m, compile options .defaults tasks (Machine.initial {}) =
      .done compiled m ∧
    compiled.program.imports.map (·.binding) = ["f", "json"] ∧
    compiled.program.steps.length = 5 ∧ compiled.Written 4 := by
  obtain ⟨compiled, m, done, facts⟩ := Outcome.passes_iff.1 compiles
  simp only [decide_eq_true_eq] at facts
  exact ⟨compiled, m, done, facts.1, facts.2, (payloads_written done).2.1⟩

end Everything

end Tasklang
