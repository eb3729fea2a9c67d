import Tasklang.Program.Source

/-! # Fragments and assembly

A fragment is the compiled output of some tasks, once as text and once in structured form.
Fragments are only ever appended. Assembling wraps the text into the two payloads of a program:
a module that is kept, and a chunk that is run at once.
-/

namespace Tasklang

/-- The compiled output of some tasks. -/
structure Fragment where
  /-- The import lines of the module payload. -/
  moduleImports : String := ""
  /-- The import lines of the runtime payload. -/
  runtimeImports : String := ""
  /-- The body that both payloads share. -/
  body : String := ""
  /-- Notes about what was compiled. -/
  diagnostics : String := ""
  imports : List Import := []
  steps : List Step := []
  deriving Inhabited, Repr

namespace Fragment

/-- The fragment of one import. -/
def ofImport (i : Import) (naming : Naming) : Fragment :=
  { moduleImports := i.moduleLine naming, runtimeImports := i.runtimeLine naming, imports := [i] }

/-- The fragment of steps, whose lines are indented. -/
def ofSteps (steps : List Step) (naming : Naming) (indent : Nat) : Fragment :=
  { body := stepsSource naming indent steps, steps }

/-- The fragment of one note, which takes a line. -/
def ofDiagnostic (line : String) : Fragment :=
  { diagnostics := if line.endsWith "\n" then line else line ++ "\n" }

/-- One fragment after another, section by section. -/
def append (a b : Fragment) : Fragment where
  moduleImports := a.moduleImports ++ b.moduleImports
  runtimeImports := a.runtimeImports ++ b.runtimeImports
  body := a.body ++ b.body
  diagnostics := a.diagnostics ++ b.diagnostics
  imports := a.imports ++ b.imports
  steps := a.steps ++ b.steps

instance : Append Fragment := ⟨append⟩

/-- The names that a fragment binds for the tasks after it: imports and declarations, but not
what blocks and loops keep to themselves. -/
def boundNames (f : Fragment) : List String :=
  f.imports.map (·.binding) ++ f.steps.filterMap fun
    | .declare name _ => some name
    | _ => none

end Fragment

/-- A compiled program: both payloads, the structured form, and the notes. -/
structure CompiledProgram where
  modulePayload : String
  runtimePayload : String
  program : Program
  diagnostics : String
  deriving Inhabited, Repr

/-- The statement that declares the bindings every program starts with. -/
def preamble (naming : Naming) (indent : Nat) : String :=
  blanks indent ++ "local " ++ naming.result ++ ", " ++ naming.root ++ ", " ++ naming.env
    ++ " = nil, nil, \x7b\x7d\n"

namespace Fragment

/-- The fragment with which a program starts. -/
def start (naming : Naming) (indent : Nat) : Fragment := { body := preamble naming indent }

/-- The program of a fragment that has all tasks in it. -/
def assemble (f : Fragment) (naming : Naming) : CompiledProgram where
  modulePayload :=
    (if f.imports.any Import.isModule then loaderSource else "")
      ++ f.moduleImports ++ "local function main()\n" ++ f.body ++ "end\n\nreturn main\n"
  runtimePayload := f.runtimeImports ++ f.body
  program := ⟨f.imports, f.steps, naming⟩
  diagnostics := f.diagnostics

end Fragment

end Tasklang
