import Tasklang.Config.Error
import Tasklang.Tasks.Task
import Tasklang.Text.Blank
import Tasklang.Yaml.Value

/-! # Task files

A task file is a document that holds a sequence of tasks. A document without content holds none.
-/

namespace Tasklang.TaskFile

/-- The fields that a task has. -/
def fields : List String := ["from", "use", "args", "loop"]

/-- The entries of a mapping by the texts of their keys. -/
def textEntries (entries : List (Yaml.Value × Yaml.Value)) : Option (List (String × Yaml.Value)) :=
  entries.mapM fun (k, v) => k.text?.map (·, v)

/-- Whether no field is written twice. -/
def fieldsDistinct (entries : List (String × Yaml.Value)) : Bool :=
  fields.all fun name => (entries.filter (·.1 = name)).length ≤ 1

/-- A text that may be missing or null. -/
def optionalText (entries : List (String × Yaml.Value)) (name : String) : Option (Option String) :=
  match entries.lookup name with
  | none => some none
  | some .null => some none
  | some v => v.text?.map some

/-- Data that may be missing; what is missing counts as null. -/
def optionalData (entries : List (String × Yaml.Value)) (name : String) : Option Json :=
  match entries.lookup name with
  | none => some .null
  | some v => v.toJson?

/-- The task that a value describes. Fields with other names do not count, and null is the task
without fields. -/
def taskOf (v : Yaml.Value) : Option Task :=
  match v.untagged with
  | .null => some {}
  | .map entries => do
    let es ← textEntries entries
    if !fieldsDistinct es then none
    let from_ ← optionalText es "from"
    let use ← optionalText es "use"
    let args ← optionalData es "args"
    let loop ← optionalData es "loop"
    return { from_, use, args := Task.argsOf args, loop := Task.loopOf loop }
  | _ => none

/-- The tasks of the text of a file. -/
def parse (text : String) : Except ConfigError (List Task) :=
  if Text.isAllBlank text then .ok []
  else match Yaml.parse? text with
    | none => .error .malformed
    | some .null => .ok []
    | some (.seq items) => match items.mapM taskOf with
      | some tasks => .ok tasks
      | none => .error .malformed
    | some _ => .error .notATaskList

/-- The tasks of a file. -/
def read (fs : FileSystem) (cwd : Place) (path : String) : Except ConfigError (List Task) := do
  parse (← readProjectFile fs cwd path)

end Tasklang.TaskFile
