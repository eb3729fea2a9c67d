import Tasklang.Config.Error
import Tasklang.Program.Naming
import Tasklang.Text.Blank
import Tasklang.Yaml.Value

/-! # Compiler settings

A file of settings chooses the names that programs are compiled with, and whether names that are
never bound are refused. Any scalar counts as a name by its text, whatever its tag; keys that are not
known do not count.
-/

namespace Tasklang

/-- The settings of a file. -/
structure Settings where
  naming : Naming := {}
  strict : Bool := false
  deriving DecidableEq, Repr, Inhabited

namespace Settings

open Yaml

/-- The text of a scalar. -/
def textOf (d : Document) (n : Node) : Resolving String := do
  match ← d.follow n with
  | .scalar _ text _ => return text
  | _ => failure

/-- A truth value: a plain scalar, or a literal block that is tagged as one. -/
def boolOf (d : Document) (n : Node) : Resolving Bool := do
  match ← d.follow n with
  | .scalar _ text .plain => (Scalar.bool? text : Option Bool)
  | .scalar (some "tag:yaml.org,2002:bool") text .literal => (Scalar.bool? text : Option Bool)
  | _ => failure

/-- The entries of a mapping; a value that is left out is an empty one. -/
def entriesOf (d : Document) (n : Node) : Resolving (List (Node × Node)) := do
  match ← d.follow n with
  | .map _ entries => return entries
  | .scalar _ "" .plain => return []
  | _ => failure

/-- Read entries whose keys are known, none of them twice. `seen` are the known keys before. -/
def readFields {α : Type} (d : Document) (known : List String)
    (read : α → String → Node → Resolving α) :
    List String → α → List (Node × Node) → Resolving α
  | _, a, [] => return a
  | seen, a, (k, v) :: es => do
    let key ← textOf d k
    if !known.contains key then readFields d known read seen a es
    else if seen.contains key then failure
    else readFields d known read (key :: seen) (← read a key v) es

/-- The names that a mapping chooses. -/
def namingOf (d : Document) (n : Node) : Resolving Naming := do
  readFields d Naming.keys (fun naming key v => return naming.set key (← textOf d v)) [] {}
    (← entriesOf d n)

/-- The settings of a document. -/
def ofDocument (d : Document) : Resolving Settings := do
  readFields d ["naming", "strict"] (fun s key v =>
    if key = "naming" then return { s with naming := ← namingOf d v }
    else return { s with strict := ← boolOf d v }) [] {} (← entriesOf d d.root)

/-- The settings of a text. -/
def parse (text : String) : Except ConfigError Settings :=
  if Text.isAllBlank text then .ok {}
  else match parseDocument text with
    | none => .error .malformed
    | some none => .ok {}
    | some (some d) => match (ofDocument d).run' d.maxJumps with
      | some s => .ok s
      | none => .error .malformed

/-- The settings of a file. -/
def read (fs : FileSystem) (cwd : Place) (path : String) : Except ConfigError Settings := do
  parse (← readProjectFile fs cwd path)

end Settings

end Tasklang
