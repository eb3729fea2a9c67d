import Tasklang.Compile.Error
import Tasklang.Program.Literal

/-! # Folding

Arguments become literals. Every placeholder is evaluated against what is known: one that reads an
unbound name is deferred, and every other value is spliced in. A text that is a single placeholder
keeps the type of its value.
-/

namespace Tasklang

open Compile

/-- What placeholders are folded against. -/
structure Folder where
  bindings : Bindings
  /-- The names that may be unbound, when not all may. -/
  runtimeNames : Option (List String) := none
  deriving Repr

namespace Folder

/-- Put text in front of folded segments, joined with text that they start with. -/
def joinText (t : String) (segments : List Segment) : List Segment :=
  if t.isEmpty then segments
  else match segments with
    | .text u :: rest => .text (t ++ u) :: rest
    | _ => .text t :: segments

/-- Whether a name may stay unbound until the program runs. -/
def mayDefer (f : Folder) (name : String) : Bool :=
  match f.runtimeNames with
  | none => true
  | some names => names.contains name

/-- The value of an expression, or nothing when it is deferred. -/
def tryEval (f : Folder) (source : String) : Compiling (Option Json) := do
  match ← (evaluate source f.bindings).attempt with
  | .ok v => return some v
  | .error (.unbound name) =>
    if f.mayDefer name then return none else Lua.Run.throw (.undefinedName name)
  | .error e => Lua.Run.throw (.evaluation e)

/-- Fold segments, splicing the values of known placeholders into the text around them. -/
def foldSegments (f : Folder) : List Segment → Compiling (List Segment)
  | [] => return []
  | .text t :: rest => do return joinText t (← f.foldSegments rest)
  | .expr source :: rest => do
    match ← f.tryEval source with
    | some v => return joinText v.stringify (← f.foldSegments rest)
    | none => return .expr source :: (← f.foldSegments rest)

/-- The text of segments in which nothing is deferred. -/
def textOf (segments : List Segment) : String :=
  String.join (segments.map fun
    | .text t => t
    | .expr source => source)

/-- The literal of folded segments. -/
def literalOf (segments : List Segment) : Literal :=
  if (Template.expressions segments).isEmpty then .const (.str (textOf segments))
  else .deferred segments

/-- The literal of a text. -/
def fold (f : Folder) (text : String) : Compiling Literal := do
  match ← parsed (Template.parse text) with
  | [.expr source] =>
    match ← f.tryEval source with
    | some v => return .const v
    | none => return .deferred [.expr source]
  | segments => return literalOf (← f.foldSegments segments)

/-- The literal of a text whose value is used as it is: a single placeholder that is deferred stays
an expression. -/
def foldExpression (f : Folder) (text : String) : Compiling Literal := do
  match ← f.fold text with
  | .deferred [.expr source] => return .expr source
  | l => return l

mutual

/-- The literal of a value, all texts in it folded. -/
def reconstruct (f : Folder) : Json → Compiling Literal
  | .str s => f.fold s
  | .arr items => do return .seq (← f.reconstructAll items)
  | .obj entries => do return .map (← f.reconstructEntries entries)
  | v => return .const v

/-- The literals of values. -/
def reconstructAll (f : Folder) : List Json → Compiling (List Literal)
  | [] => return []
  | v :: vs => do
    let l ← f.reconstruct v
    return l :: (← f.reconstructAll vs)

/-- The literals of entries. -/
def reconstructEntries (f : Folder) : List (String × Json) → Compiling (List (String × Literal))
  | [] => return []
  | (k, v) :: es => do
    let l ← f.reconstruct v
    return (k, l) :: (← f.reconstructEntries es)

end

end Folder

end Tasklang
