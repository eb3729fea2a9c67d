import Tasklang.Expression
import Tasklang.Template.Basic

/-! # Rendering templates

The text of a template in a scope: text stands for itself and every placeholder for its displayed
value. A template can be bound to the names it may read.
-/

namespace Tasklang

open Lua

namespace Template

/-- The text of a segment in a scope. -/
def segmentText (s : Scope) : Segment → Run EvalError String
  | .text t => return t
  | .expr source => do display (← s.eval source)

/-- The text of segments in a scope. -/
def textIn (s : Scope) : List Segment → Run EvalError String
  | [] => return ""
  | x :: xs => do
    let t ← segmentText s x
    return t ++ (← textIn s xs)

end Template

/-- A parsed template and the names it may read. -/
structure Template where
  segments : List Segment
  keys : List String
  deriving DecidableEq, Repr

namespace Template

/-- Parse a text into a template over some names. -/
def ofText (text : String) (keys : List String) : Except TemplateError Template :=
  (parse text).map fun segments => ⟨segments, keys⟩

/-- The bindings of the names that a template may read; a name without a value is null. -/
def visible (t : Template) (bindings : Bindings) : List (String × Json) :=
  t.keys.map fun key => (key, (bindings.get? key).getD .null)

/-- The text of a template for bindings, of which it sees only its own names. -/
def render (t : Template) (bindings : Bindings) : Run EvalError String := do
  let s ← Scope.ofBindings (t.visible bindings)
  textIn s t.segments

end Template

end Tasklang
