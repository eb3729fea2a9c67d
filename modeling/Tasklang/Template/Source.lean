import Tasklang.Template.Basic
import Tasklang.Lua.Quote

/-! # Templates as Lua source

The Lua expression that joins the segments of a template into one string, and a Lua function that
renders a template for a table of named values.
-/

namespace Tasklang.Template

/-- The Lua operand of a segment. -/
def segmentSource : Segment → String
  | .text s => Lua.quote s
  | .expr source => "tostring(" ++ source ++ ")"

/-- The Lua expression that joins segments into one string. -/
def concatSource (segments : List Segment) : String :=
  if segments.isEmpty then Lua.quote ""
  else " .. ".intercalate (segments.map segmentSource)

/-- The Lua source of a function that renders a text: it takes the values as the table `param`
and declares one local for each of the keys. -/
def functionSource (text : String) (keys : List String) (param : String) :
    Except TemplateError String :=
  (parse text).map fun segments =>
    "function(" ++ param ++ ") "
      ++ String.join (keys.map fun key =>
        "local " ++ key ++ " = " ++ param ++ "[" ++ Lua.quote key ++ "]; ")
      ++ "return " ++ concatSource segments ++ " end"

end Tasklang.Template
