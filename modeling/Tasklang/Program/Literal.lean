import Tasklang.Json.Printer
import Tasklang.Template.Source

/-! # Literals

An argument of a compiled program: a value that is known, text with placeholders, an expression, or
a collection of literals. A literal has Lua source, and a value when nothing in it is deferred.
-/

namespace Tasklang

/-- A value as a compiled program holds it. -/
inductive Literal where
  /-- A known value. -/
  | const (v : Json)
  /-- Text whose placeholders are evaluated when the program runs. -/
  | deferred (segments : List Segment)
  /-- An expression whose value keeps its type. -/
  | expr (source : String)
  | seq (items : List Literal)
  | map (entries : List (String × Literal))
  deriving Inhabited, Repr

namespace Literal

mutual

/-- The value of a literal, when the whole of it is known. -/
def constant : Literal → Option Json
  | .const v => some v
  | .deferred _ => none
  | .expr _ => none
  | .seq items => (constants items).map .arr
  | .map entries => (constantEntries entries).map fun es => .obj (Bindings.ofList es)

/-- The values of literals, when all of them are known. -/
def constants : List Literal → Option (List Json)
  | [] => some []
  | l :: ls => match constant l, constants ls with
    | some v, some vs => some (v :: vs)
    | _, _ => none

/-- The values of entries, when all of them are known. -/
def constantEntries : List (String × Literal) → Option (List (String × Json))
  | [] => some []
  | (k, l) :: es => match constant l, constantEntries es with
    | some v, some vs => some ((k, v) :: vs)
    | _, _ => none

end

/-- The source of a table from the sources of its fields. -/
def tableSource (fields : List String) : String :=
  "\x7b" ++ ", ".intercalate fields ++ "\x7d"

/-- The source of a key in a table. -/
def keySource (key : String) : String :=
  if Lua.isIdentifier key then key else "[" ++ Lua.quote key ++ "]"

mutual

/-- The source of a known value. -/
def valueSource : Json → String
  | .null => "nil"
  | .str s => Lua.quote s
  | .arr items => tableSource (valueSources items)
  | .obj entries => tableSource (entrySources entries)
  | v => v.print

/-- The sources of known values. -/
def valueSources : List Json → List String
  | [] => []
  | v :: vs => valueSource v :: valueSources vs

/-- The sources of known entries. -/
def entrySources : List (String × Json) → List String
  | [] => []
  | (k, v) :: es => (keySource k ++ " = " ++ valueSource v) :: entrySources es

end

mutual

/-- The source of a literal. -/
def source : Literal → String
  | .const v => valueSource v
  | .deferred segments => Template.concatSource segments
  | .expr e => e
  | .seq items => tableSource (sources items)
  | .map entries => tableSource (fieldSources entries)

/-- The sources of literals. -/
def sources : List Literal → List String
  | [] => []
  | l :: ls => source l :: sources ls

/-- The sources of the fields of a mapping. -/
def fieldSources : List (String × Literal) → List String
  | [] => []
  | (k, l) :: es => (keySource k ++ " = " ++ source l) :: fieldSources es

end

end Literal

end Tasklang
