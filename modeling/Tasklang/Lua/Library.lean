import Tasklang.Lua.Library.Basic
import Tasklang.Lua.Library.Host
import Tasklang.Lua.Library.Importer
import Tasklang.Lua.Library.Math
import Tasklang.Lua.Library.String
import Tasklang.Lua.Library.System
import Tasklang.Lua.Library.Table
import Tasklang.Lua.Library.Utf8
import Tasklang.Lua.Scope

/-! # The library

What every function that is not written in Lua does, and the machine in which a program starts:
the tables of the standard library and the globals.
-/

namespace Tasklang.Lua

open Code

/-- The results of a call to a function that is not written in Lua. -/
def applyLibrary (c : Caller) (f : Function) (values : List Value) : Code Value (List Value) :=
  match f with
  | .basic f => f.apply c values
  | .string f => f.apply c values
  | .stringOperator op => do
    return [← stringArithmetic c op (values.getD 0 .nil) (values.getD 1 .nil)]
  | .table f => f.apply c values
  | .math f => f.apply c values
  | .utf8 f => f.apply c values
  | .system f => f.apply c values
  | .unsupported name => c.raise ("'" ++ name ++ "' cannot be used here")
  | .host f => f.apply values
  | .importer base => importCall c base values
  | .scopeLookup id => do return [← Scope.lookup c ⟨id⟩ (values.getD 1 .nil)]
  | .gmatchStep subject pattern start cell =>
    StringFunction.nextMatch c subject pattern start cell
  | .closure _ => c.raise "attempt to call a function value"

/-- A table with named fields. -/
def tableOf (fields : List (String × Value)) : Table :=
  fields.foldl (fun t (name, v) => t.setField name v) (Table.withRoom 0 fields.length)

/-- Functions that can be named but not used, in a table of some name. -/
def unsupported (within : String) (names : List String) : List (String × Value) :=
  names.map fun n => (n, .function (.unsupported (within ++ "." ++ n)))

/-- The fields of the metatable of strings, given the table of the functions on strings. -/
def stringMetaFields (library : TableRef) : List (String × Value) :=
  ([.add, .sub, .mul, .mod, .pow, .div, .idiv, .unm] : List StringOperator).map (fun op =>
    (op.event, .function (.stringOperator op)))
    ++ [("__index", .table library)]

/-- The basic functions. -/
def basicFields : List (String × Value) :=
  ([.assert, .collectgarbage, .error, .getmetatable, .ipairs, .load, .next, .pairs, .pcall, .print,
    .rawequal, .rawget, .rawlen, .rawset, .require, .select, .setmetatable, .tonumber, .tostring,
    .type, .warn, .xpcall] : List BasicFunction).map fun f => (f.name, .function (.basic f))

/-- The functions on strings. -/
def stringFields : List (String × Value) :=
  ([.byte, .char, .find, .format, .gmatch, .gsub, .len, .lower, .matchPattern, .rep, .reverse, .sub,
    .upper] : List StringFunction).map (fun f => (f.name, .function (.string f)))
    ++ unsupported "string" ["dump", "pack", "packsize", "unpack"]

/-- The functions on tables. -/
def tableFields : List (String × Value) :=
  ([.concat, .insert, .move, .pack, .remove, .sort, .unpack] : List TableFunction).map fun f =>
    (f.name, .function (.table f))

/-- The mathematical functions and constants. -/
def mathFields : List (String × Value) :=
  ([.abs, .ceil, .cos, .cosh, .deg, .exp, .floor, .fmod, .frexp, .ldexp, .log, .log10, .max, .min,
    .modf, .pow, .rad, .sin, .sinh, .sqrt, .tan, .tanh, .tointeger, .type, .ult, .acos, .asin,
    .atan] : List MathFunction).map (fun f => (f.name, .function (.math f)))
    ++ unsupported "math" ["random", "randomseed"]
    ++ [("pi", .float (.ofFloat MathFunction.pi)), ("huge", .float (.ofFloat (1.0 / 0.0))),
      ("maxinteger", .int Int64.maxValue), ("mininteger", .int Int64.minValue)]

/-- The functions on encoded text, and a pattern that matches one character. -/
def utf8Fields : List (String × Value) :=
  ([.char, .codepoint, .codes, .len, .offset] : List Utf8Function).map (fun f =>
    (f.name, .function (.utf8 f)))
    ++ [("charpattern", .str ([0x5B, 0x00, 0x2D, 0x7F, 0xC2, 0x2D, 0xFD, 0x5D, 0x5B, 0x80, 0x2D,
      0xBF, 0x5D, 0x2A]))]

/-- The functions of the system. -/
def osFields : List (String × Value) :=
  ("getenv", .function (.system .getenv)) :: unsupported "os" ["clock", "date", "difftime",
    "execute", "exit", "remove", "rename", "setlocale", "time", "tmpname"]

/-- The functions on streams, and the standard streams. -/
def ioFields : List (String × Value) :=
  [("write", .function (.system .write)), ("stdin", .stream .stdin), ("stdout", .stream .stdout),
    ("stderr", .stream .stderr)] ++ unsupported "io" ["close", "flush", "input", "lines", "open",
    "output", "popen", "read", "tmpfile", "type"]

/-- The functions on coroutines. -/
def coroutineFields : List (String × Value) :=
  unsupported "coroutine" ["close", "create", "isyieldable", "resume", "running", "status", "wrap",
    "yield"]

/-- The tables of the library by name, in the order of their places from the first free one on. -/
def libraryTables : List (String × List (String × Value)) :=
  [("string", stringFields), ("table", tableFields), ("math", mathFields), ("utf8", utf8Fields),
    ("os", osFields), ("io", ioFields), ("coroutine", coroutineFields)]

/-- The first place that is free after the fixed tables. -/
def firstLibraryRef : TableRef := 4

/-- The tables of the library as fields of the globals. -/
def libraryFields : List (String × Value) :=
  libraryTables.zipIdx.map fun ((name, _), i) => (name, .table (firstLibraryRef + i))

/-- The places of the table for modules, and of the table for their loaders. -/
def packageRefs : TableRef × TableRef :=
  (firstLibraryRef + libraryTables.length, firstLibraryRef + libraryTables.length + 1)

/-- The fields of the table for modules. -/
def packageFields : List (String × Value) :=
  [("loaded", .table loadedRef), ("preload", .table packageRefs.2),
    ("path", .ofString "./?.lua;./?/init.lua"), ("cpath", .ofString ""),
    ("config", .ofString "/\n;\n?\n!\n-\n")] ++ unsupported "package" ["loadlib", "searchpath"]

/-- The globals. -/
def globalFields : List (String × Value) :=
  basicFields ++ unsupported "_G" ["dofile", "loadfile"] ++ libraryFields
    ++ [("package", .table packageRefs.1), ("_G", .table globalsRef),
      ("_VERSION", .ofString "Lua 5.4")]

/-- The tables of a machine that starts. -/
def initialTables : List Table :=
  [tableOf globalFields, tableOf (stringMetaFields firstLibraryRef),
    tableOf [("__metatable", .bool false)],
    tableOf (libraryFields ++ [("_G", .table globalsRef), ("package", .table packageRefs.1)])]
    ++ libraryTables.map (fun (_, fields) => tableOf fields)
    ++ [tableOf packageFields, {}]

/-- The machine in which a program starts. -/
def Machine.initial (world : World) : Machine := { tables := initialTables.toArray, world }

end Tasklang.Lua
