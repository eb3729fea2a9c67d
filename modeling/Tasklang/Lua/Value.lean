import Tasklang.Lua.Numeral
import Tasklang.Lua.Syntax

/-! # Lua values

Values of the expression language. Tables, closures and scopes live in the machine and are values
by reference. A failure raised by the host is a value too, so that expressions can catch it and
raise it again without losing what it was.
-/

namespace Tasklang.Lua

/-- Why something failed that is not a value thrown by a program. -/
inductive Fault where
  /-- A name is bound in no scope and no global. -/
  | unbound (name : String)
  /-- Source text is no chunk. -/
  | syntaxError
  /-- An operation or a library function was misused. -/
  | runtimeError (message : String)
  /-- A host function got an argument of the wrong type. -/
  | conversion
  /-- A value has no structured form. -/
  | serialization
  /-- A host function failed, with its own message or with one that does not matter. -/
  | external (message : Option String)
  deriving DecidableEq, Repr

/-- The message of a fault, where it has one that is not a matter of wording. -/
def Fault.message : Fault → String
  | .unbound name => "'" ++ name ++ "' is not defined"
  | .syntaxError => "syntax error"
  | .runtimeError message => message
  | .conversion => "bad argument"
  | .serialization => "no structured form"
  | .external message => message.getD "host function failed"

/-- Whether a fault is that a name is unbound. -/
def Fault.isUnbound : Fault → Bool
  | .unbound _ => true
  | _ => false

theorem Fault.conversion_known : Fault.conversion.isUnbound = false := rfl

/-- The place of a table in the machine. -/
abbrev TableRef := Nat

/-- The functions of the standard library that stand without a table. -/
inductive BasicFunction where
  | assert | collectgarbage | error | getmetatable | ipairs | ipairsStep | load
  | next | pairs | pcall | print | rawequal | rawget | rawlen | rawset | require | select
  | setmetatable | tonumber | tostring | type | warn | xpcall
  deriving DecidableEq, Repr, Hashable

/-- The functions on strings. -/
inductive StringFunction where
  | byte | char | find | format | gmatch | gsub | len | lower | matchPattern | rep | reverse | sub
  | upper
  deriving DecidableEq, Repr, Hashable

/-- The functions on tables. -/
inductive TableFunction where
  | concat | insert | move | pack | remove | sort | unpack
  deriving DecidableEq, Repr, Hashable

/-- The functions on numbers. -/
inductive MathFunction where
  | abs | ceil | cos | cosh | deg | exp | floor | fmod | frexp | ldexp | log | log10 | max | min | modf
  | pow | rad | sin | sinh | sqrt | tan | tanh | tointeger | type | ult | acos | asin | atan
  deriving DecidableEq, Repr, Hashable

/-- The functions on encoded text. -/
inductive Utf8Function where
  | char | codepoint | codes | codesStep | len | offset
  deriving DecidableEq, Repr, Hashable

/-- The functions on streams and the system. -/
inductive SystemFunction where
  | write | streamWrite | streamClose | getenv
  deriving DecidableEq, Repr, Hashable

/-- The arithmetic that strings take part in when they denote numbers. -/
inductive StringOperator where
  | add | sub | mul | mod | pow | div | idiv | unm
  deriving DecidableEq, Repr, Hashable

/-- The functions that the host registers. -/
inductive HostFunction where
  | jsonStringify
  | jsonParse
  | fsRead
  | fsWrite
  | sleep
  /-- Records its arguments under a name and returns the first. -/
  | recording (name : String)
  deriving DecidableEq, Repr, Hashable

/-- A standard stream. -/
inductive Stream where
  | stdin
  | stdout
  | stderr
  deriving DecidableEq, Repr

/-- A function value. -/
inductive Function where
  | basic (f : BasicFunction)
  | string (f : StringFunction)
  /-- What an arithmetic operator does to strings. -/
  | stringOperator (op : StringOperator)
  | table (f : TableFunction)
  | math (f : MathFunction)
  | utf8 (f : Utf8Function)
  | system (f : SystemFunction)
  /-- A library function that can be named but not used. -/
  | unsupported (name : String)
  | host (f : HostFunction)
  /-- Loads modules from a directory, once each. -/
  | importer (base : String)
  /-- Looks up a name for a scope that does not hold it itself. -/
  | scopeLookup (scope : Nat)
  /-- The next match of a pattern in a subject, from a start or the position kept in a cell. -/
  | gmatchStep (subject pattern : Bytes) (start cell : Nat)
  /-- A function written in Lua. -/
  | closure (ref : Nat)
  deriving DecidableEq, Repr, Hashable

/-- What a value stands for that is shown by its address. -/
inductive Reference where
  | table (ref : TableRef)
  | closure (ref : Nat)
  /-- An iterator that keeps its position in a cell. -/
  | iterator (cell : Nat)
  | native (f : Function)
  | stream
  deriving DecidableEq, Repr

/-- What a function is shown by. -/
def Function.reference : Function → Reference
  | .closure ref => .closure ref
  | .gmatchStep _ _ _ cell => .iterator cell
  | f => .native f

/-- Where things lie unless something else is asked for. -/
def Reference.usualAddress (r : Reference) : Nat :=
  let place := match r with
    | .table ref => ref
    | .closure ref => ref
    | .iterator cell => cell
    | .native f => (hash f).toNat % 0x100000000
    | .stream => 1
  place * 64 + 0x5500000000

/-- A value. -/
inductive Value where
  | nil
  | bool (b : Bool)
  | int (n : Int64)
  | float (x : Double)
  | str (s : Bytes)
  | table (ref : TableRef)
  | function (f : Function)
  | stream (s : Stream)
  /-- What a null in structured text becomes. -/
  | null
  /-- A failure of the host, by its number. -/
  | fault (id : Nat)
  deriving DecidableEq, Repr, Inhabited

namespace Value

/-- A string value. -/
def ofString (s : String) : Value := .str (Bytes.ofString s)

/-- Whether a value counts as true in a condition. -/
def truthy : Value → Bool
  | .nil => false
  | .bool b => b
  | _ => true

/-- The name of the type of a value. -/
def typeName : Value → String
  | .nil => "nil"
  | .bool _ => "boolean"
  | .int _ => "number"
  | .float _ => "number"
  | .str _ => "string"
  | .table _ => "table"
  | .function _ => "function"
  | .stream _ => "userdata"
  | .null => "userdata"
  | .fault _ => "userdata"

/-- The name of the kind of a value, which tells integers from doubles and the kinds of host
values apart. -/
def kindName : Value → String
  | .int _ => "integer"
  | .null => "lightuserdata"
  | .fault _ => "error"
  | v => v.typeName

/-- A number as a value. -/
def ofNumber : Number → Value
  | .int n => .int n
  | .float x => .float x

/-- The number that a value is. -/
def number? : Value → Option Number
  | .int n => some (.int n)
  | .float x => some (.float x)
  | _ => none

/-- The number that a value is or, as a string, denotes. -/
def toNumber? : Value → Option Number
  | .int n => some (.int n)
  | .float x => some (.float x)
  | .str s => Numeral.ofBytes? s
  | _ => none

/-- The integer that a value is or denotes. -/
def toInt? (v : Value) : Option Int64 :=
  match v.toNumber? with
  | some n => n.toInt?
  | none => none

/-- The string that a value is or, as a number, is written as. -/
def toBytes? : Value → Option Bytes
  | .str s => some s
  | .int n => some (Number.display (.int n))
  | .float x => some (Number.display (.float x))
  | _ => none

/-- Whether a value is a table. -/
def isTable : Value → Bool
  | .table _ => true
  | _ => false

/-- Whether a value is nil. -/
def isNil : Value → Bool
  | .nil => true
  | _ => false

/-- Equality without metamethods: an integer equals the double of the same value. -/
def rawEq : Value → Value → Bool
  | .int a, .float y => y.toInt? == some a
  | .float x, .int b => x.toInt? == some b
  | .float x, .float y => x.toFloat == y.toFloat
  | a, b => a == b

/-- The form of a key in a table: a double that equals an integer stands for it. -/
def normalKey : Value → Value
  | .float x => match x.toInt? with
    | some n => .int n
    | none => .float x
  | v => v

/-- Whether a value is a string. -/
def isString : Value → Bool
  | .str _ => true
  | _ => false

/-- Whether a value is a function. -/
def isFunction : Value → Bool
  | .function _ => true
  | _ => false

end Value

end Tasklang.Lua
