import Tasklang.Lua.Operations

/-! # Arguments of library functions

Reading the arguments of a call by position, with the conversions that library functions allow: a
number where a string is expected and a numeral where a number is expected.
-/

namespace Tasklang.Lua

open Code

/-- The arguments of a call to a library function, with the full name of the function and the way
to call functions from where it is called. -/
structure Arguments where
  name : String
  values : List Value
  caller : Caller

namespace Arguments

variable {α : Type}

/-- The argument at a position, counted from zero; nil when it is missing. -/
def value (a : Arguments) (i : Nat) : Value := a.values.getD i .nil

/-- Whether an argument is missing or nil. -/
def isAbsent (a : Arguments) (i : Nat) : Bool := (a.value i).isNil

/-- The way to call functions from inside the library function. -/
def inside (a : Arguments) : Caller := a.caller.native

/-- Raise an error that says where the library function was called. -/
def raise (a : Arguments) (message : String) : Code Value α := a.caller.raise message

/-- Raise the error of an argument that does not fit. The object of a method does not count. -/
def refuse (a : Arguments) (i : Nat) (reason : String) : Code Value α :=
  let complain (n : Nat) (name : String) : Code Value α :=
    a.raise ("bad argument #" ++ Nat.repr n ++ " to '" ++ name ++ "' (" ++ reason ++ ")")
  match a.caller.site.callee with
  | .unknown => complain (i + 1) a.name
  | .named name => complain (i + 1) name
  | .method name =>
    if i = 0 then a.raise ("calling '" ++ name ++ "' on bad self (" ++ reason ++ ")")
    else complain i name

/-- Raise the error of an argument of the wrong type. -/
def expected (a : Arguments) (i : Nat) (what : String) : Code Value α := do
  let got ← (match a.value i with
    | .null => return "light userdata"
    | v => do
      match ← metamethod v "__name" with
      | .str s => return Bytes.decodeLossy s
      | _ => return if i < a.values.length then v.typeName else "no value")
  a.refuse i (what ++ " expected, got " ++ got)

/-- An argument that may be nil but not missing. -/
def any (a : Arguments) (i : Nat) : Code Value Value :=
  if i < a.values.length then return a.value i else a.refuse i "value expected"

/-- An argument that is a number or denotes one. -/
def number (a : Arguments) (i : Nat) : Code Value Number :=
  match (a.value i).toNumber? with
  | some n => return n
  | none => a.expected i "number"

/-- An argument that is a number, as a double. -/
def double (a : Arguments) (i : Nat) : Code Value Double := do return (← a.number i).toDouble

/-- An argument that is an integer or denotes one. -/
def int (a : Arguments) (i : Nat) : Code Value Int := do
  match (← a.number i).toInt? with
  | some n => return n.toInt
  | none => a.refuse i "number has no integer representation"

/-- An integer argument that may be left out. -/
def intOr (a : Arguments) (i : Nat) (default : Int) : Code Value Int :=
  if a.isAbsent i then return default else a.int i

/-- An argument that is a string or a number. -/
def bytes (a : Arguments) (i : Nat) : Code Value Bytes :=
  match (a.value i).toBytes? with
  | some s => return s
  | none => a.expected i "string"

/-- A string argument that may be left out. -/
def bytesOr (a : Arguments) (i : Nat) (default : Bytes) : Code Value Bytes :=
  if a.isAbsent i then return default else a.bytes i

/-- An argument that is a table. -/
def table (a : Arguments) (i : Nat) : Code Value TableRef :=
  match a.value i with
  | .table r => return r
  | _ => a.expected i "table"

/-- Raise an error when so many results do not fit on the stack. -/
def checkRoom (a : Arguments) (results : Int) (message : String) : Code Value Unit :=
  if a.caller.site.top + results < Site.stackLimit then return () else a.raise message

end Arguments

/-- A position in a sequence of some length, negative ones counted from its end. -/
def fromEnd (i : Int) (length : Nat) : Int :=
  if 0 ≤ i then i else if -i > length then 0 else length + i + 1

/-- The place where a range starts: a position from one on, or the end of the range past it. -/
def rangeStart (i : Int) (length : Nat) : Nat :=
  if 0 < i then i.toNat
  else if i = 0 then 1
  else if -i > length then 1
  else (length + i + 1).toNat

/-- The place where a range ends, at most the length. -/
def rangeEnd (j : Int) (length : Nat) : Nat :=
  if j > length then length
  else if 0 ≤ j then j.toNat
  else if -j > length then 0
  else (length + j + 1).toNat

/-- An integer result. -/
def intValue (n : Nat) : Value := .int (Int64.ofNat n)

end Tasklang.Lua
