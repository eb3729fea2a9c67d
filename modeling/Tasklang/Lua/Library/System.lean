import Tasklang.Lua.Library.Arguments

/-! # Functions on streams and the system

Writing to the standard streams and reading the environment.
-/

namespace Tasklang.Lua

open Code

namespace SystemFunction

/-- The name of a function. -/
def name : SystemFunction → String
  | .write => "write" | .streamWrite => "write" | .streamClose => "close" | .getenv => "getenv"

/-- The bytes that writing a value puts out: a double has no fraction where it needs none. -/
def written (v : Value) : Option Bytes :=
  match v with
  | .float x =>
    some (Bytes.ofChars (if x.isFinite then Tasklang.Number.generalChars x.toFloat 14 false
      else x.specialChars))
  | v => v.toBytes?

/-- Write arguments to a stream, which is the result. -/
def writeAll (a : Arguments) (stream : Stream) (start : Nat) : Code Value (List Value) := do
  ((a.values.drop start).zipIdx start).forM fun (v, i) => do
    match written v with
    | some bs => match stream with
      | .stderr => modifyWorld fun w => w.printError bs
      | _ => modifyWorld fun w => w.write bs
    | none => a.expected i "string"
  return [.stream stream]

/-- The results of a call to a system function. -/
def apply (f : SystemFunction) (caller : Caller) (values : List Value) : Code Value (List Value) := do
  let a : Arguments := ⟨f.name, values, caller⟩
  match f with
  | .write => writeAll a .stdout 0
  | .streamWrite =>
    match a.value 0 with
    | .stream s => writeAll a s 1
    | _ => a.expected 0 "FILE*"
  | .streamClose =>
    match a.value 0 with
    | .stream s => return [.stream s]
    | _ => a.expected 0 "FILE*"
  | .getenv =>
    let key ← a.bytes 0
    let w ← world
    match w.environment.find? fun (k, _) => Bytes.ofString k == key with
    | some (_, v) => return [.ofString v]
    | none => return [.nil]

end SystemFunction

end Tasklang.Lua
