import Tasklang.Json.Printer
import Tasklang.Json.Reader
import Tasklang.Lua.Conversion
import Tasklang.Lua.Operations

/-! # Host functions

The functions that a host registers for programs: structured text, files, waiting, and recording
of calls. Their failures are faults.
-/

namespace Tasklang.Lua

open Code

namespace HostFunction

/-- The value at a position of the arguments, or nil. -/
def argument (values : List Value) (i : Nat) : Value := values.getD i .nil

/-- The text of an argument. -/
def text (values : List Value) (i : Nat) : Code Value String := (argument values i).readText

/-- Fail with a message of a host function. -/
def refuse {α : Type} (message : String) : Code Value α := fail (.external (some message))

/-- The time to wait that a value denotes, in milliseconds. -/
def milliseconds? (v : Value) : Option Nat :=
  match v.toNumber? with
  | some (.int n) => if 0 ≤ n.toInt then some n.toInt.toNat else none
  | some (.float x) =>
    if x.isFinite then
      let n := (Tasklang.Number.truncate x.toFloat).1
      if 0 ≤ n ∧ n < Nat.pow 2 64 then some n.toNat else none
    else none
  | none => none

/-- The contents of a file. -/
def read (path : String) : Code Value Value := do
  let w ← world
  match w.files.readText w.cwd path with
  | .ok contents => return .ofString contents
  | .error e => refuse ("cannot read '" ++ path ++ "': " ++ e.message)

/-- Write a file. -/
def write (path : String) (contents : Bytes) : Code Value Unit := do
  let w ← world
  match w.files.write w.cwd path contents with
  | .ok files => modifyWorld fun w => { w with files }
  | .error e => refuse ("cannot write '" ++ path ++ "': " ++ e.message)

/-- The result of a call to a host function. -/
def apply (f : HostFunction) (values : List Value) : Code Value (List Value) := do
  match f with
  | .jsonStringify => return [.ofString (← (argument values 0).readJson).print]
  | .jsonParse =>
    match Json.parse? (← text values 0) with
    | some v => return [← Value.make .null v]
    | none => fail (.external none)
  | .fsRead => return [← read (← text values 0)]
  | .fsWrite =>
    let path ← text values 0
    match (argument values 1).toBytes? with
    | some contents =>
      write path contents
      return [.nil]
    | none => fail .conversion Fault.conversion_known
  | .sleep =>
    match milliseconds? (argument values 0) with
    | some _ => return [.nil]
    | none => fail .conversion Fault.conversion_known
  | .recording name =>
    let args ← values.mapM Value.readJson
    modifyWorld fun w => w.record ⟨name, args⟩
    return [argument values 0]

end HostFunction

end Tasklang.Lua
