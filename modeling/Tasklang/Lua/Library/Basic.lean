import Tasklang.Lua.Chunk
import Tasklang.Lua.Library.Arguments

/-! # Basic functions

The library functions that stand without a table: types and conversions, metatables, access
without metamethods, errors, walking tables, and loading source.
-/

namespace Tasklang.Lua

open Code

namespace BasicFunction

/-- The name of a function. -/
def name : BasicFunction → String
  | .assert => "assert" | .collectgarbage => "collectgarbage" | .error => "error"
  | .getmetatable => "getmetatable" | .ipairs => "ipairs" | .ipairsStep => "ipairs step"
  | .load => "load" | .next => "next" | .pairs => "pairs" | .pcall => "pcall" | .print => "print"
  | .rawequal => "rawequal" | .rawget => "rawget" | .rawlen => "rawlen" | .rawset => "rawset"
  | .require => "require" | .select => "select" | .setmetatable => "setmetatable"
  | .tonumber => "tonumber" | .tostring => "tostring" | .type => "type" | .warn => "warn"
  | .xpcall => "xpcall"

/-- The value of a digit in a base of up to thirty-six. -/
def digit? (b : UInt8) : Option Nat :=
  if Bytes.isDigit b then some (b.toNat - 0x30)
  else if Bytes.isLetter b then some ((Bytes.toLower b).toNat - 0x57)
  else none

/-- The integer that digits of a base denote, blanks at both ends and a sign allowed. -/
def inBase? (base : Nat) (s : Bytes) : Option Int64 :=
  let (negative, digits) := match Numeral.trim s with
    | 0x2D :: r => (true, r)
    | 0x2B :: r => (false, r)
    | r => (false, r)
  if digits.isEmpty then none
  else
    let value := digits.foldl (fun acc b => do
      let n ← acc
      let d ← digit? b
      if d < base then some (n * base + d) else none) (some 0)
    value.map fun n => if negative then -(Int64.ofNat n) else Int64.ofNat n

/-- A value as a number; with a base, the number that a string denotes in it. -/
def toNumber (a : Arguments) : Code Value Value := do
  if a.isAbsent 1 then
    return ((← a.any 0).toNumber?.map Value.ofNumber).getD .nil
  else
    let base ← a.int 1
    match a.value 0 with
    | .str s =>
      if 2 ≤ base ∧ base ≤ 36 then
        return ((inBase? base.toNat s).map Value.int).getD .nil
      else a.refuse 1 "base out of range"
    | _ => a.expected 0 "string"

/-- The arguments from a position on, or their number. -/
def selectFrom (a : Arguments) : Code Value (List Value) := do
  let rest := a.values.drop 1
  let counts := match a.value 0 with
    | .str (0x23 :: _) => true
    | _ => false
  if counts then return [intValue rest.length]
  let n ← a.int 0
  if 0 < n then return rest.drop (n.toNat - 1)
  else if n < 0 ∧ -n ≤ rest.length then return rest.drop (rest.length - (-n).toNat)
  else a.refuse 0 "index out of range"

/-- Give a table a metatable, unless the one it has is protected. -/
def setMetatable (a : Arguments) : Code Value (List Value) := do
  let r ← a.table 0
  let held ← match a.value 1 with
    | .table m => Pure.pure (some m)
    | .nil => if a.values.length < 2 then a.expected 1 "nil or table" else Pure.pure none
    | _ => a.expected 1 "nil or table"
  match ← metamethod (.table r) "__metatable" with
  | .nil =>
    modifyTable r fun t => { t with metatable := held }
    return [.table r]
  | _ => a.raise "cannot change a protected metatable"

/-- The metatable of a value, or what stands for it. -/
def getMetatable (a : Arguments) : Code Value (List Value) := do
  let v ← a.any 0
  match ← metatableOf v with
  | none => return [.nil]
  | some r =>
    match (← table r).field "__metatable" with
    | .nil => return [.table r]
    | shown => return [shown]

/-- Raise an error, which says where the function at a level is when it is a string. -/
def raiseFrom (a : Arguments) (v : Value) (level : Int) : Code Value (List Value) :=
  match v with
  | .str s =>
    if 0 < level then Code.throw (.str (a.caller.site.blame level.toNat ++ s)) else Code.throw v
  | v => Code.throw v

/-- A text up to its first zero byte. -/
def untilZero (s : Bytes) : Bytes := s.takeWhile (· != 0)

/-- The pieces of source that a reader function gives until an empty one. -/
def gather (a : Arguments) (reader : Value) : Code Value Bytes := do
  let m ← Code.get
  iterate m.budget (fun (acc : List Bytes) => do
    match first (← a.inside.call reader []) with
    | .nil => return .inr acc.reverse.flatten
    | v => match v.toBytes? with
      | some [] => return .inr acc.reverse.flatten
      | some s => return .inl (s :: acc)
      | none => a.raise "reader function must return a string") []

/-- Load source into a function, or nil and a message. -/
def loadSource (a : Arguments) : Code Value (List Value) := do
  let mode ← a.bytesOr 2 (Bytes.ofString "bt")
  let failure (message : Value) : List Value := [.nil, message]
  let (source, name) : Except Value Bytes × Bytes ← (match (a.value 0).toBytes? with
    | some s => do return (.ok s, untilZero (← a.bytesOr 1 s))
    | none => do
      let name ← a.bytesOr 1 (Bytes.ofString "=(load)")
      match a.value 0 with
      | .function f => return (← attempt (gather a (.function f)), untilZero name)
      | _ => a.expected 0 "function")
  match source with
  | .error thrown => return failure thrown
  | .ok source =>
    let isText := source.head? != some 0x1B
    if !(untilZero mode).contains (if isText then 0x74 else 0x62) then
      return failure (.ofString ("attempt to load a " ++ (if isText then "text" else "binary")
        ++ " chunk (mode is '" ++ Bytes.decodeLossy (untilZero mode) ++ "')"))
    match Chunk.parse a.caller.site.levels source with
    | .error e => return failure (.ofString e.fault.message)
    | .ok chunk =>
      let environment := if a.values.length < 4 then .table globalsRef else a.value 3
      return [← newChunk name chunk environment]

/-- The module of a name: one that is loaded already, or a file in the current directory. -/
def requireModule (a : Arguments) : Code Value (List Value) := do
  let name ← a.bytes 0
  match ← lookUp loadedRef (.str name) with
  | .nil =>
    let text := Bytes.decodeLossy name
    let path := text.replace "." "/"
    let w ← world
    let candidates := ["./" ++ path ++ ".lua", "./" ++ path ++ "/init.lua"]
    match candidates.find? fun p => w.files.isFile w.cwd p with
    | none => a.raise ("module '" ++ text ++ "' not found")
    | some file =>
      match w.files.read w.cwd file with
      | .error e => a.raise e.message
      | .ok source =>
        match Chunk.parse a.caller.site.levels source with
        | .error e => a.raise ("error loading module '" ++ text ++ "': " ++ e.fault.message)
        | .ok chunk =>
          let f ← newChunk (ChunkName.ofFile file) chunk (.table globalsRef)
          let result := first (← a.inside.call f [.str name, .ofString file])
          match result, ← lookUp loadedRef (.str name) with
          | .nil, .nil => modifyTable loadedRef fun t => t.set (.str name) (.bool true)
          | .nil, _ => Pure.pure ()
          | v, _ => modifyTable loadedRef fun t => t.set (.str name) v
          return [← lookUp loadedRef (.str name), .ofString file]
  | v => return [v]

/-- Write the texts of values on a line. -/
def printLine (a : Arguments) : Code Value (List Value) := do
  a.values.zipIdx.forM fun (v, i) => do
    let text ← toText a.caller v
    modifyWorld fun w => w.write (if i = 0 then text else 0x09 :: text)
  modifyWorld fun w => w.print [0x0A]
  return []

/-- The results of a call whose errors are results too. -/
def protectedCall (a : Arguments) : Code Value (List Value) := do
  match a.values with
  | [] => Code.throw (.ofString "not enough arguments to pcall")
  | f :: args =>
    match ← attempt (a.inside.call f args) with
    | .ok vs => return .bool true :: vs
    | .error (e : Value) => return [.bool false, e]

/-- The results of a call whose errors a handler sees. An error of the handler takes their
place. -/
def handledCall (a : Arguments) : Code Value (List Value) := do
  match a.values with
  | f :: handler :: args =>
    match ← attempt (a.inside.call f args) with
    | .ok vs => return .bool true :: vs
    | .error (e : Value) =>
      match ← attempt (a.inside.call handler [e]) with
      | .ok vs => return [.bool false, first vs]
      | .error (e : Value) => return [.bool false, e]
  | _ => Code.throw (.ofString "not enough arguments to xpcall")

/-- The results of a call to a basic function. -/
def apply (f : BasicFunction) (caller : Caller) (values : List Value) : Code Value (List Value) := do
  let a : Arguments := ⟨f.name, values, caller⟩
  match f with
  | .assert =>
    if (← a.any 0).truthy then return values
    raiseFrom a (if 1 < values.length then a.value 1 else .ofString "assertion failed!") 1
  | .collectgarbage =>
    match a.value 0 with
    | .str s =>
      if s = Bytes.ofString "count" then return [.float (.ofFloat 32.0)]
      else if s = Bytes.ofString "step" ∨ s = Bytes.ofString "isrunning" then return [.bool true]
      else return [intValue 0]
    | _ => return [intValue 0]
  | .error => do raiseFrom a (a.value 0) (← a.intOr 1 1)
  | .getmetatable => getMetatable a
  | .ipairs => return [.function (.basic .ipairsStep), ← a.any 0, intValue 0]
  | .ipairsStep =>
    let n := Int64.ofInt (← a.int 1) + 1
    match ← index a.inside metaHops (a.value 0) (.int n) with
    | .nil => return [.nil]
    | v => return [.int n, v]
  | .load => loadSource a
  | .next =>
    match (← table (← a.table 0)).next (a.value 1) with
    | some (.nil, _) => return [.nil]
    | some (k, v) => return [k, v]
    | none => a.inside.raise "invalid key to 'next'"
  | .pairs =>
    let v ← a.any 0
    match ← metamethod v "__pairs" with
    | .nil => return [.function (.basic .next), v, .nil]
    | handler =>
      let vs ← a.inside.call handler [v]
      return [vs.getD 0 .nil, vs.getD 1 .nil, vs.getD 2 .nil]
  | .pcall => protectedCall a
  | .print => printLine a
  | .rawequal => return [.bool (Value.rawEq (← a.any 0) (← a.any 1))]
  | .rawget =>
    let r ← a.table 0
    return [← lookUp r (← a.any 1)]
  | .rawlen =>
    match a.value 0 with
    | .table r => return [intValue (← lengthOf r)]
    | .str s => return [intValue s.length]
    | _ => a.expected 0 "table or string"
  | .rawset =>
    let r ← a.table 0
    rawSet a.inside r (← a.any 1) (← a.any 2)
    return [.table r]
  | .require => requireModule a
  | .select => selectFrom a
  | .setmetatable => setMetatable a
  | .tonumber => return [← toNumber a]
  | .tostring => return [.str (← toText caller (← a.any 0))]
  | .type => return [.ofString (← a.any 0).typeName]
  | .warn =>
    let _ ← a.bytes 0
    return []
  | .xpcall => handledCall a

end BasicFunction

end Tasklang.Lua
