import Tasklang.Lua.Library.Format
import Tasklang.Lua.Pattern

/-! # String functions

Functions on strings: parts, cases, repetition, searching and replacing by patterns, formatting.
-/

namespace Tasklang.Lua

open Code

namespace StringFunction

/-- The name of a function. -/
def name : StringFunction → String
  | .byte => "byte" | .char => "char" | .find => "find" | .format => "format"
  | .gmatch => "gmatch" | .gsub => "gsub" | .len => "len" | .lower => "lower"
  | .matchPattern => "match" | .rep => "rep" | .reverse => "reverse" | .sub => "sub"
  | .upper => "upper"

/-- How long a repeated string may become. -/
def lengthLimit : Nat := Nat.pow 2 27

/-- A value or an error of matching. -/
def orRaise {α : Type} (a : Arguments) : Except String α → Code Value α
  | .ok v => return v
  | .error message => a.raise message

/-- The value of a capture of a match. -/
def captureValue (subject : Array UInt8) (c : Pattern.Capture) : Except String Value :=
  match c.extent with
  | .unfinished => .error "unfinished capture"
  | .position => .ok (intValue (c.start + 1))
  | .upTo stop => .ok (.str (Pattern.part subject c.start stop))

/-- The whole match as a value. -/
def whole (subject : Array UInt8) (m : Pattern.Match) : Value :=
  .str (Pattern.part subject m.start m.stop)

/-- The value of the first capture of a match, or the whole match when there is none. -/
def firstCapture (subject : Array UInt8) (m : Pattern.Match) : Except String Value :=
  match m.captures with
  | [] => .ok (whole subject m)
  | c :: _ => captureValue subject c

/-- The values of the captures of a match, or the whole match when there are none. -/
def captures (subject : Array UInt8) (m : Pattern.Match) : Except String (List Value) :=
  if m.captures.isEmpty then .ok [whole subject m] else m.captures.mapM (captureValue subject)

/-- Find or match a pattern. `find` also gives the place and takes the pattern literally when the
fourth argument says so. -/
def search (find : Bool) (a : Arguments) : Code Value (List Value) := do
  let s ← a.bytes 0
  let pattern ← a.bytes 1
  let start := rangeStart (← a.intOr 2 1) s.length - 1
  if s.length < start then return [.nil]
  let subject := s.toArray
  if find && ((a.value 3).truthy || !Pattern.hasSpecials pattern) then
    match Pattern.findPlain subject pattern (s.length - start) start with
    | some i => return [intValue (i + 1), intValue (i + pattern.length)]
    | none => return [.nil]
  let (anchor, rest) := Pattern.anchored pattern
  match ← orRaise a (Pattern.search subject (Pattern.parse rest) none
      (if anchor then 0 else s.length - start) start) with
  | none => return [.nil]
  | some m =>
    if find then
      let caps ← orRaise a (m.captures.mapM (captureValue subject))
      return intValue (m.start + 1) :: intValue m.stop :: caps
    else orRaise a (captures subject m)

/-- The next match of an iteration; no results after the last one. -/
def nextMatch (caller : Caller) (s pattern : Bytes) (start cell : Nat) :
    Code Value (List Value) := do
  let a : Arguments := ⟨"for iterator", [], caller⟩
  let subject := s.toArray
  let (from_, barred) ← do
    match ← Code.cell cell with
    | .int n => Pure.pure (n.toInt.toNat, some n.toInt.toNat)
    | _ => Pure.pure (start, none)
  if s.length < from_ then return []
  match ← orRaise a (Pattern.search subject (Pattern.parse pattern) barred
      (s.length - from_) from_) with
  | none =>
    setCell cell (intValue (s.length + 1))
    return []
  | some m =>
    setCell cell (intValue m.stop)
    orRaise a (captures subject m)

/-- A replacement string with its references to captures filled in. -/
def fillReplacement (subject : Array UInt8) (m : Pattern.Match) : Bytes → Except String Bytes
  | 0x25 :: 0x25 :: r => (fillReplacement subject m r).map (0x25 :: ·)
  | 0x25 :: 0x30 :: r =>
    (fillReplacement subject m r).map (Pattern.part subject m.start m.stop ++ ·)
  | 0x25 :: d :: r => do
    if !Bytes.isDigit d then .error "invalid use of '%' in replacement string"
    let n := d.toNat - 0x31
    let v ← match m.captures[n]? with
      | some c => captureValue subject c
      | none =>
        if n = 0 then .ok (whole subject m)
        else .error ("invalid capture index %" ++ Nat.repr (n + 1) ++ " in replacement string")
    return (v.toBytes?.getD []) ++ (← fillReplacement subject m r)
  | [0x25] => .error "invalid use of '%' in replacement string"
  | b :: r => (fillReplacement subject m r).map (b :: ·)
  | [] => .ok []

/-- What stands in place of a match. A table is asked for the first capture only. -/
def replacement (a : Arguments) (subject : Array UInt8) (m : Pattern.Match) (by_ : Value) :
    Code Value Bytes := do
  let unchanged := Pattern.part subject m.start m.stop
  let chosen ← match by_ with
    | .table _ => index a.inside metaHops by_ (← orRaise a (firstCapture subject m))
    | .function _ => do
      Pure.pure (first (← a.inside.call by_ (← orRaise a (captures subject m))))
    | v => do
      Pure.pure (Value.str (← orRaise a (fillReplacement subject m ((v.toBytes?).getD []))))
  match chosen with
  | .nil => return unchanged
  | .bool false => return unchanged
  | v => match v.toBytes? with
    | some bs => return bs
    | none => a.raise ("invalid replacement value (a " ++ v.typeName ++ ")")

/-- Where a replacement stands: the position in the subject, where the last match ended, how many
matches there were, and the pieces of the result, last one first. -/
structure Progress where
  position : Nat
  barred : Option Nat
  count : Nat
  pieces : List Bytes

/-- Replace the matches of a pattern. -/
def substitute (a : Arguments) : Code Value (List Value) := do
  let s ← a.bytes 0
  let (anchor, rest) := Pattern.anchored (← a.bytes 1)
  let by_ := a.value 2
  match by_ with
  | .str _ | .int _ | .float _ | .table _ | .function _ => Pure.pure ()
  | _ => a.expected 2 "string/function/table"
  let limit ← a.intOr 3 (s.length + 1)
  let subject := s.toArray
  let pieces := Pattern.parse rest
  let finish (p : Progress) : List Value :=
    [.str (p.pieces.reverse.flatten ++ s.drop p.position), intValue p.count]
  iterate (2 * s.length + 8) (fun p => do
    if limit ≤ p.count then return .inr (finish p)
    let found ← orRaise a (Pattern.search subject pieces p.barred 0 p.position)
    match found with
    | some m =>
      let text ← replacement a subject m by_
      let p : Progress := ⟨m.stop, some m.stop, p.count + 1, text :: p.pieces⟩
      return if anchor then .inr (finish p) else .inl p
    | none =>
      match subject[p.position]? with
      | none => return .inr (finish p)
      | some b =>
        let p : Progress := { p with position := p.position + 1, pieces := [b] :: p.pieces }
        return if anchor then .inr (finish p) else .inl p)
    ⟨0, none, 0, []⟩

/-- The numbers of the bytes in a range. -/
def byteRange (a : Arguments) : Code Value (List Value) := do
  let s ← a.bytes 0
  let i ← a.intOr 1 1
  let start := rangeStart i s.length
  let stop := rangeEnd (← a.intOr 2 i) s.length
  a.checkRoom (stop - start) "string slice too long"
  return ((s.take stop).drop (start - 1)).map fun b => intValue b.toNat

/-- The results of a call to a string function. -/
def apply (f : StringFunction) (caller : Caller) (values : List Value) : Code Value (List Value) := do
  let a : Arguments := ⟨"string." ++ f.name, values, caller⟩
  match f with
  | .byte => byteRange a
  | .char =>
    let bytes ← (List.range values.length).mapM fun i => do
      let n ← a.int i
      if 0 ≤ n ∧ n ≤ 255 then return UInt8.ofNat n.toNat else a.refuse i "value out of range"
    return [.str bytes]
  | .find => search true a
  | .format =>
    let text ← a.bytes 0
    return [.str (← formatFrom a (text.length + 1) 1 text)]
  | .gmatch =>
    let s ← a.bytes 0
    let pattern ← a.bytes 1
    let start := rangeStart (← a.intOr 2 1) s.length - 1
    return [.function (.gmatchStep s pattern start (← newCell .nil))]
  | .gsub => substitute a
  | .len => return [intValue (← a.bytes 0).length]
  | .lower => return [.str ((← a.bytes 0).map Bytes.toLower)]
  | .matchPattern => search false a
  | .rep =>
    let s ← a.bytes 0
    let n := (← a.int 1).toNat
    let sep ← a.bytesOr 2 []
    if n = 0 ∨ s.length + sep.length = 0 then return [.str []]
    if lengthLimit ≤ (s.length + sep.length) * n then a.raise "resulting string too large"
    return [.str (sep.intercalate (List.replicate n s))]
  | .reverse => return [.str (← a.bytes 0).reverse]
  | .sub =>
    let s ← a.bytes 0
    let start := rangeStart (← a.int 1) s.length
    let stop := rangeEnd (← a.intOr 2 (-1)) s.length
    return [.str ((s.take stop).drop (start - 1))]
  | .upper => return [.str ((← a.bytes 0).map Bytes.toUpper)]

end StringFunction

end Tasklang.Lua
