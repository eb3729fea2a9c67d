import Tasklang.Lua.Library.Arguments
import Tasklang.Lua.Token

/-! # Functions on encoded text

Functions on strings that hold UTF-8: building them from code points, counting and walking their
characters, and finding positions.
-/

namespace Tasklang.Lua

open Code

namespace Utf8Function

/-- The name of a function. -/
def name : Utf8Function → String
  | .char => "char" | .codepoint => "codepoint" | .codes => "codes" | .codesStep => "codes step"
  | .len => "len" | .offset => "offset"

/-- Whether a byte continues a character. -/
def continues (b : UInt8) : Bool := b &&& 0xC0 == 0x80

/-- How many continuation bytes follow a lead byte, with the bits of the code point it holds and
the least code point that needs so many. -/
def lead (b : UInt8) : Option (Nat × Nat × Nat) :=
  let n := b.toNat
  if n < 0x80 then some (0, n, 0)
  else if n < 0xC0 then none
  else if n < 0xE0 then some (1, n - 0xC0, 0x80)
  else if n < 0xF0 then some (2, n - 0xE0, 0x800)
  else if n < 0xF8 then some (3, n - 0xF0, 0x10000)
  else if n < 0xFC then some (4, n - 0xF8, 0x200000)
  else if n < 0xFE then some (5, n - 0xFC, 0x4000000)
  else none

/-- The code point at the start of a string and how many bytes it takes. Surrogates and code
points above the last one count only when `lax`. -/
def decode (lax : Bool) (bs : Bytes) : Option (Nat × Nat) :=
  match bs with
  | [] => none
  | b :: r => do
    let (count, bits, least) ← lead b
    let tail := r.take count
    if tail.length < count ∨ !tail.all continues then none
    let code := tail.foldl (fun n c => n * 64 + c.toNat % 64) bits
    if code < least then none
    if !lax ∧ (0x10FFFF < code ∨ (0xD800 ≤ code ∧ code ≤ 0xDFFF)) then none
    return (code, count + 1)

/-- The error of a string that is not well-formed. -/
def invalid {α : Type} (a : Arguments) : Code Value α := a.raise "invalid UTF-8 code"

/-- How many characters start from position `i` up to position `stop`, or where the first malformed
one is. -/
def count (lax : Bool) : Nat → Bytes → Nat → Nat → Nat → Nat ⊕ Nat
  | 0, _, _, _, n => .inl n
  | fuel + 1, bs, i, stop, n =>
    if stop < i then .inl n
    else match decode lax bs with
      | none => .inr i
      | some (_, size) => count lax fuel (bs.drop size) (i + size) stop (n + 1)

/-- The code points from position `i` up to position `stop`. -/
def codePoints (lax : Bool) : Nat → Bytes → Nat → Nat → Option (List Nat)
  | 0, _, _, _ => some []
  | fuel + 1, bs, i, stop =>
    if stop < i then some []
    else do
      let (code, size) ← decode lax bs
      return code :: (← codePoints lax fuel (bs.drop size) (i + size) stop)

/-- Go back from a place to where its character starts. -/
def back (s : Array UInt8) : Nat → Nat
  | 0 => 0
  | i + 1 => if (s.getD (i + 1) 0) |> continues then back s i else i + 1

/-- Go forward over continuation bytes. -/
def forward (s : Array UInt8) : Nat → Nat → Nat
  | 0, i => i
  | n + 1, i => if continues (s.getD i 0) then forward s n (i + 1) else i

/-- Go `n` characters back, if there are so many. -/
def stepsBack (s : Array UInt8) : Nat → Nat → Option Nat
  | 0, i => some i
  | n + 1, i => if i = 0 then none else stepsBack s n (back s (i - 1))

/-- Go `n` characters forward, if there are so many. -/
def stepsForward (s : Array UInt8) : Nat → Nat → Option Nat
  | 0, i => some i
  | n + 1, i =>
    if i < s.size then stepsForward s n (forward s s.size (i + 1)) else none

/-- Where the `n`-th character counted from a position starts. -/
def offsetOf (a : Arguments) : Code Value (List Value) := do
  let s := (← a.bytes 0).toArray
  let n ← a.int 1
  let i := fromEnd (← a.intOr 2 (if 0 < n then 1 else s.size + 1)) s.size - 1
  if i < 0 ∨ s.size < i.toNat then a.refuse 2 "position out of bounds"
  let i := i.toNat
  if n = 0 then return [intValue (back s i + 1)]
  if continues (s.getD i 0) then a.raise "initial position is a continuation byte"
  let found := if n < 0 then stepsBack s (-n).toNat i else stepsForward s (n - 1).toNat i
  match found with
  | some i => return [intValue (i + 1)]
  | none => return [.nil]

/-- The results of a call to a function on encoded text. -/
def apply (f : Utf8Function) (caller : Caller) (values : List Value) : Code Value (List Value) := do
  let a : Arguments := ⟨"utf8." ++ f.name, values, caller⟩
  match f with
  | .char =>
    let pieces ← (List.range values.length).mapM fun i => do
      let n ← a.int i
      if 0 ≤ n ∧ n < Nat.pow 2 31 then return Token.encodeCode n.toNat
      else a.refuse i "value out of range"
    return [.str pieces.flatten]
  | .codepoint =>
    let s ← a.bytes 0
    let i := fromEnd (← a.intOr 1 1) s.length
    let j := fromEnd (← a.intOr 2 i) s.length
    if i < 1 then a.refuse 1 "out of bounds"
    if s.length < j then a.refuse 2 "out of bounds"
    let start := i.toNat
    match codePoints (a.value 3).truthy (s.length + 1) (s.drop (start - 1)) start j.toNat with
    | some found => return found.map intValue
    | none => invalid a
  | .codes => return [.function (.utf8 .codesStep), .str (← a.bytes 0), intValue 0]
  | .codesStep =>
    let s ← a.bytes 0
    let n := (← a.int 1).toNat
    let i := if n = 0 then 0 else forward s.toArray s.length n
    if s.length ≤ i then return []
    match decode false (s.drop i) with
    | some (code, size) =>
      if (s.drop (i + size)).head?.any continues then invalid a
      else return [intValue (i + 1), intValue code]
    | none => invalid a
  | .len =>
    let s ← a.bytes 0
    let i := fromEnd (← a.intOr 1 1) s.length
    let j := fromEnd (← a.intOr 2 (-1)) s.length
    if i < 1 ∨ s.length + 1 < i then a.refuse 1 "initial position out of bounds"
    if s.length < j then a.refuse 2 "final position out of bounds"
    let start := i.toNat
    match count (a.value 3).truthy (s.length + 1) (s.drop (start - 1)) start j.toNat 0 with
    | .inl n => return [intValue n]
    | .inr at_ => return [.nil, intValue at_]
  | .offset => offsetOf a

end Utf8Function

end Tasklang.Lua
