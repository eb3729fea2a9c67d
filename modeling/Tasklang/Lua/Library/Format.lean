import Tasklang.Lua.Library.Arguments
import Tasklang.Number.Directive

/-! # Formatting

The directives of `string.format`: flags, a width and a precision of at most two digits, and a
letter that says how an argument is written.
-/

namespace Tasklang.Lua

open Code

namespace FormatString

/-- At most two digits, as a number, and the rest. -/
def readDigits (cs : List Char) : List Char × List Char :=
  let digits := (cs.takeWhile Char.isDigit).take 2
  (digits, cs.drop digits.length)

/-- The number that digits form. -/
def value (digits : List Char) : Nat := digits.foldl (fun n c => n * 10 + (c.toNat - 48)) 0

/-- The flags that a conversion allows, and whether it allows a precision. -/
def allowed? : Char → Option (List Char × Bool)
  | 'c' => some (['-'], false)
  | 'd' | 'i' => some (['-', '+', '0', ' '], true)
  | 'u' => some (['-', '0'], true)
  | 'o' | 'x' | 'X' => some (['-', '#', '0'], true)
  | 'a' | 'A' | 'e' | 'E' | 'f' | 'g' | 'G' => some (['-', '+', ' ', '#', '0'], true)
  | 'p' => some (['-'], false)
  | 's' => some (['-'], true)
  | 'q' => some ([], false)
  | _ => none

/-- A directive after its percent sign, with what follows it. -/
def read (cs : List Char) : Except String (Directive × List Char) :=
  let spec := cs.takeWhile fun c => "-+ #0123456789.".toList.contains c
  match cs.drop spec.length with
  | [] => .error "invalid conversion to 'format'"
  | conversion :: rest =>
    match allowed? conversion with
    | none => .error "invalid conversion to 'format'"
    | some (flags, precise) =>
      if 22 ≤ spec.length + 1 then .error "invalid format string to 'format'"
      else
        let given := spec.takeWhile flags.contains
        let measures := spec.drop given.length
        let (width, after) := if measures.head? = some '0' then ([], measures) else readDigits measures
        match after with
        | [] => .ok (⟨given, value width, none, conversion⟩, rest)
        | '.' :: after =>
          let (places, after) := readDigits after
          if precise && after.isEmpty then
            .ok (⟨given, value width, some (value places), conversion⟩, rest)
          else .error "invalid conversion to 'format'"
        | _ => .error "invalid conversion to 'format'"

/-- One byte of a string inside a literal that reads back, before a byte that may be a digit. -/
def literalByte (b : UInt8) (next : Option UInt8) : Bytes :=
  if b = 0x22 ∨ b = 0x5C ∨ b = 0x0A then [0x5C, b]
  else if b < 0x20 ∨ b = 0x7F then
    let cs := Number.digitChars b.toNat
    0x5C :: Bytes.ofChars (if next.any Bytes.isDigit then Number.padZeros 3 cs else cs)
  else [b]

/-- The inside of a string literal that reads back. -/
def literalInside : Bytes → Bytes
  | [] => []
  | b :: bs => literalByte b bs.head? ++ literalInside bs

/-- A value as a literal that reads back. -/
def literal (v : Value) : Option Bytes :=
  match v with
  | .str s => some (0x22 :: literalInside s ++ [0x22])
  | .int n =>
    if n = Int64.minValue then some (Bytes.ofString "0x8000000000000000")
    else some (Number.display (.int n))
  | .float x =>
    if x.isNaN then some (Bytes.ofString "(0/0)")
    else if !x.isFinite then
      some (Bytes.ofString (if x.isNegative then "-1e9999" else "1e9999"))
    else
      some (Bytes.ofChars ((if x.isNegative then ['-'] else [])
        ++ Directive.hexFloat x.abs.toFloat none))
  | .nil => some (Bytes.ofString "nil")
  | .bool b => some (Bytes.ofString (if b then "true" else "false"))
  | _ => none

/-- What stands for the identity of a value, given where things lie. -/
def pointer (address : Reference → Nat) (v : Value) : Bytes :=
  match v with
  | .table r => Bytes.ofString (addressText (address (.table r)))
  | .function f => Bytes.ofString (addressText (address f.reference))
  | _ => Bytes.ofString "(null)"

/-- What a directive writes for an argument; `plain` says that nothing stands between its percent
sign and its letter. -/
def write (d : Directive) (plain : Bool) (a : Arguments) (i : Nat) : Code Value Bytes := do
  match d.conversion with
  | 'c' => return d.pad [UInt8.ofInt (← a.int i)]
  | 'd' | 'i' | 'u' | 'o' | 'x' | 'X' => return d.integer (Int64.ofInt (← a.int i))
  | 'a' | 'A' | 'e' | 'E' | 'f' | 'g' | 'G' => return d.double (← a.double i)
  | 'p' => return d.pad (pointer (← get).address (a.value i))
  | 'q' =>
    if !plain then a.raise "specifier '%q' cannot have modifiers" else
    match literal (a.value i) with
    | some bs => return bs
    | none => a.refuse i "value has no literal form"
  | _ =>
    let bs ← toText a.caller (a.value i)
    if plain then return bs
    if bs.contains 0 then a.refuse i "string contains zeros" else
    match d.precision with
    | some p => return d.pad (bs.take p)
    | none => return d.pad bs

end FormatString

/-- Write a format string, taking arguments from position `i` on; `fuel` bounds how many
directives there are. -/
def formatFrom (a : Arguments) : Nat → Nat → Bytes → Code Value Bytes
  | 0, _, _ => return []
  | fuel + 1, i, bs => do
    let text := bs.takeWhile (· != 0x25)
    match bs.drop text.length with
    | [] => return text
    | [_] => a.raise "invalid conversion '%' to 'format'"
    | _ :: 0x25 :: rest => return text ++ 0x25 :: (← formatFrom a fuel i rest)
    | _ :: rest =>
      if a.values.length ≤ i then a.refuse i "no value" else
      let ascii := rest.map fun b => Char.ofNat b.toNat
      match FormatString.read ascii with
      | .error message => a.raise message
      | .ok (d, after) =>
        let length := ascii.length - after.length
        let written ← FormatString.write d (length = 1) a i
        return text ++ written ++ (← formatFrom a fuel (i + 1) (rest.drop length))

end Tasklang.Lua
