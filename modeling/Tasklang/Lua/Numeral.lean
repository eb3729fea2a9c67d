import Tasklang.Number.Double
import Tasklang.Number.Written
import Tasklang.Text.Bytes

/-! # Lua numerals

Numbers in source text and in strings. A decimal numeral without point and exponent is an integer
while it fits, a hexadecimal one wraps around; everything else is a double. Blanks around a numeral
in a string are skipped.
-/

namespace Tasklang.Lua

/-- A number: integers and doubles are kept apart. -/
inductive Number where
  | int (n : Int64)
  | float (x : Double)
  deriving DecidableEq, Repr

namespace Number

/-- A double in expressions. -/
def doubleChars (x : Double) : List Char :=
  if x.isFinite then Tasklang.Number.expressionChars x.toFloat else x.specialChars

/-- The bytes of a number in an expression. -/
def display : Number → Bytes
  | .int n => Bytes.ofChars (Tasklang.Number.integerChars n.toInt)
  | .float x => Bytes.ofChars (doubleChars x)

/-- The number as a double. -/
def toDouble : Number → Double
  | .int n => .ofFloat (Float.ofInt n.toInt)
  | .float x => x

/-- The number as an integer, if it equals one. -/
def toInt? : Number → Option Int64
  | .int n => some n
  | .float x => x.toInt?

/-- The opposite number. -/
def negate : Number → Number
  | .int n => .int (-n)
  | .float x => .float x.neg

end Number

namespace Numeral

/-- The digits at the start, and the rest. -/
def spanDigits (bs : Bytes) : Bytes × Bytes := (bs.takeWhile Bytes.isDigit, bs.dropWhile Bytes.isDigit)

/-- The number that decimal digits form. -/
def decimalValue (ds : Bytes) : Nat := ds.foldl (fun acc d => acc * 10 + (d.toNat - 48)) 0

/-- Whether a byte is a hexadecimal digit. -/
def isHexDigit (b : UInt8) : Bool := (Bytes.hexValue? b).isSome

/-- The number that hexadecimal digits form. -/
def hexValue (ds : Bytes) : Nat := ds.foldl (fun acc d => acc * 16 + (Bytes.hexValue? d).getD 0) 0

/-- A signed exponent after its letter: the value and the rest, if a digit is there. -/
def exponent? (bs : Bytes) : Option (Int × Bytes) :=
  let (down, bs) := match bs with
    | 0x2B :: r => (false, r)
    | 0x2D :: r => (true, r)
    | r => (false, r)
  let (ds, rest) := spanDigits bs
  if ds.isEmpty then none
  else
    let k : Nat := ds.foldl (fun acc d => min (acc * 10 + (d.toNat - 48)) 1000000) 0
    some (if down then -(k : Int) else k, rest)

/-- A decimal numeral without sign that takes the whole input. -/
def decimal? (bs : Bytes) : Option Number :=
  let (whole, rest) := spanDigits bs
  let (fraction, rest, pointed) := match rest with
    | 0x2E :: r => let (f, r) := spanDigits r; (f, r, true)
    | r => ([], r, false)
  if whole.isEmpty && fraction.isEmpty then none
  else
    let digits := decimalValue (whole ++ fraction)
    let float (e : Int) : Number :=
      .float (.ofFloat (Tasklang.Number.ofDecimal digits (e - fraction.length)))
    match rest with
    | [] =>
      if !pointed && digits < Nat.pow 2 63 then some (.int (Int64.ofNat digits)) else some (float 0)
    | b :: r =>
      if b = 0x65 ∨ b = 0x45 then
        match exponent? r with
        | some (e, []) => some (float e)
        | _ => none
      else none

/-- A hexadecimal numeral after its mark that takes the whole input. -/
def hexadecimal? (bs : Bytes) : Option Number :=
  let whole := bs.takeWhile isHexDigit
  let rest := bs.dropWhile isHexDigit
  let (fraction, rest, pointed) := match rest with
    | 0x2E :: r => (r.takeWhile isHexDigit, r.dropWhile isHexDigit, true)
    | r => ([], r, false)
  if whole.isEmpty && fraction.isEmpty then none
  else
    let digits := hexValue (whole ++ fraction)
    let float (e : Int) : Number :=
      .float (.ofFloat (Tasklang.Number.ofBinary digits (e - 4 * fraction.length)))
    match rest with
    | [] => if pointed then some (float 0) else some (.int (Int64.ofNat digits))
    | b :: r =>
      if b = 0x70 ∨ b = 0x50 then
        match exponent? r with
        | some (e, []) => some (float e)
        | _ => none
      else none

/-- A numeral without sign that takes the whole input. -/
def unsigned? : Bytes → Option Number
  | 0x30 :: 0x78 :: bs => hexadecimal? bs
  | 0x30 :: 0x58 :: bs => hexadecimal? bs
  | bs => decimal? bs

/-- Drop the blanks at both ends. -/
def trim (bs : Bytes) : Bytes :=
  ((bs.dropWhile Bytes.isSpace).reverse.dropWhile Bytes.isSpace).reverse

/-- The number that a string denotes, if it denotes one. The least integer is read as an
integer although its digits alone do not fit. -/
def ofBytes? (bs : Bytes) : Option Number :=
  match trim bs with
  | 0x2D :: r =>
    if r.all Bytes.isDigit && !r.isEmpty && decimalValue r == Nat.pow 2 63 then
      some (.int Int64.minValue)
    else (unsigned? r).map Number.negate
  | 0x2B :: r => unsigned? r
  | r => unsigned? r

end Numeral

end Tasklang.Lua
