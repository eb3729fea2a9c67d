import Tasklang.Number.Double
import Tasklang.Number.Written
import Tasklang.Text.Bytes

/-! # Directives

The directives of format strings: flags, a width, a precision, and a letter that says how an
argument is written. Here is what they write for integers and doubles; which directives there are
is up to those who read format strings.
-/

namespace Tasklang

/-- A directive of a format string. -/
structure Directive where
  flags : List Char
  width : Nat
  precision : Option Nat
  conversion : Char
  deriving DecidableEq, Repr

namespace Directive

/-- Whether a flag is set. -/
def has (d : Directive) (flag : Char) : Bool := d.flags.contains flag

/-- Bring a text to the width of a directive with blanks. -/
def pad (d : Directive) (bs : Bytes) : Bytes :=
  let blanks := List.replicate (d.width - bs.length) 0x20
  if d.has '-' then bs ++ blanks else blanks ++ bs

/-- Bring a number to the width of a directive: its sign or mark, then its digits. Zeros fill the
space between them when `zeros`. -/
def padNumber (d : Directive) (zeros : Bool) (mark digits : List Char) : Bytes :=
  let missing := d.width - (mark.length + digits.length)
  if zeros && d.has '0' && !d.has '-' then
    Bytes.ofChars (mark ++ List.replicate missing '0' ++ digits)
  else d.pad (Bytes.ofChars (mark ++ digits))

/-- The sign of a number. -/
def sign (d : Directive) (negative : Bool) : List Char :=
  if negative then ['-'] else if d.has '+' then ['+'] else if d.has ' ' then [' '] else []

/-- The digits of a natural number with at least as many as the precision says. -/
def digits (d : Directive) (base n : Nat) : List Char :=
  match d.precision with
  | none => Nat.toDigits base n
  | some p => if p = 0 ∧ n = 0 then [] else Number.padZeros p (Nat.toDigits base n)

/-- An integer. -/
def integer (d : Directive) (n : Int64) : Bytes :=
  let zeros := d.precision.isNone
  let unsigned := n.toUInt64.toNat
  match d.conversion with
  | 'o' =>
    let cs := d.digits 8 unsigned
    d.padNumber zeros [] (if d.has '#' && cs.head? != some '0' then '0' :: cs else cs)
  | 'x' => d.padNumber zeros (if d.has '#' && n != 0 then ['0', 'x'] else []) (d.digits 16 unsigned)
  | 'X' =>
    d.padNumber zeros (if d.has '#' && n != 0 then ['0', 'X'] else [])
      ((d.digits 16 unsigned).map Char.toUpper)
  | 'u' => d.padNumber zeros [] (d.digits 10 unsigned)
  | _ => d.padNumber zeros (d.sign (n.toInt < 0)) (d.digits 10 n.toInt.natAbs)

/-- A mantissa in units of `16 ^ (-places)` with a point, at most `keep` places if given. -/
def hexFraction (whole fraction : Nat) (keep : Option Nat) : List Char :=
  let (whole, cs) := match keep with
    | none =>
      (whole, ((Number.padZeros 13 (Nat.toDigits 16 fraction)).reverse.dropWhile
        (· == '0')).reverse)
    | some k =>
      if 13 ≤ k then
        (whole, Number.padZeros 13 (Nat.toDigits 16 fraction) ++ List.replicate (k - 13) '0')
      else
        let rounded := (Number.Ratio.mk (whole * Nat.pow 16 13 + fraction) (Nat.pow 16 (13 - k))).round
        (rounded / Nat.pow 16 k, if k = 0 then [] else Number.padZeros k (Nat.toDigits 16 (rounded % Nat.pow 16 k)))
  Nat.toDigits 16 whole ++ (if cs.isEmpty then [] else '.' :: cs)

/-- A finite nonnegative double in base sixteen. -/
def hexFloat (x : Float) (keep : Option Nat) : List Char :=
  let e := Number.exponentBits x
  let f := Number.fractionBits x
  let exponent (n : Int) : List Char :=
    'p' :: (if n < 0 then '-' else '+') :: Number.digitChars n.natAbs
  ['0', 'x'] ++
    if e = 0 ∧ f = 0 then hexFraction 0 0 keep ++ exponent 0
    else if e = 0 then hexFraction 0 f keep ++ exponent (-1022)
    else hexFraction 1 f keep ++ exponent ((e : Int) - 1023)

/-- Add a point that a directive with the mark `#` asks for, in front of the exponent. -/
def withPoint (cs : List Char) : List Char :=
  let isExponent (c : Char) : Bool := c == (if cs.contains 'p' then 'p' else 'e')
  if cs.contains '.' then cs
  else cs.takeWhile (!isExponent ·) ++ '.' :: cs.dropWhile (!isExponent ·)

/-- A double. -/
def double (d : Directive) (x : Double) : Bytes :=
  let upper (cs : List Char) : List Char :=
    if d.conversion.isUpper then cs.map Char.toUpper else cs
  let mark := d.sign x.isNegative
  if x.isFinite then
    let magnitude := x.abs.toFloat
    let places := d.precision.getD 6
    let point (cs : List Char) : List Char := if d.has '#' then withPoint cs else cs
    match d.conversion with
    | 'f' | 'F' => d.padNumber true mark (point (Number.fixedChars magnitude places))
    | 'e' | 'E' => d.padNumber true mark (upper (point (Number.exponentChars magnitude places)))
    | 'g' | 'G' =>
      d.padNumber true mark (upper (point (Number.generalChars magnitude places (d.has '#'))))
    | _ =>
      let cs := point (hexFloat magnitude d.precision)
      d.padNumber true (mark ++ upper (cs.take 2)) (upper (cs.drop 2))
  else d.padNumber false mark (upper x.abs.specialChars)

end Directive

end Tasklang
