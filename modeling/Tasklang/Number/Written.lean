import Tasklang.Number.Decimal

/-! # Written numbers

How doubles are written: in data, with the fewest digits that read back; in expressions, with at
most fourteen significant digits; and in the three layouts that a format directive can ask for.
-/

namespace Tasklang.Number

/-- An exponent with its sign, at least `width` digits long. -/
def exponentText (e : Int) (width : Nat) : List Char :=
  (if e < 0 then '-' else '+') :: padZeros width (digitChars e.natAbs)

/-- A finite double in data: the fewest digits that read back, positional from `1e-5` up to below
`1e16` and then with a fraction, otherwise with a signed exponent. -/
def dataChars (x : Float) : List Char :=
  let sign := if isNegative x then ['-'] else []
  if x == 0.0 then sign ++ ['0', '.', '0']
  else
    let d := shortest x
    let digits := digitChars d.digits
    let point := d.exponent + digits.length
    let body :=
      if 0 ≤ d.exponent ∧ point ≤ 16 then
        digits ++ List.replicate d.exponent.toNat '0' ++ ['.', '0']
      else if 0 < point ∧ point ≤ 16 then
        digits.take point.toNat ++ '.' :: digits.drop point.toNat
      else if -5 < point ∧ point ≤ 0 then
        '0' :: '.' :: List.replicate (-point).toNat '0' ++ digits
      else pointed digits ++ 'e' :: exponentText (point - 1) 1
    sign ++ body

/-- Drop the zeros that end a fraction, and the point when no digit follows it. -/
def stripFraction (cs : List Char) : List Char :=
  if cs.contains '.' then
    let r := cs.reverse.dropWhile (· == '0')
    (r.dropWhile (· == '.')).reverse
  else cs

/-- What is written for a double without digits. -/
def specialChars (x : Float) : List Char :=
  if isNaN x then ['-', 'n', 'a', 'n']
  else if isNegative x then ['-', 'i', 'n', 'f'] else ['i', 'n', 'f']

/-- A finite double with a fixed number of places. -/
def fixedChars (x : Float) (places : Nat) : List Char :=
  if isNegative x then '-' :: positional (roundPlaces x places) places
  else positional (roundPlaces x places) places

/-- A finite double with one digit before the point, `places` after it, and an exponent. -/
def exponentChars (x : Float) (places : Nat) : List Char :=
  let sign := if isNegative x then ['-'] else []
  if x == 0.0 then
    sign ++ pointed (List.replicate (places + 1) '0') ++ 'e' :: exponentText 0 2
  else
    let d := roundDigits x (places + 1)
    sign ++ pointed (digitChars d.digits) ++ 'e' :: exponentText (d.exponent + places) 2

/-- A finite double with at most `precision` significant digits: positional unless the exponent
is below -4 or not below the precision; zeros at the end go unless `keepZeros`. -/
def generalChars (x : Float) (precision : Nat) (keepZeros : Bool) : List Char :=
  let p := max precision 1
  let cut := if keepZeros then id else stripFraction
  if x == 0.0 then
    (if isNegative x then ['-'] else []) ++ cut (positional 0 (p - 1))
  else
    let d := roundDigits x p
    let e := d.exponent + p - 1
    if e < -4 ∨ (p : Int) ≤ e then
      (if isNegative x then ['-'] else []) ++ cut (pointed (digitChars d.digits))
        ++ 'e' :: exponentText e 2
    else cut (fixedChars x (p - 1 - e).toNat)

/-- A double in expressions: at most fourteen significant digits, and a fraction so that it reads
back as a double. -/
def expressionChars (x : Float) : List Char :=
  if isFinite x then
    let cs := generalChars x 14 false
    if cs.all (fun c => c.isDigit || c == '-') then cs ++ ['.', '0'] else cs
  else specialChars x

/-- An integer in base ten. -/
def integerChars (n : Int) : List Char :=
  if n < 0 then '-' :: digitChars n.natAbs else digitChars n.natAbs

end Tasklang.Number
