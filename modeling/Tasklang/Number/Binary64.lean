/-! # Doubles as exact numbers

A finite double is a sign, a mantissa and a power of two. This module reads those parts off the
stored word, cuts a double to an integer exactly, and rounds a decimal to the nearest double.
-/

namespace Tasklang.Number

/-- A finite double: the value is `mantissa · 2 ^ exponent`, negated when `negative`. -/
structure Parts where
  negative : Bool
  mantissa : Nat
  exponent : Int
  deriving DecidableEq, Repr

/-- The eleven exponent bits of a double. -/
def exponentBits (x : Float) : Nat := (x.toBits >>> 52).toNat % 2048

/-- The fifty-two fraction bits of a double. -/
def fractionBits (x : Float) : Nat := x.toBits.toNat % Nat.pow 2 52

/-- Whether the sign bit of a double is set. -/
def isNegative (x : Float) : Bool := x.toBits >>> 63 == 1

/-- Whether a double is neither an infinity nor a NaN. -/
def isFinite (x : Float) : Bool := exponentBits x != 2047

/-- Whether a double is a NaN. -/
def isNaN (x : Float) : Bool := exponentBits x == 2047 && fractionBits x != 0

/-- The exact parts of a finite double. Subnormal numbers share the least exponent. -/
def parts (x : Float) : Parts :=
  let e := exponentBits x
  if e = 0 then ⟨isNegative x, fractionBits x, -1074⟩
  else ⟨isNegative x, fractionBits x + Nat.pow 2 52, (e : Int) - 1075⟩

/-- The integer part of a finite double, toward zero, and whether nothing was cut off. -/
def truncate (x : Float) : Int × Bool :=
  let p := parts x
  let magnitude : Nat × Bool :=
    match p.exponent with
    | .ofNat e => (p.mantissa * Nat.pow 2 e, true)
    | .negSucc e => (p.mantissa / Nat.pow 2 (e + 1), p.mantissa % Nat.pow 2 (e + 1) == 0)
  (if p.negative then -(magnitude.1 : Int) else magnitude.1, magnitude.2)

/-- The greatest integer not above a finite double. -/
def floor (x : Float) : Int :=
  let (n, exact) := truncate x
  if isNegative x && !exact then n - 1 else n

/-- The least integer not below a finite double. -/
def ceil (x : Float) : Int :=
  let (n, exact) := truncate x
  if !isNegative x && !exact then n + 1 else n

/-- The integer that a double equals, if it equals one. -/
def toInt? (x : Float) : Option Int :=
  if isFinite x then
    let (n, exact) := truncate x
    if exact then some n else none
  else none

/-- The double nearest to `m · 10 ^ e`. Far outside the range of doubles the answer is infinity
or zero, whatever the digits. -/
def ofDecimal (m : Nat) (e : Int) : Float :=
  if m = 0 then 0.0
  else
    let size : Int := (Nat.log2 m * 30103 / 100000 : Nat)
    if size + e > 310 then 1.0 / 0.0
    else if size + e < -345 then 0.0
    else match e with
      | .ofNat k => Float.ofScientific m false k
      | .negSucc k => Float.ofScientific m true (k + 1)

/-- The double nearest to `m · 2 ^ e`: bits below the least place that a double can hold
(fifty-three from the top) are rounded to the nearest even neighbour. -/
def ofBinary (m : Nat) (e : Int) : Float :=
  if m = 0 then 0.0
  else
    let top : Int := (Nat.log2 m : Int) + e
    if top > 1024 then 1.0 / 0.0
    else if top < -1080 then 0.0
    else match e with
      | .ofNat k => Float.ofNat (m * Nat.pow 2 k)
      | .negSucc k =>
        -- m / 2^(k+1) = m · 5^(k+1) / 10^(k+1), exactly
        Float.ofScientific (m * Nat.pow 5 (k + 1)) true (k + 1)

/-- The greatest integral double not above a double. -/
def floorFloat (x : Float) : Float :=
  if !isFinite x || x == 0.0 then x else Float.ofInt (floor x)

/-- The least integral double not below a double. -/
def ceilFloat (x : Float) : Float :=
  if !isFinite x || x == 0.0 then x
  else
    let n := ceil x
    if n = 0 then -0.0 else Float.ofInt n

/-- A mantissa and an exponent brought to a lower exponent. -/
def alignTo (e : Int) (p : Parts) : Nat := p.mantissa * Nat.pow 2 (p.exponent - e).toNat

/-- The exact remainder of a division that cuts toward zero. It has the sign of `x`. -/
def remainder (x y : Float) : Float :=
  if isNaN x || isNaN y || !isFinite x || y == 0.0 then 0.0 / 0.0
  else if !isFinite y || x == 0.0 then x
  else
    let p := parts x
    let q := parts y
    let e := min p.exponent q.exponent
    let r := ofBinary (alignTo e p % alignTo e q) e
    if p.negative then -r else r

end Tasklang.Number
