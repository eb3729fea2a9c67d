import Tasklang.Number.Binary64

/-! # Decimal digits of doubles

Two ways to write a positive finite double in digits: the fewest digits that read back as the same
double, and a given number of digits or places with the exact value rounded to the nearest, ties to
even. Everything is exact arithmetic on natural numbers.
-/

namespace Tasklang.Number

/-- A positive decimal: `digits · 10 ^ exponent`. -/
structure Decimal where
  digits : Nat
  exponent : Int
  deriving DecidableEq, Repr

/-- A positive rational number. -/
structure Ratio where
  num : Nat
  den : Nat

namespace Ratio

/-- The ratio times a power of ten. -/
def scale (r : Ratio) : Int → Ratio
  | .ofNat e => ⟨r.num * Nat.pow 10 e, r.den⟩
  | .negSucc e => ⟨r.num, r.den * Nat.pow 10 (e + 1)⟩

/-- `m · 2 ^ e` as a ratio. -/
def ofBinary (m : Nat) : Int → Ratio
  | .ofNat e => ⟨m * Nat.pow 2 e, 1⟩
  | .negSucc e => ⟨m, Nat.pow 2 (e + 1)⟩

/-- The nearest natural number, a tie going to the even one. -/
def round (r : Ratio) : Nat :=
  let q := r.num / r.den
  let twice := 2 * (r.num % r.den)
  if twice < r.den then q
  else if twice > r.den then q + 1
  else if q % 2 = 0 then q else q + 1

/-- Whether the ratio is below one. -/
def belowOne (r : Ratio) : Bool := r.num < r.den

/-- The least `k` with value below `10 ^ k`, searched upward from a lower estimate. -/
def magnitudeFrom (r : Ratio) : Nat → Int → Int
  | 0, k => k
  | n + 1, k => if (r.scale (-k)).belowOne then k else magnitudeFrom r n (k + 1)

/-- The position of the decimal point: the least `k` with value below `10 ^ k`. -/
def magnitude (r : Ratio) : Int :=
  let bits : Int := (Nat.log2 r.num : Int) - (Nat.log2 r.den : Int)
  magnitudeFrom r 8 (Int.fdiv (bits * 30103) 100000 - 2)

end Ratio

/-- The value of a positive finite double. -/
def ratio (x : Float) : Ratio :=
  let p := parts x
  Ratio.ofBinary p.mantissa p.exponent

/-- The decimals that round to one double lie between `low` and `high`; the ends count when
`closed`. -/
structure Interval where
  low : Ratio
  high : Ratio
  closed : Bool

/-- The interval of a positive finite double. Its lower half is narrower above a power of two. -/
def interval (x : Float) : Interval :=
  let p := parts x
  let narrow := p.mantissa = Nat.pow 2 52 ∧ 1 < exponentBits x
  ⟨Ratio.ofBinary (4 * p.mantissa - if narrow then 1 else 2) (p.exponent - 2),
   Ratio.ofBinary (4 * p.mantissa + 2) (p.exponent - 2),
   p.mantissa % 2 = 0⟩

/-- Whether `digits · 10 ^ exponent` lies in an interval. -/
def Interval.contains (i : Interval) (d : Decimal) : Bool :=
  let low := i.low.scale (-d.exponent)
  let high := i.high.scale (-d.exponent)
  if i.closed then low.num ≤ d.digits * low.den && d.digits * high.den ≤ high.num
  else low.num < d.digits * low.den && d.digits * high.den < high.num

/-- A decimal without the zeros at its end. -/
def Decimal.strip (fuel : Nat) (d : Decimal) : Decimal :=
  match fuel with
  | 0 => d
  | n + 1 => if d.digits ≠ 0 ∧ d.digits % 10 = 0 then strip n ⟨d.digits / 10, d.exponent + 1⟩ else d

/-- The candidate with `n` digits: the nearer of the two neighbours on that grid, if it reads
back. -/
def candidate? (value : Ratio) (i : Interval) (point : Int) (n : Nat) : Option Decimal :=
  let e := point - n
  let scaled := value.scale (-e)
  let below := scaled.num / scaled.den
  let nearest := scaled.round
  let other := if nearest = below then below + 1 else below
  if i.contains ⟨nearest, e⟩ then some ⟨nearest, e⟩
  else if i.contains ⟨other, e⟩ then some ⟨other, e⟩
  else none

/-- The fewest digits that read back as a positive finite double. -/
def shortest (x : Float) : Decimal :=
  let value := ratio x
  let i := interval x
  let point := value.magnitude
  let rec search : Nat → Nat → Decimal
    | 0, n => ⟨(value.scale (n - point)).round, point - n⟩
    | fuel + 1, n => (candidate? value i point n).getD (search fuel (n + 1))
  (search 17 1).strip 20

/-- A positive finite double rounded to `n` significant digits; the result has exactly `n`. -/
def roundDigits (x : Float) (n : Nat) : Decimal :=
  let value := ratio x
  let point := value.magnitude
  let digits := (value.scale (n - point)).round
  if digits = Nat.pow 10 n then ⟨Nat.pow 10 (n - 1), point - n + 1⟩ else ⟨digits, point - n⟩

/-- A nonnegative finite double in units of `10 ^ (-places)`, rounded to the nearest. -/
def roundPlaces (x : Float) (places : Nat) : Nat := ((ratio x).scale places).round

/-- The digits of a natural number, most significant first. -/
def digitChars (n : Nat) : List Char := Nat.toDigits 10 n

/-- Pad with zeros on the left. -/
def padZeros (width : Nat) (cs : List Char) : List Char :=
  List.replicate (width - cs.length) '0' ++ cs

/-- A nonnegative count of `10 ^ (-places)` in positional notation. -/
def positional (units : Nat) (places : Nat) : List Char :=
  let cs := padZeros (places + 1) (digitChars units)
  if places = 0 then cs
  else cs.take (cs.length - places) ++ '.' :: cs.drop (cs.length - places)

/-- Digits with a point after the first one. -/
def pointed : List Char → List Char
  | [] => []
  | [c] => [c]
  | c :: cs => c :: '.' :: cs

end Tasklang.Number
