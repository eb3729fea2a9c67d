import Tasklang.Number.Binary64

/-! # Doubles with signed NaNs

A NaN has a sign, which is shown where it is written: an operation that has no value gives a
negative one, any other operation keeps the sign of the first operand that is a NaN. So a double is
held by its bits.
-/

namespace Tasklang

/-- A double, held by its bits. -/
structure Double where
  bits : UInt64
  deriving DecidableEq, Repr, Inhabited

namespace Double

/-- The bit that holds the sign. -/
def signBit : UInt64 := 0x8000000000000000

/-- What an operation without a value gives. -/
def invalid : Double := ⟨0xFFF8000000000000⟩

/-- The double of the same value. -/
def ofFloat (x : Float) : Double := if Number.isNaN x then invalid else ⟨x.toBits⟩

/-- The value of a double, in which a NaN has no sign. -/
def toFloat (x : Double) : Float := Float.ofBits x.bits

/-- Whether a double is a NaN. -/
def isNaN (x : Double) : Bool := 0x7FF0000000000000 < (x.bits &&& ~~~signBit)

/-- Whether the sign of a double is set. -/
def isNegative (x : Double) : Bool := x.bits &&& signBit != 0

/-- Whether a double is neither an infinity nor a NaN. -/
def isFinite (x : Double) : Bool := (x.bits &&& ~~~signBit) < 0x7FF0000000000000

/-- The double with the other sign. -/
def neg (x : Double) : Double := ⟨x.bits ^^^ signBit⟩

/-- The double without its sign. -/
def abs (x : Double) : Double := ⟨x.bits &&& ~~~signBit⟩

/-- The result of an operation on one double. -/
def map (f : Float → Float) (x : Double) : Double :=
  if x.isNaN then x else ofFloat (f x.toFloat)

/-- The result of an operation on two doubles. -/
def combine (f : Float → Float → Float) (x y : Double) : Double :=
  if x.isNaN then x else if y.isNaN then y else ofFloat (f x.toFloat y.toFloat)

/-- A power: anything to the power of zero is one, and so is any power of one. -/
def pow (x y : Double) : Double :=
  if y.toFloat == 0.0 || x.toFloat == 1.0 then ofFloat 1.0
  else combine (fun a b => if b == 2.0 then a * a else Float.pow a b) x y

/-- The remainder of a division with the sign of the divisor. -/
def mod (x y : Double) : Double :=
  combine (fun a b =>
    let r := Number.remainder a b
    if (if r > 0.0 then b < 0.0 else r < 0.0 ∧ !(b == r) ∧ b > 0.0) then r + b else r) x y

/-- The greatest integral double not above a double. -/
def floor (x : Double) : Double := x.map Number.floorFloat

/-- The least integral double not below a double. -/
def ceil (x : Double) : Double := x.map Number.ceilFloat

/-- The integer that a double equals, if it equals one that fits. -/
def toInt? (x : Double) : Option Int64 :=
  match Number.toInt? x.toFloat with
  | some n => if -(Nat.pow 2 63 : Int) ≤ n ∧ n < Nat.pow 2 63 then some (Int64.ofInt n) else none
  | none => none

/-- What is written for a double that is not finite. -/
def specialChars (x : Double) : List Char :=
  (if x.isNegative then ['-'] else []) ++ (if x.isNaN then ['n', 'a', 'n'] else ['i', 'n', 'f'])

end Double

end Tasklang
