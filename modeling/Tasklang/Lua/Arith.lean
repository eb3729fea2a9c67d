import Tasklang.Lua.Value

/-! # Lua arithmetic

Operations on numbers. Integer arithmetic wraps around; division rounds toward minus infinity; an
integer and a double are compared by their exact values.
-/

namespace Tasklang.Lua

namespace Number

/-- Arithmetic on doubles. -/
def doubleArith (op : BinaryOp) (x y : Double) : Double :=
  match op with
  | .add => x.combine (· + ·) y
  | .sub => x.combine (· - ·) y
  | .mul => x.combine (· * ·) y
  | .div => x.combine (· / ·) y
  | .mod => x.mod y
  | .pow => x.pow y
  | .idiv => (x.combine (· / ·) y).floor
  | _ => x

/-- Arithmetic on numbers. Division with `/` and powers are always done in doubles. -/
def arith (op : BinaryOp) (a b : Number) : Except String Number :=
  match op, a, b with
  | .div, a, b => .ok (.float (doubleArith .div a.toDouble b.toDouble))
  | .pow, a, b => .ok (.float (doubleArith .pow a.toDouble b.toDouble))
  | .add, .int x, .int y => .ok (.int (x + y))
  | .sub, .int x, .int y => .ok (.int (x - y))
  | .mul, .int x, .int y => .ok (.int (x * y))
  | .idiv, .int x, .int y =>
    if y = 0 then .error "attempt to perform 'n//0'"
    else .ok (.int (Int64.ofInt (Int.fdiv x.toInt y.toInt)))
  | .mod, .int x, .int y =>
    if y = 0 then .error "attempt to perform 'n%%0'"
    else .ok (.int (Int64.ofInt (Int.fmod x.toInt y.toInt)))
  | op, a, b => .ok (.float (doubleArith op a.toDouble b.toDouble))

/-- The bits of an integer moved left; a negative count moves them right. Zeros come in. -/
def shiftLeft (x : Int64) (count : Int) : Int64 :=
  if count ≤ -64 ∨ 64 ≤ count then 0
  else if 0 ≤ count then Int64.ofNat (x.toUInt64.toNat * Nat.pow 2 count.toNat)
  else Int64.ofNat (x.toUInt64.toNat / Nat.pow 2 (-count).toNat)

/-- Operations on the bits of integers. -/
def bitwise (op : BinaryOp) (x y : Int64) : Int64 :=
  match op with
  | .band => x &&& y
  | .bor => x ||| y
  | .bxor => x ^^^ y
  | .shl => shiftLeft x y.toInt
  | .shr => shiftLeft x (-y.toInt)
  | _ => x

/-- Whether one number is less than another. -/
def lt (a b : Number) : Bool :=
  match a, b with
  | .int x, .int y => x < y
  | .float x, .float y => x.toFloat < y.toFloat
  | .int x, .float y =>
    if y.isFinite then x.toInt < Tasklang.Number.ceil y.toFloat else y.toFloat > 0.0
  | .float x, .int y =>
    if x.isFinite then Tasklang.Number.floor x.toFloat < y.toInt else x.toFloat < 0.0

/-- Whether one number is at most another. -/
def le (a b : Number) : Bool :=
  match a, b with
  | .int x, .int y => x ≤ y
  | .float x, .float y => x.toFloat ≤ y.toFloat
  | .int x, .float y =>
    if y.isFinite then x.toInt ≤ Tasklang.Number.floor y.toFloat else y.toFloat > 0.0
  | .float x, .int y =>
    if x.isFinite then Tasklang.Number.ceil x.toFloat ≤ y.toInt else x.toFloat < 0.0

end Number

/-- Whether an operator works on the bits of integers. -/
def BinaryOp.isBitwise : BinaryOp → Bool
  | .band | .bor | .bxor | .shl | .shr => true
  | _ => false

/-- The name of the metamethod of an operator. -/
def BinaryOp.event : BinaryOp → String
  | .add => "__add" | .sub => "__sub" | .mul => "__mul" | .div => "__div" | .mod => "__mod"
  | .pow => "__pow" | .idiv => "__idiv" | .band => "__band" | .bor => "__bor" | .bxor => "__bxor"
  | .shl => "__shl" | .shr => "__shr" | .concat => "__concat" | .eq => "__eq" | .ne => "__eq"
  | .lt => "__lt" | .gt => "__lt" | .le => "__le" | .ge => "__le"

/-- The operator that arithmetic on strings stands for, if it has two operands. -/
def StringOperator.binary? : StringOperator → Option BinaryOp
  | .add => some .add | .sub => some .sub | .mul => some .mul | .mod => some .mod
  | .pow => some .pow | .div => some .div | .idiv => some .idiv | .unm => none

/-- The name of the metamethod of arithmetic on strings. -/
def StringOperator.event (op : StringOperator) : String :=
  (op.binary?.map BinaryOp.event).getD "__unm"

end Tasklang.Lua
