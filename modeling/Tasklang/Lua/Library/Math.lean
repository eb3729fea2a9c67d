import Tasklang.Lua.Arith
import Tasklang.Lua.Library.Arguments

/-! # Mathematical functions

Functions on numbers. Rounding gives an integer where one fits; an integer argument stays one
where that is exact.
-/

namespace Tasklang.Lua

open Code

namespace MathFunction

/-- The name of a function. -/
def name : MathFunction → String
  | .abs => "abs" | .ceil => "ceil" | .cos => "cos" | .cosh => "cosh" | .deg => "deg"
  | .exp => "exp" | .floor => "floor" | .fmod => "fmod" | .frexp => "frexp" | .ldexp => "ldexp"
  | .log => "log" | .log10 => "log10" | .max => "max" | .min => "min" | .modf => "modf"
  | .pow => "pow" | .rad => "rad" | .sin => "sin" | .sinh => "sinh" | .sqrt => "sqrt"
  | .tan => "tan" | .tanh => "tanh" | .tointeger => "tointeger" | .type => "type" | .ult => "ult"
  | .acos => "acos" | .asin => "asin" | .atan => "atan"

/-- The ratio of a circle to its diameter. -/
def pi : Float := 3.141592653589793

/-- An integral double as an integer where it fits. -/
def integral (x : Double) : Value :=
  match x.toInt? with
  | some n => .int n
  | none => .float x

/-- The one of some values than which no later one is better. -/
def extreme (a : Arguments) (better : Value → Value → Code Value Bool) :
    Code Value (List Value) := do
  match a.values with
  | [] => a.refuse 0 "value expected"
  | start :: rest =>
    let best ← rest.foldlM (fun best v => do return if ← better v best then v else best) start
    return [best]

/-- The remainder of a division that rounds toward zero. -/
def remainder (a : Arguments) : Code Value (List Value) := do
  match a.value 0, a.value 1 with
  | .int m, .int d =>
    if d = 0 then a.refuse 1 "zero"
    return [.int (Int64.ofInt (Int.tmod m.toInt d.toInt))]
  | _, _ => do
    let x ← a.double 0
    return [.float (x.combine Tasklang.Number.remainder (← a.double 1))]

/-- A double cut toward zero. -/
def cut (x : Float) : Float :=
  if x < 0.0 then Tasklang.Number.ceilFloat x else Tasklang.Number.floorFloat x

/-- The result of a function on one double. -/
def onDouble (a : Arguments) (f : Float → Float) : Code Value (List Value) := do
  return [.float ((← a.double 0).map f)]

/-- The result of a function that has no value outside a domain: there it gives a NaN without a
sign. -/
def within (a : Arguments) (domain : Float → Bool) (f : Float → Float) :
    Code Value (List Value) := do
  let x ← a.double 0
  if !x.isNaN && !domain x.toFloat then return [.float Double.invalid.abs]
  return [.float (x.map f)]

/-- The logarithm of a number, natural or of a base. -/
def logarithm (a : Arguments) : Code Value (List Value) := do
  if a.isAbsent 1 then onDouble a Float.log
  else
    let x ← a.double 0
    let base ← a.double 1
    if base.toFloat == 2.0 then return [.float (x.map Float.log2)]
    else if base.toFloat == 10.0 then within a (fun x => !(x < 0.0)) Float.log10
    else return [.float ((x.map Float.log).combine (· / ·) (base.map Float.log))]

/-- The whole part and the fraction of a number. An integer stays one. -/
def parts (a : Arguments) : Code Value (List Value) := do
  match a.value 0 with
  | .int n => return [.int n, .float (.ofFloat 0.0)]
  | _ =>
    let x ← a.double 0
    let whole := x.map cut
    let fraction := if x.toFloat == whole.toFloat then .ofFloat 0.0 else x.combine (· - ·) whole
    return [.float whole, .float fraction]

/-- The results of a call to a mathematical function. -/
def apply (f : MathFunction) (caller : Caller) (values : List Value) : Code Value (List Value) := do
  let a : Arguments := ⟨"math." ++ f.name, values, caller⟩
  match f with
  | .abs =>
    match a.value 0 with
    | .int n => return [.int (if n < 0 then -n else n)]
    | _ => return [.float (← a.double 0).abs]
  | .ceil =>
    match a.value 0 with
    | .int n => return [.int n]
    | _ => return [integral (← a.double 0).ceil]
  | .floor =>
    match a.value 0 with
    | .int n => return [.int n]
    | _ => return [integral (← a.double 0).floor]
  | .fmod => remainder a
  | .frexp =>
    let x ← a.double 0
    if !x.isFinite then return [.float x, .int 0]
    let (m, e) := x.toFloat.frExp
    return [.float (.ofFloat m), .int (Int64.ofInt e)]
  | .ldexp =>
    let x ← a.double 0
    let e ← a.int 1
    return [.float (x.map (·.scaleB e))]
  | .log => logarithm a
  | .max => extreme a fun v best => less a.inside false best v
  | .min => extreme a fun v best => less a.inside false v best
  | .modf => parts a
  | .pow => do
    let x ← a.double 0
    return [.float (x.pow (← a.double 1))]
  | .tointeger =>
    let v ← a.any 0
    return [(v.toInt?.map Value.int).getD .nil]
  | .type =>
    match ← a.any 0 with
    | .int _ => return [.ofString "integer"]
    | .float _ => return [.ofString "float"]
    | _ => return [.nil]
  | .ult =>
    return [.bool ((Int64.ofInt (← a.int 0)).toUInt64 < (Int64.ofInt (← a.int 1)).toUInt64)]
  | .sqrt => onDouble a Float.sqrt
  | .cos => onDouble a Float.cos
  | .cosh => onDouble a Float.cosh
  | .deg => onDouble a fun x => x * (180.0 / pi)
  | .exp => onDouble a Float.exp
  | .log10 => within a (fun x => !(x < 0.0)) Float.log10
  | .rad => onDouble a fun x => x * (pi / 180.0)
  | .sin => onDouble a Float.sin
  | .sinh => onDouble a Float.sinh
  | .tan => onDouble a Float.tan
  | .tanh => onDouble a Float.tanh
  | .acos => within a (fun x => -1.0 ≤ x && x ≤ 1.0) Float.acos
  | .asin => within a (fun x => -1.0 ≤ x && x ≤ 1.0) Float.asin
  | .atan =>
    let y ← a.double 0
    let x ← (if a.isAbsent 1 then return .ofFloat 1.0 else a.double 1)
    return [.float (y.combine Float.atan2 x)]

end MathFunction

end Tasklang.Lua
