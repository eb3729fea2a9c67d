import Tasklang.Lua.Site

/-! # Loops over numbers

A loop counts in integers when its start and its step are integers; then it is known beforehand how
often it runs, so that it ends before it would wrap around. Otherwise it counts in doubles.
-/

namespace Tasklang.Lua

/-- What a loop over numbers runs through. -/
inductive Range where
  | empty
  /-- From an integer on, by a step, so many times more after the first. -/
  | ints (start step : Int64) (more : Nat)
  | doubles (start stop step : Double)

namespace Range

/-- The integer at which a loop by a step stops, for a limit that may be a double. A limit that is
no integer is cut to the last one inside, and one out of reach to the last one that there is. -/
def lastOf (limit : Number) (step : Int) : Int :=
  let least : Int := -(Nat.pow 2 63 : Int)
  let greatest : Int := (Nat.pow 2 63 : Int) - 1
  match limit with
  | .int n => n.toInt
  | .float x =>
    if x.isFinite then
      let n := if step < 0 then Number.ceil x.toFloat else Number.floor x.toFloat
      max least (min greatest n)
    else if 0.0 < x.toFloat then greatest else least

/-- Whether a limit lies so far on the wrong side of all integers that a loop by a step towards it
does not run. -/
def isBehind (limit : Number) (step : Int) : Bool :=
  match limit with
  | .int _ => false
  | .float x =>
    if step < 0 then 9223372036854775808.0 ≤ x.toFloat
    else !(-9223372036854775808.0 ≤ x.toFloat)

/-- The range of a loop over integers. -/
def ofInts (start step : Int64) (limit : Number) : Range :=
  let a := start.toInt
  let s := step.toInt
  let b := lastOf limit s
  if isBehind limit s || (if 0 < s then b < a else a < b) then .empty
  else .ints start step ((b - a).tdiv s).toNat

/-- Whether a loop over doubles goes on at a value. -/
def goesOn (x stop step : Double) : Bool :=
  if 0.0 < step.toFloat then x.toFloat ≤ stop.toFloat else stop.toFloat ≤ x.toFloat

/-- The range of a loop over doubles. -/
def ofDoubles (start stop step : Double) : Range :=
  let skipped :=
    if 0.0 < step.toFloat then stop.toFloat < start.toFloat else start.toFloat < stop.toFloat
  if skipped then .empty else .doubles start stop step

/-- The range from a first value to a last one by a step, or what is wrong with them. -/
def of? (start stop step : Value) : Except String Range :=
  match start, step with
  | .int a, .int s =>
    if s = 0 then .error "'for' step is zero"
    else match stop.toNumber? with
      | none => .error "'for' limit must be a number"
      | some limit => .ok (ofInts a s limit)
  | _, _ =>
    match stop.toNumber?, step.toNumber?, start.toNumber? with
    | none, _, _ => .error "'for' limit must be a number"
    | _, none, _ => .error "'for' step must be a number"
    | _, _, none => .error "'for' initial value must be a number"
    | some stop, some step, some start =>
      if step.toDouble.toFloat == 0.0 then .error "'for' step is zero"
      else .ok (ofDoubles start.toDouble stop.toDouble step.toDouble)

end Range

end Tasklang.Lua
