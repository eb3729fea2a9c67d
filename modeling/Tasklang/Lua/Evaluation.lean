import Tasklang.Lua.Transition

/-! # Evaluation

Evaluation takes steps until nothing waits any more. It takes `fuel`, which bounds the steps and how
deep calls from outside Lua code nest, and has no answer when it runs out; an answer that comes does
not depend on how much was given. An error drops the frames that wait, and closes the variables
among them that have to be closed.
-/

namespace Tasklang.Lua

open Code

/-- Take a step, after which evaluation goes on or has ended. -/
def turn (apply : Apply) : State → Code Value (State ⊕ List Value)
  | .ended vs => Code.pure (.inr vs)
  | .running c k =>
    (step apply c k).branch (fun s => Code.pure (.inl s)) fun e =>
      match nextClosing k with
      | some (env, v, k) => Code.pure (.inl (.running (.unwind env v e) k))
      | none => Code.throw e

/-- Take steps until evaluation has ended. -/
def run : Nat → State → Code Value (List Value)
  | 0, _ => exhaust
  | n + 1, s => iterate (n + 1) (turn fun site f args => run n (.running (.call site f args) [])) s

/-- How functions are called from outside, with the budget of the machine. -/
def host : Caller where
  apply site f args := do run (← get).budget (.running (.call site f args) [])

/-- Call a function value from outside. -/
def invoke (f : Value) (args : List Value) : Code Value (List Value) := host.call f args

end Tasklang.Lua
