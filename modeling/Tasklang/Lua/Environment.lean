import Tasklang.Lua.Operations

/-! # What code sees

The variables in scope, and the call in which code runs. A local variable that is an operand is
not copied when it is evaluated: it is read when the operation happens, so that an assignment in
between shows.
-/

namespace Tasklang.Lua

open Code

/-- The call of a function in which code runs. -/
structure Activation where
  chunk : Bytes := []
  /-- The extra arguments. -/
  varargs : List Value := []
  /-- The positions of the functions around, the innermost first. -/
  trace : List (Option Position) := []
  /-- How many calls enclose this one that were not made by Lua code itself. -/
  levels : Nat := 0
  /-- Where the places of the call start on the stack. -/
  base : Nat := 0
  deriving Inhabited

/-- What a piece of code sees. -/
structure Env where
  /-- The cells of the variables, the innermost first. -/
  locals : List (String × Nat) := []
  /-- How many of these belong to the function itself. -/
  size : Nat := 0
  /-- Whether a variable is in scope that is closed at its end. -/
  closing : Bool := false
  activation : Activation := {}
  deriving Inhabited

/-- How functions are called: at a site, with arguments. -/
abbrev Apply := Site → Value → List Value → Code Value (List Value)

/-- A part of an operation, evaluated. -/
inductive Operand where
  | value (v : Value)
  /-- The variable that is read when the operation happens. -/
  | cell (c : Nat)
  deriving Inhabited

/-- The value of an operand. -/
def Operand.read {ε : Type} : Operand → Code ε Value
  | .value v => return v
  | .cell c => Code.cell c

/-- The operand that is a variable, or else a value. -/
def Operand.ofHeld (held : Option Nat) (v : Value) : Operand :=
  match held with
  | some c => .cell c
  | none => .value v

/-- How a called expression names its function. -/
def Expr.calleeName : Expr → CalleeName
  | .name x => .named x
  | .index _ _ (.str s) => .named (Bytes.decodeLossy s)
  | _ => .unknown

namespace Env

variable {ε : Type}

/-- The cell of a variable among the first so many. -/
def lookupWithin (x : String) : Nat → List (String × Nat) → Option Nat
  | n + 1, (y, c) :: rest => if x = y then some c else lookupWithin x n rest
  | _, _ => none

/-- The cell of a variable. -/
def cell? (env : Env) (x : String) : Option Nat := env.locals.lookup x

/-- The cell of a variable of the function itself. -/
def ownCell? (env : Env) (x : String) : Option Nat := lookupWithin x env.size env.locals

/-- The variable that an operand is, one of the function itself. -/
def held? (env : Env) : Expr → Option Nat
  | .name x => env.ownCell? x
  | .paren e => held? env e
  | _ => none

/-- The variable that the left operand of an operator is. The parts of a joined text are copied as
they are evaluated. -/
def heldLeft? (env : Env) (op : BinaryOp) (e : Expr) : Option Nat :=
  match op with
  | .concat => none
  | _ => env.held? e

/-- The variable that an indexed expression is: a variable of the functions around counts too,
unless it stands in parentheses. -/
def heldObject? (env : Env) (e : Expr) : Option Nat :=
  match e with
  | .name x => env.cell? x
  | e => env.held? e

/-- Whether a key is written as a string that is short enough to stand in an instruction. -/
def isShortKey : Expr → Bool
  | .str s => s.length ≤ 40
  | _ => false

/-- The variable that the object of an assignment is. -/
def heldTarget? (env : Env) (object key : Expr) : Option Nat :=
  match env.held? object with
  | some c => some c
  | none => if isShortKey key then env.heldObject? object else none

/-- An environment with one more variable. -/
def extend (env : Env) (x : String) (v : Value) : Code ε Env := do
  return { env with locals := (x, ← newCell v) :: env.locals, size := env.size + 1 }

/-- An environment with more variables; those without a value are nil. -/
def extendAll (env : Env) : List String → List Value → Code ε Env
  | [], _ => return env
  | x :: xs, vs => do (← env.extend x (first vs)).extendAll xs vs.tail

/-- The site of a call on a line. -/
def site (env : Env) (line : Nat) (callee : CalleeName) : Site where
  trace := some ⟨env.activation.chunk, line⟩ :: env.activation.trace
  levels := env.activation.levels
  top := env.activation.base + env.size + 1
  callee := callee

/-- The way to call functions on a line. -/
def caller (env : Env) (apply : Apply) (line : Nat) : Caller := ⟨env.site line .unknown, apply⟩

/-- The value of the environment, in which names that are no variables are looked up. -/
def globals (env : Env) : Code ε Value :=
  match env.cell? environmentName with
  | some c => cell c
  | none => return .nil

/-- A new function. -/
def closure (env : Env) (b : Body) : Code ε Value :=
  newClosure ⟨b, env.locals, env.activation.chunk⟩

end Env

end Tasklang.Lua
