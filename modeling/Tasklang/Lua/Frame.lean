import Tasklang.Lua.Immediate
import Tasklang.Lua.Loop

/-! # What waits during evaluation

While a function runs, the code around it waits: for one value, for several values, or for
statements to end. Each thing that waits is a frame. The stack of frames, the innermost first, says
how evaluation goes on.
-/

namespace Tasklang.Lua

/-- The labels passed in a block: the statements after each, and what they see. -/
abbrev Labels := List (String × Env × List Stat)

/-- Where an assignment stores a value, once its parts are evaluated. -/
inductive Target where
  | cell (c : Nat)
  | slot (object key : Operand)

/-- The statements that follow another one in a block. -/
structure Rest where
  env : Env
  labels : Labels
  stats : List Stat

/-- An assignment whose targets are being evaluated. -/
structure Assignment where
  rest : Rest
  line : Nat
  targets : List Expr
  values : List Expr
  /-- The evaluated targets, the last one first. -/
  evaluated : List Target := []

/-- What waits for one value. -/
inductive ValueFrame where
  /-- Nothing but that the others are dropped. -/
  | only
  /-- An operator, for its left operand. -/
  | leftOperand (env : Env) (line : Nat) (op : BinaryOp) (right : Expr)
  /-- An operator, for its right operand. -/
  | rightOperand (env : Env) (line : Nat) (op : BinaryOp) (left : Operand)
  | unary (env : Env) (line : Nat) (op : UnaryOp)
  /-- A condition that goes on with its right operand when the left one is so. -/
  | shortcut (env : Env) (when_ : Bool) (right : Expr)
  /-- An index expression, for its object. -/
  | object (env : Env) (line : Nat) (key : Expr)
  /-- An index expression, for its key. -/
  | key (env : Env) (line : Nat) (object : Operand)
  /-- A call, for the function. -/
  | callee (env : Env) (line : Nat) (name : CalleeName) (args : List Expr) (tail : Bool)
  /-- A call of a method, for the object. -/
  | receiver (env : Env) (line : Nat) (name : String) (args : List Expr) (tail : Bool)
  /-- A list, for one of its items that is not the last one. -/
  | listItem (env : Env) (done : List Value) (more : List Expr)
  /-- A table constructor, for an item. -/
  | tableItem (env : Env) (line : Nat) (f : Filling) (more : List Field)
  /-- A table constructor, for the key of an entry. -/
  | entryKey (env : Env) (line : Nat) (f : Filling) (value : Expr) (more : List Field)
  /-- A table constructor, for the value of an entry. -/
  | entryValue (env : Env) (line : Nat) (f : Filling) (key : Operand) (more : List Field)
  | choice (env : Env) (yes no : List Stat)
  | loopTest (env : Env) (condition : Expr) (stats : List Stat)
  /-- An assignment, for the object of a target. -/
  | targetObject (a : Assignment) (key : Expr) (more : List Expr)
  /-- An assignment, for the key of a target. -/
  | targetKey (a : Assignment) (object : Operand) (more : List Expr)

/-- What waits for several values. -/
inductive ListFrame where
  /-- A list, for the values of its last item. -/
  | listEnd (done : List Value)
  /-- A call, for its arguments. -/
  | arguments (env : Env) (line : Nat) (name : CalleeName) (callee : Value) (tail : Bool)
  /-- A table constructor, for the values of its last item. -/
  | tableEnd (f : Filling)
  | ret
  /-- A call that is a statement. -/
  | dropped (rest : Rest)
  | declaration (rest : Rest) (names : List (String × Attribute))
  /-- An assignment, for the values. -/
  | stored (a : Assignment)
  | range (env : Env) (line : Nat) (name : String) (stats : List Stat)
  | iterator (env : Env) (line : Nat) (names : List String) (stats : List Stat)

/-- What waits for statements to end. -/
inductive FlowFrame where
  | next (rest : Rest)
  /-- The end of the body of a function. -/
  | body
  /-- The end of the scope of a variable that is closed then. -/
  | closing (env : Env) (v : Value)
  | whileDo (env : Env) (condition : Expr) (stats : List Stat)
  | repeating (env : Env) (stats : List Stat)
  | countInts (env : Env) (name : String) (at_ step : Int64) (more : Nat) (stats : List Stat)
  | countDoubles (env : Env) (name : String) (at_ stop step : Double) (stats : List Stat)
  | iterating (env : Env) (line : Nat) (names : List String) (f state control : Value)
    (stats : List Stat)

/-- What waits. -/
inductive Frame where
  | value (f : ValueFrame)
  | values (f : ListFrame)
  | flow (f : FlowFrame)

/-- How statements end other than at their end. -/
inductive Exit where
  | brk
  | jump (label : String)
  | returned (vs : List Value)

/-- What is done next. -/
inductive Control where
  /-- Call a function at a site. -/
  | call (site : Site) (callee : Value) (args : List Value)
  /-- Evaluate an expression; it gives all its values. -/
  | eval (env : Env) (e : Expr)
  /-- Evaluate expressions after others: one value of each, and all of the last. -/
  | list (env : Env) (done : List Value) (es : List Expr)
  /-- Fill a table. -/
  | fill (env : Env) (line : Nat) (f : Filling) (fs : List Field)
  /-- Evaluate the targets of an assignment, and then its values. -/
  | assign (a : Assignment)
  /-- Give a value to what waits for it. -/
  | give (v : Value)
  /-- Give values to what waits for them. -/
  | giveAll (vs : List Value)
  | exec (rest : Rest)
  /-- Test the condition of a loop. -/
  | test (env : Env) (condition : Expr) (stats : List Stat)
  /-- End statements. -/
  | finish
  | leave (x : Exit)
  /-- Close a variable because of an error, which goes on afterwards. -/
  | unwind (env : Env) (v thrown : Value)

/-- How far evaluation is. -/
inductive State where
  | running (c : Control) (k : List Frame)
  | ended (vs : List Value)

/-- The statements after a label further on in a block. -/
def afterLabel (name : String) : List Stat → Option (List Stat)
  | [] => none
  | .label n :: rest => if n = name then some rest else afterLabel name rest
  | _ :: rest => afterLabel name rest

namespace Rest

/-- The statements of a block of their own. -/
def block (env : Env) (stats : List Stat) : Rest := ⟨env, [], stats⟩

/-- The statements after a label of the block, passed already or still to come. -/
def jump? (r : Rest) (label : String) : Option Rest :=
  match r.labels.lookup label with
  | some (env, stats) => some { r with env, stats }
  | none => (afterLabel label r.stats).map fun stats => { r with stats }

/-- Let statements wait, unless there is nothing to come back to. -/
def push (r : Rest) (k : List Frame) : List Frame :=
  if r.stats.isEmpty && r.labels.isEmpty then k else .flow (.next r) :: k

end Rest

/-- The frames around the function that runs. -/
def callerFrames : List Frame → List Frame
  | [] => []
  | .flow .body :: k => k
  | _ :: k => callerFrames k

/-- The innermost variable that waits to be closed, with the frames around it. -/
def nextClosing : List Frame → Option (Env × Value × List Frame)
  | [] => none
  | .flow (.closing env v) :: k => some (env, v, k)
  | _ :: k => nextClosing k

end Tasklang.Lua
