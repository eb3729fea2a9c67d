import Tasklang.Number.Double
import Tasklang.Text.Bytes

/-! # Lua syntax

Expressions and statements of Lua 5.4. A name stands for a local variable or, when no local of that
name is in scope, for a field of the environment table. What can fail carries the line on which its
failure is reported.
-/

namespace Tasklang.Lua

/-- An operator with two operands, both of which are always evaluated. -/
inductive BinaryOp where
  | add | sub | mul | div | mod | pow | idiv
  | band | bor | bxor | shl | shr
  | concat
  | eq | ne | lt | le | gt | ge
  deriving DecidableEq, Repr

/-- An operator with one operand. -/
inductive UnaryOp where
  | neg | not | len | bnot
  deriving DecidableEq, Repr

/-- What is promised about a local variable. -/
inductive Attribute where
  | plain
  | const
  | close
  deriving DecidableEq, Repr

mutual

/-- An expression. -/
inductive Expr where
  | nil
  | bool (b : Bool)
  | int (n : Int64)
  | float (x : Double)
  | str (s : Bytes)
  /-- The extra arguments of the function. -/
  | varargs
  | name (n : String)
  | index (line : Nat) (object key : Expr)
  | call (line : Nat) (callee : Expr) (args : List Expr)
  | method (line : Nat) (object : Expr) (name : String) (args : List Expr)
  /-- Exactly one value of an expression. -/
  | paren (e : Expr)
  | unary (line : Nat) (op : UnaryOp) (e : Expr)
  | binary (line : Nat) (op : BinaryOp) (left right : Expr)
  | and (left right : Expr)
  | or (left right : Expr)
  | table (line : Nat) (fields : List Field)
  | function (body : Body)

/-- A part of a table constructor. -/
inductive Field where
  | item (value : Expr)
  | entry (key value : Expr)

/-- Parameters and statements of a function. -/
inductive Body where
  | mk (params : List String) (variadic : Bool) (stats : List Stat)

/-- A statement. -/
inductive Stat where
  | local (names : List (String × Attribute)) (values : List Expr)
  | assign (line : Nat) (targets : List Expr) (values : List Expr)
  | call (e : Expr)
  | block (stats : List Stat)
  | whileDo (condition : Expr) (stats : List Stat)
  | repeatUntil (stats : List Stat) (condition : Expr)
  | ifThen (condition : Expr) (stats : List Stat) (otherwise : List Stat)
  | numericFor (line : Nat) (name : String) (start stop : Expr) (step : Option Expr)
    (stats : List Stat)
  | genericFor (line : Nat) (names : List String) (values : List Expr) (stats : List Stat)
  | localFunction (name : String) (body : Body)
  | ret (values : List Expr)
  | brk
  | goto (label : String)
  | label (name : String)

end

instance : Inhabited Expr := ⟨.nil⟩
instance : Inhabited Stat := ⟨.brk⟩
instance : Inhabited Body := ⟨.mk [] false []⟩

/-- The parameters of a function. -/
def Body.params : Body → List String
  | .mk params _ _ => params

/-- Whether a function takes extra arguments. -/
def Body.variadic : Body → Bool
  | .mk _ variadic _ => variadic

/-- The statements of a function. -/
def Body.stats : Body → List Stat
  | .mk _ _ stats => stats

/-- The statements of a chunk, which takes extra arguments. -/
abbrev Chunk := List Stat

/-- The bytes of a name, as a key. -/
def nameKey (n : String) : Expr := .str (Bytes.ofString n)

/-- The name of the variable that holds the environment. -/
def environmentName : String := "_ENV"

end Tasklang.Lua
