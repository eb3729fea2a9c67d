import Tasklang.Lua.Machine

/-! # Where calls happen

A call happens at a site: the functions that are active, how many calls by functions that are not
written in Lua enclose it, and how much of the stack is in use. The site says what an error message
starts with and when calls nest too deep.
-/

namespace Tasklang.Lua

/-- A line of a chunk, which is known by a name. -/
structure Position where
  chunk : Bytes
  line : Nat
  deriving DecidableEq, Repr, Inhabited

/-- How a position is shown in front of a message. -/
def Position.shown (p : Position) : Bytes :=
  p.chunk ++ Bytes.ofString (":" ++ Nat.repr p.line ++ ": ")

/-- How a function is named where it is called. -/
inductive CalleeName where
  | unknown
  | named (name : String)
  /-- A method, which takes the object before its dot as an argument of its own. -/
  | method (name : String)
  deriving DecidableEq, Repr, Inhabited

/-- Where a call happens. -/
structure Site where
  /-- The positions of the active functions, the innermost first; those that are not written in Lua
  have none. -/
  trace : List (Option Position) := []
  /-- How many calls enclose this one that were not made by Lua code itself. -/
  levels : Nat := 0
  /-- How many places of the stack are in use. -/
  top : Nat := 0
  /-- How the function that is called is named. -/
  callee : CalleeName := .unknown
  deriving Inhabited

namespace Site

/-- How many calls that are not made by Lua code itself may enclose another. -/
def levelLimit : Nat := 200

/-- How many places the stack has. -/
def stackLimit : Nat := 1000000

/-- The site inside a function that is not written in Lua and is called at this one. -/
def native (s : Site) : Site := { s with trace := none :: s.trace, top := s.top + 1 }

/-- What a message starts with that blames the active function at a level, the innermost one being
level one. -/
def blame (s : Site) (level : Nat) : Bytes :=
  match s.trace[level - 1]? with
  | some (some p) => p.shown
  | _ => []

end Site

/-- How functions are called from a site. -/
structure Caller where
  site : Site := {}
  /-- The results of a function value that is called with arguments at a site. -/
  apply : Site → Value → List Value → Code Value (List Value)

namespace Caller

variable {α : Type}

/-- Raise an error with a message that says where the innermost active function is. -/
def raise (c : Caller) (message : String) : Code Value α :=
  Code.throw (.str (c.site.blame 1 ++ Bytes.ofString message))

/-- The way to call functions one call further down. -/
def deeper (c : Caller) : Code Value Caller :=
  let levels := c.site.levels + 1
  if Site.levelLimit ≤ levels then c.raise "C stack overflow"
  else return { c with site := { c.site with levels, callee := .unknown } }

theorem deeper_cases (c : Caller) (m : Machine) :
    (∃ d, c.deeper.exec m = .done d m) ∨ ∃ e, c.deeper.exec m = .failed e m := by
  unfold deeper
  dsimp only
  split
  · exact .inr ⟨_, rfl⟩
  · exact .inl ⟨_, rfl⟩

/-- Call a function from within an operation or a library function. -/
def call (c : Caller) (f : Value) (args : List Value) : Code Value (List Value) := do
  let c ← c.deeper
  c.apply c.site f args

/-- The way to call functions inside a library function that is called at this site. -/
def native (c : Caller) : Caller := { c with site := c.site.native }

end Caller

end Tasklang.Lua
