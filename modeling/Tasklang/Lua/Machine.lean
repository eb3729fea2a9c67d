import Tasklang.Host.World
import Tasklang.Lua.Modules
import Tasklang.Lua.Table

/-! # The machine

What evaluation can change: tables, the cells of variables, closures, scopes, the imported modules,
the failures of the host, and the world. A computation takes a machine and ends in one of three ways: with a value, with
an error, or without an answer because the budget of the machine did not suffice. Code makes no
scopes and declares no names, whatever it makes stays in the machine, and it finds no name unbound
that it did not look up in vain: a computation of code carries the proofs.
-/

namespace Tasklang.Lua

/-- A function written in Lua, with the cells of the variables around it and the name of the chunk
that it stands in. -/
structure Closure where
  body : Body
  captured : List (String × Nat)
  chunk : Bytes
  deriving Inhabited

/-- One level of named bindings: the table that holds their values, the names declared in it, and
the level that encloses it. -/
structure ScopeRecord where
  table : TableRef
  declared : List String := []
  outer : Option Nat := none
  deriving DecidableEq, Repr, Inhabited

/-- Add a name to those that a scope declares. -/
def ScopeRecord.add (name : String) (r : ScopeRecord) : ScopeRecord :=
  if r.declared.contains name then r else { r with declared := name :: r.declared }

/-- A machine. -/
structure Machine where
  tables : Array Table := #[]
  cells : Array Value := #[]
  closures : Array Closure := #[]
  scopes : Array ScopeRecord := #[]
  world : World := {}
  modules : Modules := {}
  /-- The failures of the host that there were. -/
  faults : Array Fault := #[]
  /-- How many steps evaluation may take. -/
  budget : Nat := 10000000000
  /-- Where things lie, which only their addresses show. -/
  address : Reference → Nat := Reference.usualAddress
  deriving Inhabited

/-- The table of global names. -/
def globalsRef : TableRef := 0

/-- The metatable of strings. -/
def stringMetaRef : TableRef := 1

/-- The metatable that marks tables made from sequences. -/
def arrayMetaRef : TableRef := 2

/-- The table of loaded modules. -/
def loadedRef : TableRef := 3

/-- What a machine keeps while code runs in it: scopes are as they were, what was made stays, modules
are loaded once, and the budget and the addresses are the same. -/
structure Machine.Grows (m m' : Machine) : Prop where
  scopes : m'.scopes = m.scopes
  tables : m.tables.size ≤ m'.tables.size
  cells : m.cells.size ≤ m'.cells.size
  closures : m.closures.toList <+: m'.closures.toList
  modules : m.modules.Evolves m'.modules
  faults : m.faults.toList <+: m'.faults.toList
  budget : m'.budget = m.budget
  address : m'.address = m.address

namespace Machine.Grows

variable {m m' m'' : Machine}

theorem refl (m : Machine) : m.Grows m :=
  ⟨rfl, Nat.le_refl _, Nat.le_refl _, List.prefix_refl _, .refl _, List.prefix_refl _, rfl, rfl⟩

theorem trans (h : m.Grows m') (h' : m'.Grows m'') : m.Grows m'' where
  scopes := h'.scopes.trans h.scopes
  tables := Nat.le_trans h.tables h'.tables
  cells := Nat.le_trans h.cells h'.cells
  closures := h.closures.trans h'.closures
  modules := h.modules.trans h'.modules
  faults := h.faults.trans h'.faults
  budget := h'.budget.trans h.budget
  address := h'.address.trans h.address

theorem changeTable (m : Machine) (r : TableRef) (f : Table → Table) :
    m.Grows { m with tables := changeAt m.tables r f } :=
  { refl m with tables := by simp [changeAt] }

theorem pushTable (m : Machine) (t : Table) : m.Grows { m with tables := m.tables.push t } :=
  { refl m with tables := by simp }

theorem pushCell (m : Machine) (v : Value) : m.Grows { m with cells := m.cells.push v } :=
  { refl m with cells := by simp }

theorem putCell (m : Machine) (c : Nat) (v : Value) :
    m.Grows { m with cells := putAt m.cells c v } :=
  { refl m with cells := by simp [putAt] }

theorem pushClosure (m : Machine) (c : Closure) :
    m.Grows { m with closures := m.closures.push c } :=
  { refl m with closures := by simp }

theorem changeWorld (m : Machine) (f : World → World) : m.Grows { m with world := f m.world } :=
  { refl m with }

theorem pushFault (m : Machine) (f : Fault) : m.Grows { m with faults := m.faults.push f } :=
  { refl m with faults := by simp }

theorem changeModules {m : Machine} {k : Modules} (h : m.modules.Evolves k) :
    m.Grows { m with modules := k } := { refl m with modules := h }

end Machine.Grows

namespace Machine

/-- Write down what came of an import. -/
def tell (m : Machine) (e : ImportEvent) : Machine := { m with modules := m.modules.tell e }

/-- Keep the value of a module whose code returned a value. -/
def keep (m : Machine) (name : String) (returned : Value) : Machine :=
  { m with modules := m.modules.keep name returned }

/-- The fault that a thrown value stands for: what a program throws is a runtime error. -/
def faultOf (m : Machine) : Value → Fault
  | .fault id => m.faults.getD id (.external none)
  | .str s => .runtimeError (Bytes.decodeLossy s)
  | _ => .runtimeError "error object"

/-- What a name stands for outside of all scopes. -/
def global (m : Machine) (name : String) : Value := (m.tables.getD globalsRef {}).field name

/-- Whether an outermost scope leaves a name to the globals. -/
def Leaves (m : Machine) (name : String) : Prop :=
  ∃ r ∈ m.scopes, r.outer = none ∧ name ∉ r.declared

/-- Names that are looked up among the globals, each with the machine in which it is. -/
def Lookups : Type := String → Machine → Prop

/-- A machine in which names are unbound only because they were before, or because they were looked
up in vain. -/
def Misses (m : Machine) (asks : Lookups) (m' : Machine) : Prop :=
  ∀ name, .unbound name ∈ m'.faults → .unbound name ∈ m.faults ∨
    m.Leaves name ∧ ∃ m₁, asks name m₁ ∧ m₁.global name = .nil

namespace Misses

variable {m m' m'' : Machine} {asks asks' : Lookups}

theorem same (h : m'.faults = m.faults) : m.Misses asks m' := fun _ there => .inl (h ▸ there)

theorem trans (h : m.Misses asks m') (grows : m.Grows m') (h' : m'.Misses asks' m'') :
    m.Misses (fun name m₁ => asks name m₁ ∨ asks' name m₁) m'' := by
  intro name there
  rcases h' name there with before | ⟨leaves, m₁, asked, absent⟩
  · rcases h name before with before | ⟨leaves, m₁, asked, absent⟩
    · exact .inl before
    · exact .inr ⟨leaves, m₁, .inl asked, absent⟩
  · rw [Leaves, grows.scopes] at leaves
    exact .inr ⟨leaves, m₁, .inr asked, absent⟩

theorem wider (h : m.Misses asks m') (more : ∀ name m₁, asks name m₁ → asks' name m₁) :
    m.Misses asks' m' := fun name there =>
  (h name there).imp_right fun ⟨leaves, m₁, asked, absent⟩ => ⟨leaves, m₁, more _ _ asked, absent⟩

theorem pushFault (m : Machine) {f : Fault}
    (known : ∀ name, f = .unbound name → .unbound name ∈ m.faults) :
    m.Misses asks { m with faults := m.faults.push f } := by
  intro name there
  rcases Array.mem_push.1 there with before | new
  · exact .inl before
  · exact .inl (known name new.symm)

end Misses

@[simp] theorem faultOf_new (m : Machine) (f : Fault) :
    ({ m with faults := m.faults.push f } : Machine).faultOf (.fault m.faults.size) = f := by
  simp [faultOf]

theorem faultOf_unbound {m : Machine} {v : Value} {name : String}
    (h : m.faultOf v = .unbound name) : .unbound name ∈ m.faults := by
  cases v with
  | fault id =>
    rw [faultOf, Array.getD_eq_getD_getElem?] at h
    cases there : m.faults[id]? with
    | some f =>
      rw [there] at h
      exact h ▸ Array.mem_of_getElem? there
    | none =>
      rw [there] at h
      cases h
  | _ => cases h

end Machine

/-- How a computation ends. -/
inductive Outcome (ε α : Type) where
  | done (a : α) (m : Machine)
  | failed (e : ε) (m : Machine)
  | exhausted

/-- What holds of the machine in which a computation ends, if it ends. -/
def Outcome.After {ε α : Type} (P : Machine → Prop) : Outcome ε α → Prop
  | .done _ m => P m
  | .failed _ m => P m
  | .exhausted => True

/-- Whether a computation ends in a machine. -/
def Outcome.EndsIn {ε α : Type} (o : Outcome ε α) (m' : Machine) : Prop :=
  match o with
  | .done _ m => m = m'
  | .failed _ m => m = m'
  | .exhausted => False

theorem Outcome.After.imp {ε α : Type} {P Q : Machine → Prop} {o : Outcome ε α}
    (h : o.After P) (hpq : ∀ m, P m → Q m) : o.After Q := by
  cases o with
  | done a m => exact hpq m h
  | failed e m => exact hpq m h
  | exhausted => trivial

/-- The names that are looked up after a computation has ended. -/
def Outcome.later {ε α : Type} (o : Outcome ε α) (f : α → Machine → Machine.Lookups)
    (g : ε → Machine → Machine.Lookups) : Machine.Lookups :=
  match o with
  | .done a m => f a m
  | .failed e m => g e m
  | .exhausted => fun _ _ => False

/-- A computation of code: how it ends, and the names that it looks up among the globals. It lets a
machine only grow. -/
structure Code (ε α : Type) where
  exec : Machine → Outcome ε α
  asks : Machine → Machine.Lookups := fun _ _ _ => False
  grows : ∀ m, (exec m).After m.Grows
  misses : ∀ m, (exec m).After (m.Misses (asks m))

namespace Code

variable {ε ε' α β σ : Type}

/-- The computation that only returns a value. -/
@[always_inline, inline]
def pure (a : α) : Code ε α where
  exec m := .done a m
  grows m := .refl m
  misses _ := .same rfl

/-- The computation that only fails. -/
@[always_inline, inline]
def throw (e : ε) : Code ε α where
  exec m := .failed e m
  grows m := .refl m
  misses _ := .same rfl

/-- The computation that has no answer. -/
def exhaust : Code ε α where
  exec _ := .exhausted
  grows _ := trivial
  misses _ := trivial

/-- A computation that goes on with a value or handles an error. -/
@[always_inline, inline]
def branch (x : Code ε α) (f : α → Code ε' β) (handle : ε → Code ε' β) : Code ε' β where
  exec m := match x.exec m with
    | .done a m => (f a).exec m
    | .failed e m => (handle e).exec m
    | .exhausted => .exhausted
  asks m name m₁ := x.asks m name m₁ ∨
    (x.exec m).later (fun a => (f a).asks) (fun e => (handle e).asks) name m₁
  grows m := by
    have h := x.grows m
    cases hx : x.exec m with
    | done a m' =>
      rw [hx] at h
      exact ((f a).grows m').imp fun _ h' => Machine.Grows.trans h h'
    | failed e m' =>
      rw [hx] at h
      exact ((handle e).grows m').imp fun _ h' => Machine.Grows.trans h h'
    | exhausted => trivial
  misses m := by
    have grows := x.grows m
    have h := x.misses m
    cases hx : x.exec m with
    | done a m' =>
      rw [hx] at grows h
      exact ((f a).misses m').imp fun _ h' => Machine.Misses.trans h grows h'
    | failed e m' =>
      rw [hx] at grows h
      exact ((handle e).misses m').imp fun _ h' => Machine.Misses.trans h grows h'
    | exhausted => trivial

/-- One computation after another. -/
@[always_inline, inline]
def bind (x : Code ε α) (f : α → Code ε β) : Code ε β := x.branch f throw

instance : Monad (Code ε) where
  pure := pure
  bind := bind

/-- Handle the error of a computation. -/
@[always_inline, inline]
def catchError (x : Code ε α) (handle : ε → Code ε' α) : Code ε' α := x.branch pure handle

/-- A computation whose errors are renamed. -/
def mapError (f : ε → ε') (x : Code ε α) : Code ε' α := x.catchError fun e => throw (f e)

/-- A computation whose error is part of its value. -/
def attempt (x : Code ε α) : Code ε' (Except ε α) :=
  x.branch (fun a => pure (.ok a)) fun e => pure (.error e)

/-- The machine. -/
@[always_inline, inline]
def get : Code ε Machine where
  exec m := .done m m
  grows m := .refl m
  misses _ := .same rfl

/-- A value or an error. -/
def ofExcept : Except ε α → Code ε α
  | .ok a => pure a
  | .error e => throw e

/-- Repeat a step from a machine on until it gives a result, at most so many times. -/
def repeatFrom (step : σ → Machine → Outcome ε (σ ⊕ α)) : Nat → σ → Machine → Outcome ε α
  | 0, _, _ => .exhausted
  | n + 1, s, m => match step s m with
    | .done (.inl s) m => repeatFrom step n s m
    | .done (.inr a) m => .done a m
    | .failed e m => .failed e m
    | .exhausted => .exhausted

/-- The names that are looked up while a step is repeated. -/
def repeatAsks (step : σ → Code ε (σ ⊕ α)) : Nat → σ → Machine → Machine.Lookups
  | 0, _, _ => fun _ _ => False
  | n + 1, s, m => fun name m₁ => (step s).asks m name m₁ ∨
    ((step s).exec m).later
      (fun | .inl s, m => repeatAsks step n s m | .inr _, _ => fun _ _ => False)
      (fun _ _ _ _ => False) name m₁

theorem repeatFrom_grows (step : σ → Code ε (σ ⊕ α)) (n : Nat) (s : σ) (m : Machine) :
    (repeatFrom (fun s => (step s).exec) n s m).After m.Grows := by
  induction n generalizing s m with
  | zero => trivial
  | succ n ih =>
    have h := (step s).grows m
    unfold repeatFrom
    cases hx : (step s).exec m with
    | done r m' =>
      rw [hx] at h
      cases r with
      | inl s' => exact (ih s' m').imp fun _ h' => Machine.Grows.trans h h'
      | inr a => exact h
    | failed e m' =>
      rw [hx] at h
      exact h
    | exhausted => trivial

theorem repeatFrom_misses (step : σ → Code ε (σ ⊕ α)) (n : Nat) (s : σ) (m : Machine) :
    (repeatFrom (fun s => (step s).exec) n s m).After (m.Misses (repeatAsks step n s m)) := by
  induction n generalizing s m with
  | zero => trivial
  | succ n ih =>
    have grows := (step s).grows m
    have h := (step s).misses m
    unfold repeatFrom repeatAsks
    cases hx : (step s).exec m with
    | done r m' =>
      rw [hx] at grows h
      cases r with
      | inl s' => exact (ih s' m').imp fun _ h' => Machine.Misses.trans h grows h'
      | inr a => exact h.wider fun _ _ => .inl
    | failed e m' =>
      rw [hx] at h
      exact h.wider fun _ _ => .inl
    | exhausted => trivial

/-- Repeat a step until it gives a result, at most `fuel` times. -/
def iterate (fuel : Nat) (step : σ → Code ε (σ ⊕ α)) (s : σ) : Code ε α where
  exec := repeatFrom (fun s => (step s).exec) fuel s
  asks := repeatAsks step fuel s
  grows := repeatFrom_grows step fuel s
  misses := repeatFrom_misses step fuel s

/-- The table at a place. -/
def table (r : TableRef) : Code ε Table where
  exec m := .done (m.tables.getD r {}) m
  grows m := .refl m
  misses _ := .same rfl

/-- Change the table at a place. -/
def modifyTable (r : TableRef) (f : Table → Table) : Code ε Unit where
  exec m := .done () { m with tables := changeAt m.tables r f }
  grows m := .changeTable m r f
  misses _ := .same rfl

/-- The value of a key in the table at a place. -/
def lookUp (r : TableRef) (key : Value) : Code ε Value where
  exec m :=
    let t := m.tables.getD r {}
    let v := t.get key
    if t.limit = t.items.size then .done v m
    else .done v { m with tables := changeAt m.tables r fun t => t.touch key }
  grows m := by
    dsimp only
    split
    · exact .refl m
    · exact .changeTable m r _
  misses m := by
    dsimp only
    split <;> exact .same rfl

/-- The length of the table at a place. -/
def lengthOf (r : TableRef) : Code ε Nat where
  exec m :=
    let (n, limit) := (m.tables.getD r {}).measure
    .done n { m with tables := changeAt m.tables r fun t => { t with limit } }
  grows m := .changeTable m r _
  misses _ := .same rfl

/-- A new table. -/
def newTable (t : Table) : Code ε TableRef where
  exec m := .done m.tables.size { m with tables := m.tables.push t }
  grows m := .pushTable m t
  misses _ := .same rfl

/-- A new variable. -/
def newCell (v : Value) : Code ε Nat where
  exec m := .done m.cells.size { m with cells := m.cells.push v }
  grows m := .pushCell m v
  misses _ := .same rfl

/-- The value of a variable. -/
def cell (c : Nat) : Code ε Value where
  exec m := .done (m.cells.getD c .nil) m
  grows m := .refl m
  misses _ := .same rfl

/-- Give a variable a value. -/
def setCell (c : Nat) (v : Value) : Code ε Unit where
  exec m := .done () { m with cells := putAt m.cells c v }
  grows m := .putCell m c v
  misses _ := .same rfl

/-- A new function. -/
def newClosure (c : Closure) : Code ε Value where
  exec m := .done (.function (.closure m.closures.size)) { m with closures := m.closures.push c }
  grows m := .pushClosure m c
  misses _ := .same rfl

/-- Change the world. -/
def modifyWorld (f : World → World) : Code ε Unit where
  exec m := .done () { m with world := f m.world }
  grows m := .changeWorld m f
  misses _ := .same rfl

/-- The world. -/
def world : Code ε World where
  exec m := .done m.world m
  grows m := .refl m
  misses _ := .same rfl

/-- The value of a module: the one that is kept under its name, or else what its code returns, which
is kept then. `source` finds the code, with the path of its file. -/
def importing (name : String) (source : World → Except ε (String × Code ε Value)) : Code ε Value where
  exec m := match m.modules.find? name with
    | some v => .done v (m.tell (.reused name v))
    | none => match source m.world with
      | .error e => .failed e (m.tell (.missed name))
      | .ok (path, load) => match load.exec (m.tell (.started name path)) with
        | .done v m => .done (moduleValue v) (m.keep name v)
        | .failed e m => .failed e (m.tell (.failed name))
        | .exhausted => .exhausted
  asks m := match m.modules.find? name, source m.world with
    | none, .ok (path, load) => load.asks (m.tell (.started name path))
    | _, _ => fun _ _ => False
  grows m := by
    cases kept : m.modules.find? name with
    | some v => exact .changeModules (.reused kept)
    | none =>
      cases source m.world with
      | error e => exact .changeModules (.missed kept)
      | ok found =>
        have h := found.2.grows (m.tell (.started name found.1))
        dsimp only
        cases hx : found.2.exec (m.tell (.started name found.1)) with
        | done v m' =>
          rw [hx] at h
          exact { h with modules := .loaded v kept h.modules }
        | failed e m' =>
          rw [hx] at h
          exact { h with modules := .failed kept h.modules }
        | exhausted => trivial
  misses m := by
    cases m.modules.find? name with
    | some v => exact .same rfl
    | none =>
      cases source m.world with
      | error e => exact .same rfl
      | ok found =>
        have h := found.2.misses (m.tell (.started name found.1))
        dsimp only
        cases hx : found.2.exec (m.tell (.started name found.1)) with
        | done v m' =>
          rw [hx] at h
          exact h
        | failed e m' =>
          rw [hx] at h
          exact h
        | exhausted => trivial

/-- Fail with a new failure of the host, of a kind other than an unbound name. -/
def fail (f : Fault) (known : f.isUnbound = false := by rfl) : Code Value α where
  exec m := .failed (.fault m.faults.size) { m with faults := m.faults.push f }
  grows m := .pushFault m f
  misses m := .pushFault m fun _ same => by rw [same] at known; cases known

/-- Fail with a new failure of the host, for what a thrown value stands for. -/
def rethrow (thrown : Value) : Code Value α where
  exec m := .failed (.fault m.faults.size) { m with faults := m.faults.push (m.faultOf thrown) }
  grows m := .pushFault m _
  misses m := .pushFault m fun _ => Machine.faultOf_unbound

/-- A computation of the host: what is thrown in it goes on as a new failure of the host. -/
def hosted (x : Code Value α) : Code Value α := x.catchError rethrow

/-- A computation whose thrown values are told by what they stand for. -/
def explain (x : Code Value α) (f : Fault → ε') : Code ε' α :=
  x.catchError fun thrown => do throw (f ((← get).faultOf thrown))

end Code

/-- A computation on a machine. -/
def Run (ε α : Type) : Type := Machine → Outcome ε α

namespace Run

variable {ε ε' α β : Type}

/-- The computation that only returns a value. -/
@[always_inline, inline]
def pure (a : α) : Run ε α := fun m => .done a m

/-- One computation after another. -/
@[always_inline, inline]
def bind (x : Run ε α) (f : α → Run ε β) : Run ε β := fun m =>
  match x m with
  | .done a m => f a m
  | .failed e m => .failed e m
  | .exhausted => .exhausted

instance : Monad (Run ε) where
  pure := pure
  bind := bind

/-- A computation of code. -/
@[always_inline, inline]
def code (x : Code ε α) : Run ε α := x.exec

instance : MonadLift (Code ε) (Run ε) := ⟨code⟩

/-- The computation that only fails. -/
@[always_inline, inline]
def throw (e : ε) : Run ε α := fun m => .failed e m

/-- Handle the error of a computation. -/
@[always_inline, inline]
def catchError (x : Run ε α) (handle : ε → Run ε' α) : Run ε' α := fun m =>
  match x m with
  | .done a m => .done a m
  | .failed e m => handle e m
  | .exhausted => .exhausted

/-- A computation whose errors are renamed. -/
def mapError (f : ε → ε') (x : Run ε α) : Run ε' α := x.catchError fun e => throw (f e)

/-- A computation whose error is part of its value. -/
def attempt (x : Run ε α) : Run ε' (Except ε α) := fun m =>
  match x m with
  | .done a m => .done (.ok a) m
  | .failed e m => .done (.error e) m
  | .exhausted => .exhausted

/-- The machine. -/
@[always_inline, inline]
def get : Run ε Machine := fun m => .done m m

/-- Change the machine. -/
@[always_inline, inline]
def modify (f : Machine → Machine) : Run ε Unit := fun m => .done () (f m)

/-- A value or an error. -/
def ofExcept : Except ε α → Run ε α
  | .ok a => pure a
  | .error e => throw e

/-- The table at a place. -/
def table (r : TableRef) : Run ε Table := code (.table r)

/-- Change the table at a place. -/
def modifyTable (r : TableRef) (f : Table → Table) : Run ε Unit := code (.modifyTable r f)

/-- A new table. -/
def newTable (t : Table) : Run ε TableRef := code (.newTable t)

/-- The world. -/
def world : Run ε World := code .world

/-- Change the world. -/
def modifyWorld (f : World → World) : Run ε Unit := code (.modifyWorld f)

end Run

/-- The first of several results. -/
def first (vs : List Value) : Value := vs.headD .nil

end Tasklang.Lua
