import Tasklang.Lua.Operations

/-! # Scopes

A scope is one level of named bindings. A declared name stands for its value even when that is nil.
Any other name is looked up in the enclosing scope and, in the outermost one, among the globals; a
name that is found nowhere is unbound, which is a fault of its own.
-/

namespace Tasklang.Lua

open Code

/-- A scope of a machine. -/
structure Scope where
  id : Nat
  deriving DecidableEq, Repr, Inhabited

namespace Machine

/-- What a machine holds for a scope. -/
def record (m : Machine) (s : Scope) : ScopeRecord := m.scopes.getD s.id default

/-- Where a scope that holds no value for a name leaves it. -/
inductive Standing where
  | declared
  | around (outer : Scope)
  | outermost

/-- Where a scope that holds no value for a name leaves it. -/
def standing (m : Machine) (s : Scope) (name : String) : Standing :=
  match m.scopes[s.id]? with
  | none => .declared
  | some r =>
    if r.declared.contains name then .declared
    else match r.outer with
      | some outer => .around ⟨outer⟩
      | none => .outermost

theorem leaves_of_outermost {m : Machine} {s : Scope} {name : String}
    (h : m.standing s name = .outermost) : m.Leaves name := by
  unfold standing at h
  split at h
  · cases h
  next r there =>
    split at h
    · cases h
    next new =>
      split at h
      · cases h
      next last => exact ⟨r, Array.mem_of_getElem? there, last, by simpa using new⟩

end Machine

namespace Scope

variable {ε : Type}

/-- What the machine holds for a scope. -/
def record (s : Scope) : Code ε ScopeRecord := do return (← get).record s

/-- The table of a scope, the environment of expressions in it. -/
def table (s : Scope) : Code ε TableRef := do return (← s.record).table

/-- A new scope. -/
def new (outer : Option Scope) : Run ε Scope := fun m =>
  let id := m.scopes.size
  let place := m.tables.size
  let lookup := Value.function (.scopeLookup id)
  let tables := (m.tables.push (({} : Table).setField "__index" lookup)).push
    { metatable := some place }
  .done ⟨id⟩ { m with
    tables
    scopes := m.scopes.push { table := place + 1, outer := outer.map (·.id) } }

/-- A scope around which only the globals are. -/
def root : Run ε Scope := new none

/-- A scope inside another. -/
def child (s : Scope) : Run ε Scope := new (some s)

/-- Give a name a value in the table of a scope. -/
def put (s : Scope) (name : String) (value : Value) : Run ε Unit := do
  let m ← Run.get
  Run.modifyTable (m.record s).table fun t => t.setField name value

/-- Whether a name is declared in this very scope. -/
def declares (s : Scope) (name : String) : Run ε Bool := do
  return ((← Run.get).record s).declared.contains name

/-- Bind a name in this scope. -/
def declare (s : Scope) (name : String) (value : Value) : Run ε Unit := do
  Run.modify fun m => { m with scopes := changeAt m.scopes s.id (ScopeRecord.add name) }
  s.put name value

/-- The scope from `s` outward that declares a name, or the outermost one; `fuel` bounds how many
scopes there are. -/
def holder (m : Machine) (name : String) : Nat → Scope → Scope × Bool
  | 0, s => (s, false)
  | fuel + 1, s =>
    let r := m.record s
    if r.declared.contains name then (s, true)
    else match r.outer with
      | some outer => holder m name fuel ⟨outer⟩
      | none => (s, false)

/-- Give a name a new value where it is declared, or declare it in the outermost scope. -/
def assign (s : Scope) (name : String) (value : Value) : Run ε Unit := do
  let m ← Run.get
  match holder m name m.scopes.size s with
  | (holder, true) => holder.put name value
  | (holder, false) => holder.declare name value

/-- The value of a name in a scope, for the scope inside it. -/
def lookupAround (c : Caller) (s : Scope) (name : String) : Code Value Value :=
  hosted do index (← c.native.deeper) metaHops (.table (← s.table)) (.ofString name)

/-- The value of a name among the globals, for the outermost scope; nil when it has none. -/
def lookupGlobal (c : Caller) (name : String) : Code Value Value :=
  hosted do
    let c ← (match (← Code.table globalsRef).metatable with
      | none => return c.native
      | some _ => c.native.deeper)
    index c metaHops (.table globalsRef) (.ofString name)

/-- A name that is looked up in vain is no global. -/
theorem lookupGlobal_nil {c : Caller} {name : String} {m m' : Machine}
    (h : (lookupGlobal c name).exec m = .done .nil m') : m.global name = .nil := by
  refine Decidable.byContradiction fun held => ?_
  have indexed (c : Caller) : ∃ m', (index c metaHops (.table globalsRef) (.ofString name)).exec m =
      .done (m.global name) m' := index_held held
  cases plain : (m.tables.getD globalsRef {}).metatable with
  | none =>
    obtain ⟨m₁, found⟩ := indexed c.native
    simp only [lookupGlobal, exec_hosted, exec_bind, exec_table, Outcome.andThen_done, plain,
      exec_pure, found] at h
    exact held (Outcome.done.inj h).1
  | some place =>
    simp only [lookupGlobal, exec_hosted, exec_bind, exec_table, Outcome.andThen_done, plain] at h
    rcases c.native.deeper_cases m with ⟨d, done⟩ | ⟨e, failed⟩
    · obtain ⟨m₁, found⟩ := indexed d
      rw [done, Outcome.andThen_done, found] at h
      exact held (Outcome.done.inj h).1
    · rw [failed] at h
      cases h

/-- What an outermost scope answers for a name that it does not declare, given what the globals say:
without a value there, the name is unbound. -/
def orUnbound (name : String) : Outcome Value Value → Outcome Value Value
  | .done .nil m => .failed (.fault m.faults.size) { m with faults := m.faults.push (.unbound name) }
  | o => o

/-- What a scope answers for a name that its table does not hold. -/
def lookupName (c : Caller) (s : Scope) (name : String) : Code Value Value where
  exec m := match m.standing s name with
    | .declared => .done .nil m
    | .around outer => (lookupAround c outer name).exec m
    | .outermost => orUnbound name ((lookupGlobal c name).exec m)
  asks m := match m.standing s name with
    | .declared => fun _ _ => False
    | .around outer => (lookupAround c outer name).asks m
    | .outermost => fun n m₁ => (n = name ∧ m₁ = m) ∨ (lookupGlobal c name).asks m n m₁
  grows m := by
    split
    · exact .refl m
    · exact (lookupAround c _ name).grows m
    · have grows := (lookupGlobal c name).grows m
      unfold orUnbound
      split
      next h =>
        rw [h] at grows
        exact Machine.Grows.trans grows (.pushFault _ _)
      · exact grows
  misses m := by
    split
    · exact .same rfl
    · exact (lookupAround c _ name).misses m
    next alone =>
      have misses := (lookupGlobal c name).misses m
      unfold orUnbound
      split
      next m' h =>
        rw [h] at misses
        intro n there
        rcases Array.mem_push.1 there with before | new
        · rcases misses n before with before | ⟨leaves, m₁, asked, absent⟩
          · exact .inl before
          · exact .inr ⟨leaves, m₁, .inr asked, absent⟩
        · cases new
          exact .inr ⟨Machine.leaves_of_outermost alone, m, .inl ⟨rfl, rfl⟩, lookupGlobal_nil h⟩
      · exact misses.imp fun _ h => h.wider fun _ _ => .inr

/-- What a scope answers for a key that its table does not hold. -/
def lookup (c : Caller) (s : Scope) (key : Value) : Code Value Value :=
  match key with
  | .str bytes => lookupName c s (Bytes.decodeLossy bytes)
  | _ => return .nil

/-- The value of a name, looked up outward. -/
def find (c : Caller) (s : Scope) (name : String) : Code Value Value := do
  index (← c.deeper) metaHops (.table (← s.table)) (.ofString name)

end Scope

end Tasklang.Lua
