import Tasklang.Compile.TaskList
import Tasklang.Proofs.Starting
import Tasklang.Proofs.Unrolling

/-! # Rounds of a loop

A loop opens a scope for every element, binds the element and its position there, and calls. So does
a block that was made for the element, with arguments that are known. What a call answers depends on
the machine; which calls are made, with which arguments, does not. So a loop and its blocks perform
the same calls, and each of them leaves what the last one answered.
-/

namespace Tasklang

open Lua Lua.Run

namespace Lua.Machine

/-- A machine in which nothing was changed that was there. Scopes may have been opened. -/
structure Idles (m m' : Machine) : Prop where
  room : m.tables.size ≤ m'.tables.size
  tables : ∀ r < m.tables.size, m'.tables.getD r {} = m.tables.getD r {}
  cells : ∀ c < m.cells.size, m'.cells.getD c .nil = m.cells.getD c .nil
  cellRoom : m.cells.size ≤ m'.cells.size
  scopeRoom : m.scopes.size ≤ m'.scopes.size
  records : ∀ s : Scope, s.id < m.scopes.size → m'.record s = m.record s
  closures : m.closures.toList <+: m'.closures.toList
  world : m'.world = m.world

variable {m m' m'' : Machine}

theorem Adds.idles (h : m.Adds m') : m.Idles m' where
  room := h.grows.tables
  tables := h.tables
  cells := h.cells
  cellRoom := h.grows.cells
  scopeRoom := Nat.le_of_eq (by rw [h.grows.scopes])
  records s _ := h.record s
  closures := h.grows.closures
  world := h.world

namespace Idles

theorem refl (m : Machine) : m.Idles m := (Adds.refl m).idles

theorem trans (h : m.Idles m') (h' : m'.Idles m'') : m.Idles m'' where
  room := Nat.le_trans h.room h'.room
  tables r hr := (h'.tables r (Nat.lt_of_lt_of_le hr h.room)).trans (h.tables r hr)
  cells c hc := (h'.cells c (Nat.lt_of_lt_of_le hc h.cellRoom)).trans (h.cells c hc)
  cellRoom := Nat.le_trans h.cellRoom h'.cellRoom
  scopeRoom := Nat.le_trans h.scopeRoom h'.scopeRoom
  records s hs := (h'.records s (Nat.lt_of_lt_of_le hs h.scopeRoom)).trans (h.records s hs)
  closures := h.closures.trans h'.closures
  world := h'.world.trans h.world

theorem opened (m : Machine) (outer : Option Scope) : m.Idles (m.opened outer) where
  room := by
    rw [tables_opened]
    omega
  tables _ hr := tables_opened_old m outer hr
  cells _ _ := rfl
  cellRoom := Nat.le_refl _
  scopeRoom := by
    rw [scopes_opened]
    omega
  records _ hs := record_opened m outer hs
  closures := List.prefix_refl _
  world := rfl

/-- Binding a name in a new scope changes nothing that was there. -/
theorem bound (h : m.Idles m') {s : Scope} (new : m.scopes.size ≤ s.id)
    (apart : m.tables.size ≤ m'.seat s) (name : String) (v : Value) :
    m.Idles (m'.bound s name v) where
  room := by
    rw [tables_bound]
    exact h.room
  tables r hr := by
    rw [table_bound, getD_changeAt_other _ _ (by omega)]
    exact h.tables r hr
  cells := h.cells
  cellRoom := h.cellRoom
  scopeRoom := by
    rw [scopes_bound]
    exact h.scopeRoom
  records t ht := by
    rw [record_bound m' s t name v (Nat.lt_of_lt_of_le ht h.scopeRoom), if_neg]
    · exact h.records t ht
    · rintro rfl
      omega
  closures := h.closures
  world := h.world

end Idles

theorem adds_pushTable (m : Machine) (t : Table) :
    m.Adds { m with tables := m.tables.push t } where
  grows := .pushTable m t
  tables _ hr := getD_push_other m.tables {} (Nat.ne_of_lt hr) t
  cells _ _ := rfl
  world := rfl

/-- What code leaves alone that is run on the way through a loop: the library, the scopes, and the
tables from one place up to another. -/
structure Keeps (low high : Nat) (m m' : Machine) : Prop where
  furnished : m'.Furnished
  spares : ∀ name, m.Spares name m'
  data : ∀ r, low ≤ r → r < high → m'.tables.getD r {} = m.tables.getD r {}

end Lua.Machine

namespace Execution

/-- A machine in which the steps of a program may begin in its scope: with the library and the
scopes in order, none of which hides a name of the library. -/
structure Grounded (scope : Scope) (m : Machine) : Prop where
  furnished : m.Furnished
  faithful : ∀ name, ∃ log, Faithful name log m
  chain : m.Chain scope [scope]
  above : initialTables.length ≤ m.seat scope
  clear : ∀ name, m.Declares scope name → name ∉ libraryNames

/-- A machine in which a scope was opened in that of the program, with some names in it. -/
structure Inside (scope inner : Scope) (names : List String) (m : Machine) : Prop
    extends Grounded scope m where
  within : m.Chain inner [inner, scope]
  high : initialTables.length ≤ m.seat inner
  declares : ∀ name, m.Declares inner name ↔ name ∈ names

section Places

variable {m m' : Machine} {scope inner : Scope} {names : List String}

theorem Grounded.tidy (h : Grounded scope m) : m.Tidy := by
  obtain ⟨log, faithful⟩ := h.faithful ""
  exact faithful.tidy

theorem Grounded.placed (h : Grounded scope m) : m.seat scope < m.tables.size :=
  (h.tidy.placed scope h.chain.valid).2

theorem Inside.apart (h : Inside scope inner names m) : inner ≠ scope := by
  rintro rfl
  have none : m.outer? inner = none := h.chain.outer_of_last rfl
  cases h.within with
  | inside _ next _ =>
    rw [none] at next
    cases next

/-- A scope that is opened inside holds no names. -/
theorem Grounded.opened (h : Grounded scope m) :
    Inside scope ⟨m.scopes.size⟩ [] (m.opened (some scope)) where
  furnished := h.furnished.kept (Machine.Idles.opened m _).room (fun r hr =>
    Machine.tables_opened_old m _ (Nat.lt_of_lt_of_le hr h.furnished.room)) rfl
  faithful name := by
    obtain ⟨log, faithful⟩ := h.faithful name
    exact ⟨log, faithful.opened _⟩
  chain := (Extends.opened m _).chain h.chain
  above := by
    rw [Machine.Tidy.seat_opened _ h.chain.valid]
    exact h.above
  clear name := by
    rw [Machine.Declares, Machine.record_opened m _ h.chain.valid]
    exact h.clear name
  within := @seated_inside m ⟨0, scope, []⟩ h.chain
  high := by
    rw [Machine.Tidy.seat_opened_new]
    exact Nat.le_succ_of_le h.furnished.room
  declares name := by rw [Machine.Declares, Machine.record_opened_new]

/-- Binding a name in the inner scope. -/
theorem Inside.bound (h : Inside scope inner names m) (name : String) (v : Value) :
    Inside scope inner (name :: names) (m.bound inner name v) where
  furnished := by
    refine h.furnished.kept (Nat.le_of_eq (Machine.tables_bound m inner name v).symm)
      (fun r hr => ?_) rfl
    have := h.high
    rw [Machine.table_bound, getD_changeAt_other _ _ (by omega)]
  faithful other := by
    obtain ⟨log, faithful⟩ := h.faithful other
    exact ⟨_, faithful.bound h.within.valid name v⟩
  chain := (Extends.bound m _ _ _).chain h.chain
  above := by
    rw [Machine.seat_bound]
    exact h.above
  clear other := by
    rw [Machine.declares_bound m inner scope name other v h.chain.valid]
    rintro (⟨same, -⟩ | declared)
    · exact absurd same.symm h.apart
    · exact h.clear other declared
  within := (Extends.bound m _ _ _).chain h.within
  high := by
    rw [Machine.seat_bound]
    exact h.high
  declares other := by
    rw [Machine.declares_bound m inner inner name other v h.within.valid, h.declares, List.mem_cons]
    simp

/-- Code that leaves the library and the scopes alone. -/
theorem Grounded.code (h : Grounded scope m) (grows : m.Grows m') (furnished : m'.Furnished)
    (spares : ∀ name, m.Spares name m') : Grounded scope m' := by
  have record : m'.record scope = m.record scope := by
    rw [Machine.record, Machine.record, grows.scopes]
  refine ⟨furnished, fun name => ?_, (Extends.code grows).chain h.chain, ?_, fun name => ?_⟩
  · obtain ⟨log, faithful⟩ := h.faithful name
    exact ⟨log, faithful.code grows (spares name)⟩
  · rw [Machine.seat, record]
    exact h.above
  · rw [Machine.Declares, record]
    exact h.clear name

theorem Inside.code (h : Inside scope inner names m) (grows : m.Grows m')
    (furnished : m'.Furnished) (spares : ∀ name, m.Spares name m') :
    Inside scope inner names m' := by
  have record : m'.record inner = m.record inner := by
    rw [Machine.record, Machine.record, grows.scopes]
  refine ⟨h.toGrounded.code grows furnished spares, (Extends.code grows).chain h.within, ?_,
    fun name => ?_⟩
  · rw [Machine.seat, record]
    exact h.high
  · rw [Machine.Declares, record]
    exact h.declares name

theorem Grounded.adds (h : Grounded scope m) (adds : m.Adds m') : Grounded scope m' :=
  h.code adds.grows (adds.furnished h.furnished) (adds.spares h.tidy)

theorem Inside.adds (h : Inside scope inner names m) (adds : m.Adds m') :
    Inside scope inner names m' :=
  h.code adds.grows (adds.furnished h.furnished) (adds.spares h.tidy)

/-- Expressions are evaluated below the two scopes. -/
theorem Inside.below (h : Inside scope inner names m) (new : ∀ name ∈ names, name ∉ libraryNames) :
    m.Below 2 inner [inner, scope] where
  chain := h.within
  few := Nat.le_refl _
  placed t ht := (h.tidy.placed t (h.within.mem_valid t ht)).2
  proper name := by
    obtain ⟨log, faithful⟩ := h.faithful name
    exact faithful.proper h.within
  clear t ht name declared := by
    rcases List.mem_cons.1 ht with rfl | ht
    · exact new name ((h.declares name).1 declared)
    · cases List.mem_singleton.1 ht
      exact h.clear name declared

/-- A name that the inner scope does not declare is assigned in the scope of the program. -/
theorem holder_around {name : String} (h : Inside scope inner names m) (new : name ∉ names) :
    (Scope.holder m name m.scopes.size inner).1 = scope := by
  have undeclared : name ∉ (m.record inner).declared := fun declared =>
    new ((h.declares name).1 declared)
  obtain ⟨size, two⟩ : ∃ size, m.scopes.size = size + 2 := by
    have inner_valid := h.within.valid
    have valid := h.chain.valid
    refine ⟨m.scopes.size - 2, ?_⟩
    by_contra few
    refine h.apart ?_
    cases inner
    cases scope
    simp only [Scope.mk.injEq] at *
    omega
  cases h.within with
  | inside _ next around =>
    obtain ⟨id, outer, same⟩ := Option.map_eq_some_iff.1 next
    cases around with
    | outermost _ last =>
      have last : (m.record scope).outer = none := Option.map_eq_none_iff.1 last
      rw [two]
      simp only [Scope.holder, List.contains_iff_mem, undeclared, if_false, outer, same, last]
      split <;> rfl
    | inside _ _ around => cases around

/-- After an assignment, the scope of the program holds the value, and nothing else has changed. -/
theorem Inside.assigned {name : String} (h : Inside scope inner names m) (new : name ∉ names)
    (free : name ∉ libraryNames) (v : Value) :
    Grounded scope (assigned m inner name v) ∧ (assigned m inner name v).held scope name = v ∧
      (assigned m inner name v).seat scope = m.seat scope ∧
      (assigned m inner name v).tables.size = m.tables.size ∧
      ∀ r, r ≠ m.seat scope →
        (assigned m inner name v).tables.getD r {} = m.tables.getD r {} := by
  have valid := h.chain.valid
  have faithful (other : String) : ∃ log, Faithful other log (Execution.assigned m inner name v) := by
    obtain ⟨log, faithful⟩ := h.faithful other
    exact ⟨_, faithful.assigned h.within name v⟩
  have chain := (Extends.assigned m inner name v).chain h.chain
  have above := h.above
  obtain ⟨holder, same, -, changed⟩ := assigned_cases h.within name v
  rw [holder_around h new] at same
  subst same
  rcases changed with ⟨declared, changed⟩ | changed
  · rw [changed] at faithful chain ⊢
    have tables (r : Nat) (hr : r ≠ m.seat holder) :
        (m.filled holder name v).tables.getD r {} = m.tables.getD r {} :=
      getD_changeAt_other _ _ (Ne.symm hr) _
    refine ⟨⟨h.furnished.kept (Nat.le_of_eq (changeAt_size _ _ _).symm) (fun r hr => tables r (by omega)) rfl,
      faithful, chain, above, h.clear⟩, ?_, rfl, changeAt_size _ _ _, tables⟩
    rw [h.tidy.held_filled valid valid, if_pos ⟨rfl, rfl⟩]
  · rw [changed] at faithful chain ⊢
    have tables (r : Nat) (hr : r ≠ m.seat holder) :
        (m.bound holder name v).tables.getD r {} = m.tables.getD r {} := by
      rw [Machine.table_bound, getD_changeAt_other _ _ (Ne.symm hr)]
    have size := Machine.tables_bound m holder name v
    have seat := Machine.seat_bound m holder holder name v
    refine ⟨⟨h.furnished.kept (Nat.le_of_eq size.symm) (fun r hr => tables r (by omega)) rfl,
      faithful, chain, by rwa [seat], fun other => ?_⟩, ?_, seat, size, tables⟩
    · rw [Machine.declares_bound m holder holder name other v valid]
      rintro (⟨-, rfl⟩ | declared)
      · exact free
      · exact h.clear other declared
    · rw [h.tidy.held_bound valid valid, if_pos ⟨rfl, rfl⟩]

end Places

/-! ## Calls -/

/-- Whether an outcome is that of a run, from a machine on, that performs calls of a function with
texts, in order, each one in a scope inside another. Nothing that was there changes between them.
What a call answers is assigned to the result, and the run ends when a call does not answer; at the
end, the result is the answer of the last call, and `last` where there is none. This is said of a run
whose target stands for the function whenever it is looked up. `keeps` says what code does that is
run on the way. -/
def Performs (keeps : Machine → Machine → Prop) (scope : Scope) (target result : String)
    (f : Value) : Value → List (List String) → Machine → Outcome RuntimeError (Option Nat) → Prop
  | last, [], m, o => ∃ m', m.Idles m' ∧ m'.held scope result = last ∧ o = .done none m'
  | _, texts :: calls, m, o => ∃ inner m₁, m.Idles m₁ ∧ m₁.Chain inner [inner, scope] ∧
    ∀ m₂, callable inner target m₁ = .done f m₂ → keeps m₁ m₂ → ∃ m₃, m₂.Adds m₃ ∧
      match evaluated (unlifted (invoke f (texts.map .ofString))) m₃ with
      | .done vs m₄ => keeps m₃ m₄ → Performs keeps scope target result f (first vs) calls
          (assigned m₄ inner result (first vs)) o
      | .failed e m₄ => o = .failed e m₄
      | .exhausted => o = .exhausted

section Calls

variable {m m₁ : Machine} {scope inner : Scope} {names : List String} {lits : List Literal}
  {texts : List String} {low high : Nat}

/-- How a run goes on after steps that may have ended it. -/
def goesOn (k : Machine → Outcome RuntimeError (Option Nat)) (o : Outcome RuntimeError (Option Nat)) :
    Outcome RuntimeError (Option Nat) :=
  o.andThen (fun code => match code with
    | some code => .done (some code)
    | none => k) .failed

end Calls

/-! ## Scopes of rounds and blocks -/

/-- A machine that came from one in which the steps of a program may go on, by opening a scope and
binding names there. -/
structure Begun (m : Machine) (scope inner : Scope) (names : List String) (m₁ : Machine) : Prop
    extends Inside scope inner names m₁ where
  idles : m.Idles m₁
  later : m.scopes.size ≤ inner.id
  beyond : m.tables.size ≤ m₁.seat inner

namespace Begun

variable {m m₁ m₂ : Machine} {scope inner : Scope} {names : List String}

theorem opened (h : Grounded scope m) :
    Begun m scope ⟨m.scopes.size⟩ [] (m.opened (some scope)) where
  toInside := h.opened
  idles := .opened m _
  later := Nat.le_refl _
  beyond := by
    rw [Machine.Tidy.seat_opened_new]
    exact Nat.le_succ _

theorem adds (h : Begun m scope inner names m₁) (adds : m₁.Adds m₂) :
    Begun m scope inner names m₂ where
  toInside := h.toInside.adds adds
  idles := h.idles.trans adds.idles
  later := h.later
  beyond := by
    rw [adds.seat]
    exact h.beyond

theorem bound (h : Begun m scope inner names m₁) (name : String) (v : Value) :
    Begun m scope inner (name :: names) (m₁.bound inner name v) where
  toInside := h.toInside.bound name v
  idles := h.idles.bound h.later h.beyond name v
  later := h.later
  beyond := by
    rw [Machine.seat_bound]
    exact h.beyond

/-- Declaring a known value goes on in a machine that came from the same one. -/
theorem declared {s : Session} {name : String} {l : Literal} {j : Json} {rest : List Step}
    (h : Begun m scope inner names m₁) (known : l.constant = some j) :
    ∃ m₂, Begun m scope inner (name :: names) m₂ ∧
      runSteps s (.declare name l :: rest) inner m₁ = runSteps s rest inner m₂ := by
  obtain ⟨v, m₂, value, adds⟩ := literalValue_known inner known m₁
  refine ⟨m₂.bound inner name v, (h.adds adds).bound name v, ?_⟩
  rw [runSteps, bind_apply, runStep_declare s value]
  rfl

end Begun

section Blocks

variable {s : Session} {scope : Scope} {target : String} {f : Value} {n : Nat}
  {calls : List (List String)} {steps : List Step}

end Blocks

section Loops

open Compile

variable {naming : Naming} {m : Machine} {scope inner : Scope} {n : Nat} {j : Json}
  {args items : List Json} {calls : List (List String)} {lits : List Literal} {texts : List String}

/-- What is seen in the scope of a round. -/
theorem Inside.sights (h : Inside scope inner [naming.index, naming.item] m)
    (item : m.Made (m.held inner naming.item) j)
    (index : m.Made (m.held inner naming.index) (.int n)) :
    ∃ look, m.Sights [inner, scope] look ∧
      ∀ name ∈ elementNames naming, elementSight naming n j name = look name := by
  refine ⟨fun name => if name ∈ elementNames naming then elementSight naming n j name
    else m.sight [inner, scope] name, fun name new => ?_, fun name there => (if_pos there).symm⟩
  by_cases there : name ∈ elementNames naming
  · have declared : m.Declares inner name := by
      rw [h.declares]
      simpa [elementNames, or_comm] using there
    simp only [if_pos there, Machine.meaning?_declared _ declared, elementSight]
    by_cases first : name = naming.item
    · subst first
      rw [if_pos rfl]
      exact ⟨_, rfl, item⟩
    · have second : name = naming.index := by
        simpa [elementNames, first] using there
      subst second
      rw [if_neg first, if_pos rfl]
      exact ⟨_, rfl, index⟩
  · simp only [if_neg there]
    exact m.sights_sight [inner, scope] name new

variable {s : Session} {target : String} {f : Value} {low high : Nat}

/-- What is performed after nothing has changed is performed from before. -/
theorem Performs.before {keeps : Machine → Machine → Prop} {result : String} {last : Value}
    {m m' : Machine} {o : Outcome RuntimeError (Option Nat)} (idles : m.Idles m')
    (h : Performs keeps scope target result f last calls m' o) :
    Performs keeps scope target result f last calls m o := by
  cases calls with
  | nil =>
    obtain ⟨m₁, idles₁, held, ends⟩ := h
    exact ⟨m₁, idles.trans idles₁, held, ends⟩
  | cons texts calls =>
    obtain ⟨inner, m₁, idles₁, rest⟩ := h
    exact ⟨inner, m₁, idles.trans idles₁, rest⟩

end Loops

section Agreement

open Compile

variable {c : Context} {target : Compile.Target} {args items : List Json} {text : String}
  {m₀ m₁ m₂ : Machine}

end Agreement

/-- Where a program starts, nothing has changed that was there. -/
theorem startScope_idles {naming : Naming} {m m' : Machine} {root : Scope}
    (done : startScope naming m = .done root m') :
    m.Idles m' ∧ m'.seat root = m.tables.size + 1 ∧ m'.budget = m.budget := by
  simp only [startScope, bind_done, Scope.root, Machine.new_eq, Machine.declare_eq, Run.newTable,
    pure_done] at done
  obtain ⟨_, _, opened, _, m₁, first, _, m₂, second, r, m₃, table, _, m₄, third, rfl, rfl⟩ := done
  cases opened
  cases first
  cases second
  cases table
  cases third
  have new : m.scopes.size ≤ (⟨m.scopes.size⟩ : Scope).id := Nat.le_refl _
  have beyond : m.tables.size ≤ m.tables.size + 1 := Nat.le_succ _
  have seat₁ := Machine.Tidy.seat_opened_new m none
  have seat₂ := (Machine.seat_bound (m.opened none) ⟨m.scopes.size⟩ ⟨m.scopes.size⟩ naming.result
    .nil).trans seat₁
  have seat₃ := (Machine.seat_bound _ ⟨m.scopes.size⟩ ⟨m.scopes.size⟩ naming.root .nil).trans seat₂
  have one := (Machine.Idles.opened m none).bound new (seat₁ ▸ beyond) naming.result .nil
  have two := one.bound new (seat₂ ▸ beyond) naming.root .nil
  have pushed := Machine.adds_pushTable (((m.opened none).bound ⟨m.scopes.size⟩ naming.result
    .nil).bound ⟨m.scopes.size⟩ naming.root .nil) {}
  have seat₄ := (pushed.seat ⟨m.scopes.size⟩).trans seat₃
  refine ⟨(two.trans pushed.idles).bound new (seat₄ ▸ beyond) _ _, ?_, rfl⟩
  rw [Machine.seat_bound]
  exact seat₄

/-- Where a program starts, its steps may begin. -/
theorem Grounded.start {naming : Naming} {m m' : Machine} {root : Scope} (furnished : m.Furnished)
    (empty : m.scopes.size = 0)
    (new : ∀ name ∈ [naming.result, naming.root, naming.env], name ∉ libraryNames)
    (done : startScope naming m = .done root m') : Grounded root m' := by
  have room : 0 < m.tables.size := Nat.lt_of_lt_of_le (by decide) furnished.room
  have faithful (name : String) := startScope_faithful name empty room done
  have chain := (faithful "").2.1
  obtain ⟨idles, seat, budget⟩ := startScope_idles done
  refine ⟨furnished.kept idles.room (fun r hr =>
    idles.tables r (Nat.lt_of_lt_of_le hr furnished.room)) budget, fun name => ⟨_, (faithful name).1⟩,
    chain, ?_, fun name declared => ?_⟩
  · rw [seat]
    exact Nat.le_succ_of_le furnished.room
  · rw [(faithful name).1.displayed.declares root chain.valid] at declared
    refine new name ?_
    by_contra other
    simp only [List.mem_cons, List.not_mem_nil, or_false, not_or] at other
    rw [Log.latest?_none] at declared
    · cases declared
    · intro e he _
      simp only [startLog, List.mem_cons, List.not_mem_nil, or_false] at he
      rcases he with rfl | rfl | rfl
      · exact Ne.symm other.2.2
      · exact Ne.symm other.2.1
      · exact Ne.symm other.1

/-! ## A loop that numbers its elements -/

namespace Numbered

/-- The argument of the calls. -/
def argument : Json := .str "${index}: ${item}"

/-- What the loop is compiled in. -/
def context : Compile.Context := { publicBindings := [], bindings := [], naming := {}, registry := {}, indent := 0, taskIndex := 0 }

/-- The function that is called. -/
def target : Compile.Target := ⟨.function, "print", none, {}⟩

/-- The text of the loop over a template. -/
def source : String := "$\x7b \x7b'a', 'b'\x7d \x7d"

section Runs

set_option maxRecDepth 100000

theorem is_item : IsName "item" "item" := ⟨by decide, by decide, by cbv⟩

theorem parses : Template.parse "${index}: ${item}" =
    .ok [.expr "index", .text ": ", .expr "item"] := by
  cbv

theorem apart : ∀ name ∈ ["item", "index", "result", "root", "env"], name ∉ libraryNames := by
  decide

theorem shape : (match Chunk.parse 0 (returning (Bytes.ofString "\x7b'a', 'b'\x7d")) with
    | .ok [.ret [.table _ [.item (.str _), .item (.str _)]]] => true
    | _ => false) = true := by
  decide +kernel

theorem lists : ∃ line a b, Chunk.parse 0 (returning (Bytes.ofString "\x7b'a', 'b'\x7d")) =
    .ok [.ret [.table line [.item (.str a), .item (.str b)]]] := by
  have shape := shape
  split at shape
  · rename_i line a b parsed
    exact ⟨line, a, b, parsed⟩
  · cases shape

theorem folds : (context.folder.foldExpression source (Machine.initial {})).passes (fun l _ =>
    match l with
    | .const (.arr [.str a, .str b]) => a = "a" && b = "b"
    | _ => false) = true := by
  decide +kernel

end Runs

/-- The elements. -/
def items : List Json := [.str "a", .str "b"]

end Numbered

/-! ## A call that changes a global

The function that the loop calls changes a global that the arguments read.
-/

namespace Renamed

/-- The argument of the calls. -/
def argument : String := "$\x7b_VERSION .. ':' .. item\x7d!"

/-- One task that calls the function for every element of a loop. -/
def tasks (loop : Json) : List Task :=
  [{ from_ := some "m.lua", use := some "f", args := [.str argument], loop := some loop }]

/-- The module of the function. -/
def world : World where
  files := ⟨[(["m.lua"], .file (Bytes.ofString
    "return \x7b f = function(x) print(x); _VERSION = 'changed' end \x7d"))]⟩

end Renamed

end Execution

end Tasklang
