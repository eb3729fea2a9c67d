import Tasklang.Compile.Folding
import Tasklang.Proofs.Placeholders

/-! # What is known while compiling

Placeholders are folded in a scope of their own, which declares what the compiler knows. In it a name
stands for what the compiler knows, or else for a global; any other name is unbound there.
-/

namespace Tasklang.Lua

open Code

/-- A computation that leaves the tables at the first so many places alone. -/
def Code.Leaves {ε α : Type} (n : Nat) (x : Code ε α) : Prop :=
  ∀ m : Machine, n ≤ m.tables.size →
    (x.exec m).After fun m' => ∀ r < n, m'.tables.getD r {} = m.tables.getD r {}

namespace Code.Leaves

variable {ε α β : Type} {n : Nat}

theorem pure (a : α) : Leaves n (Pure.pure a : Code ε α) := fun _ _ _ _ => rfl

theorem bind {x : Code ε α} {f : α → Code ε β} (hx : Leaves n x) (hf : ∀ a, Leaves n (f a)) :
    Leaves n (x >>= f) := by
  intro m hn
  rw [exec_bind]
  have grows := x.grows m
  have first := hx m hn
  cases h : x.exec m with
  | done a m' =>
    rw [h] at grows first
    exact (hf a m' (Nat.le_trans hn grows.tables)).imp fun _ second r hr =>
      (second r hr).trans (first r hr)
  | failed e m' =>
    rw [h] at first
    exact first
  | exhausted => trivial

theorem modifyTable {r : TableRef} (f : Table → Table) (new : n ≤ r) :
    Leaves n (Code.modifyTable r f : Code ε Unit) := fun m _ r' hr' =>
  getD_changeAt_other m.tables {} (Nat.ne_of_gt (Nat.lt_of_lt_of_le hr' new)) f

/-- A new table stands after all others. -/
theorem newTable_bind (t : Table) {f : TableRef → Code ε β} (hf : ∀ r, n ≤ r → Leaves n (f r)) :
    Leaves n (Code.newTable t >>= f) := by
  intro m hn
  have pushed : n ≤ (m.tables.push t).size := by
    rw [Array.size_push]
    omega
  refine (hf m.tables.size hn { m with tables := m.tables.push t } pushed).imp fun m' h r hr => ?_
  exact (h r hr).trans (getD_push_other m.tables {} (by omega) t)

end Code.Leaves

namespace Value

variable {ε : Type} {n : Nat}

mutual

/-- Making the value of structured data leaves all tables alone that there are. -/
theorem make_leaves (absent : Value) (j : Json) : (make absent j : Code ε Value).Leaves n := by
  cases j with
  | arr items =>
    exact .newTable_bind _ fun r hr => .bind (fillItems_leaves absent r 1 items hr) fun _ => .pure _
  | obj entries =>
    exact .newTable_bind _ fun r hr => .bind (fillEntries_leaves absent r entries hr) fun _ => .pure _
  | _ => exact .pure _

theorem fillItems_leaves (absent : Value) (r : TableRef) (i : Nat) (items : List Json)
    (new : n ≤ r) : (fillItems absent r i items : Code ε Unit).Leaves n := by
  cases items with
  | nil => exact .pure _
  | cons v vs =>
    exact .bind (make_leaves absent v) fun _ => .bind (.modifyTable _ new) fun _ =>
      fillItems_leaves absent r (i + 1) vs new

theorem fillEntries_leaves (absent : Value) (r : TableRef) (entries : List (String × Json))
    (new : n ≤ r) : (fillEntries absent r entries : Code ε Unit).Leaves n := by
  cases entries with
  | nil => exact .pure _
  | cons e es =>
    exact .bind (make_leaves absent e.2) fun _ => .bind (.modifyTable _ new) fun _ =>
      fillEntries_leaves absent r es new

end

end Value

/-- A computation that always comes to a value. -/
def Code.Ends {ε α : Type} (x : Code ε α) : Prop := ∀ m : Machine, ∃ a m', x.exec m = .done a m'

namespace Code.Ends

variable {ε α β : Type}

theorem pure (a : α) : Ends (Pure.pure a : Code ε α) := fun m => ⟨a, m, rfl⟩

theorem bind {x : Code ε α} {f : α → Code ε β} (hx : Ends x) (hf : ∀ a, Ends (f a)) :
    Ends (x >>= f) := by
  intro m
  obtain ⟨a, m₁, first⟩ := hx m
  obtain ⟨b, m₂, second⟩ := hf a m₁
  exact ⟨b, m₂, by rw [exec_bind, first, Outcome.andThen_done, second]⟩

theorem newTable (t : Table) : Ends (Code.newTable t : Code ε TableRef) := fun _ => ⟨_, _, rfl⟩

theorem modifyTable (r : TableRef) (f : Table → Table) :
    Ends (Code.modifyTable r f : Code ε Unit) := fun _ => ⟨_, _, rfl⟩

end Code.Ends

section Making

variable {ε : Type}

mutual

/-- Structured data always has a value. -/
theorem Value.make_ends (absent : Value) (j : Json) : (make absent j : Code ε Value).Ends := by
  cases j with
  | arr items =>
    exact .bind (.newTable _) fun r => .bind (fillItems_ends absent r 1 items) fun _ => .pure _
  | obj entries =>
    exact .bind (.newTable _) fun r => .bind (fillEntries_ends absent r entries) fun _ => .pure _
  | _ => exact .pure _

theorem Value.fillItems_ends (absent : Value) (r : TableRef) (i : Nat) (items : List Json) :
    (fillItems absent r i items : Code ε Unit).Ends := by
  cases items with
  | nil => exact .pure _
  | cons v vs =>
    exact .bind (make_ends absent v) fun _ => .bind (.modifyTable _ _) fun _ =>
      fillItems_ends absent r (i + 1) vs

theorem Value.fillEntries_ends (absent : Value) (r : TableRef) (entries : List (String × Json)) :
    (fillEntries absent r entries : Code ε Unit).Ends := by
  cases entries with
  | nil => exact .pure _
  | cons e es =>
    exact .bind (make_ends absent e.2) fun _ => .bind (.modifyTable _ _) fun _ =>
      fillEntries_ends absent r es

end

/-- Bindings can always be declared. -/
theorem Scope.declareAll_ends (s : Scope) (bindings : Bindings) (m : Machine) :
    ∃ m', (s.declareAll bindings : Run ε Unit) m = .done () m' := by
  induction bindings generalizing m with
  | nil => exact ⟨m, rfl⟩
  | cons e rest ih =>
    obtain ⟨v, m₁, made⟩ := (Value.make_ends .nil e.2 : (Value.make .nil e.2 : Code ε Value).Ends) m
    obtain ⟨m', declared⟩ := ih (m₁.bound s e.1 v)
    refine ⟨m', ?_⟩
    simp only [Scope.declareAll, Run.bind_done, Machine.declare_eq]
    exact ⟨v, m₁, made, _, _, rfl, declared⟩

/-- A scope for bindings can always be opened. -/
theorem Scope.ofBindings_ends (bindings : Bindings) (m : Machine) :
    ∃ s m', (Scope.ofBindings bindings : Run ε Scope) m = .done s m' := by
  obtain ⟨m', declared⟩ := @Scope.declareAll_ends ε ⟨m.scopes.size⟩ bindings (m.opened none)
  refine ⟨⟨m.scopes.size⟩, m', ?_⟩
  simp only [Scope.ofBindings, Scope.root, Run.bind_done, Machine.new_eq, Run.pure_done]
  exact ⟨_, _, rfl, _, _, declared, rfl, rfl⟩

end Making

/-- What holds of a scope that was opened in a machine `m₀` outside of all others and in which some
names were declared since then. -/
structure Knows (m₀ : Machine) (names : List String) (s : Scope) (m : Machine) : Prop where
  seat : m.seat s = m₀.tables.size + 1
  room : m₀.tables.size + 2 ≤ m.tables.size
  chain : m.Chain s [s]
  wired : m.Wired s
  declares : ∀ x, m.Declares s x ↔ x ∈ names
  bare : ∀ x, x ∉ names → m.held s x = .nil
  old : ∀ r < m₀.tables.size, m.tables.getD r {} = m₀.tables.getD r {}
  budget : m.budget = m₀.budget

namespace Knows

variable {m₀ m m' : Machine} {names : List String} {s : Scope}

/-- A scope that was just opened knows nothing. -/
theorem opened (m : Machine) : Knows m [] ⟨m.scopes.size⟩ (m.opened none) where
  seat := Machine.Tidy.seat_opened_new m none
  room := Nat.le_of_eq (Machine.tables_opened m none).symm
  chain := by
    refine .outermost ?_ ?_
    · rw [Machine.scopes_opened]
      exact Nat.lt_succ_self _
    · rw [Machine.outer?, Machine.record_opened_new]
      rfl
  wired := Machine.Tidy.wired_opened_new m none
  declares x := by rw [Machine.Declares, Machine.record_opened_new]
  bare x _ := Machine.Tidy.held_opened_new m none x
  old r hr := Machine.tables_opened_old m none hr
  budget := rfl

/-- Code that leaves alone what there was keeps what a scope knows. -/
theorem code (h : Knows m₀ names s m) (grows : m.Grows m')
    (left : ∀ r < m₀.tables.size + 2, m'.tables.getD r {} = m.tables.getD r {}) :
    Knows m₀ names s m' := by
  have records : m'.record s = m.record s := by rw [Machine.record, Machine.record, grows.scopes]
  have seats : m'.seat s = m.seat s := by rw [Machine.seat, Machine.seat, records]
  have here : m'.tables.getD (m'.seat s) {} = m.tables.getD (m.seat s) {} := by
    rw [seats, h.seat]
    exact left _ (by omega)
  have there : m'.tables.getD (m'.seat s - 1) {} = m.tables.getD (m.seat s - 1) {} := by
    rw [seats, h.seat]
    exact left _ (by omega)
  refine ⟨seats.trans h.seat, Nat.le_trans h.room grows.tables, ?_, ?_, fun x => ?_, fun x new => ?_,
    fun r hr => (left r (by omega)).trans (h.old r hr), grows.budget.trans h.budget⟩
  · refine .outermost ?_ ?_
    · rw [grows.scopes]
      exact h.chain.valid
    · rw [Machine.outer?, records]
      exact h.chain.outer_of_last rfl
  · rw [Machine.Wired, here, there, seats]
    exact h.wired
  · rw [Machine.Declares, records]
    exact h.declares x
  · rw [Machine.held, here]
    exact h.bare x new

/-- A scope in which a name is bound knows that name too. -/
theorem bound (h : Knows m₀ names s m) (name : String) (v : Value) :
    Knows m₀ (name :: names) s (m.bound s name v) := by
  have inside := h.chain.valid
  have meta_ : (m.bound s name v).tables.getD (m.seat s - 1) {} =
      m.tables.getD (m.seat s - 1) {} := by
    rw [Machine.table_bound]
    refine getD_changeAt_other _ _ ?_ _
    have := h.seat
    omega
  have here : (m.bound s name v).tables.getD (m.seat s) {} =
      (m.tables.getD (m.seat s) {}).setField name v := by
    rw [Machine.table_bound]
    refine getD_changeAt_same _ _ ?_ _
    rw [h.seat]
    have := h.room
    omega
  refine ⟨?_, ?_, ?_, ?_, fun x => ?_, fun x new => ?_, fun r hr => ?_, h.budget⟩
  · rw [Machine.seat_bound]
    exact h.seat
  · rw [Machine.tables_bound]
    exact h.room
  · refine .outermost ?_ ?_
    · rwa [Machine.scopes_bound]
    · rw [Machine.outer?_bound m s s name v inside]
      exact h.chain.outer_of_last rfl
  · rw [Machine.Wired, Machine.seat_bound, here, meta_, Table.metatable_setField]
    exact h.wired
  · rw [Machine.declares_bound m s s name x v inside, h.declares, List.mem_cons]
    simp
  · rw [List.mem_cons, not_or] at new
    rw [Machine.held, Machine.seat_bound, here, Table.field_setField_other _ _ new.1]
    exact h.bare x new.2
  · rw [Machine.table_bound, getD_changeAt_other _ _ (by rw [h.seat]; omega)]
    exact h.old r hr

/-- Declaring bindings adds their names. -/
theorem declareAll {ε : Type} {bindings : Bindings} (h : Knows m₀ names s m)
    (done : (s.declareAll bindings : Run ε Unit) m = .done () m') :
    Knows m₀ (bindings.names.reverse ++ names) s m' := by
  induction bindings generalizing names m with
  | nil =>
    cases done
    exact h
  | cons e rest ih =>
    simp only [Scope.declareAll, Run.bind_done, Machine.declare_eq] at done
    obtain ⟨v, m₁, made, _, m₂, bound, done⟩ := done
    cases bound
    have grows : m.Grows m₁ := by
      have after := (Value.make .nil e.2 : Code ε Value).grows m
      rwa [show (Value.make .nil e.2 : Code ε Value).exec m = .done v m₁ from made] at after
    have left : ∀ r < m₀.tables.size + 2, m₁.tables.getD r {} = m.tables.getD r {} := by
      have after := (Value.make_leaves .nil e.2 : (Value.make .nil e.2 : Code ε Value).Leaves _) m
        h.room
      rwa [show (Value.make .nil e.2 : Code ε Value).exec m = .done v m₁ from made] at after
    have more := ih ((h.code grows left).bound e.1 v) done
    simpa [Bindings.names] using more

/-- The scope in which placeholders are folded knows the names of the bindings. -/
theorem ofBindings {ε : Type} {bindings : Bindings}
    (done : (Scope.ofBindings bindings : Run ε Scope) m = .done s m') :
    Knows m bindings.names.reverse s m' := by
  simp only [Scope.ofBindings, Scope.root, Run.bind_done, Machine.new_eq, Run.pure_done] at done
  obtain ⟨_, _, new, _, _, declared, rfl, rfl⟩ := done
  cases new
  have knows := (opened m).declareAll declared
  rwa [List.append_nil] at knows

/-- Code that is run in the scope of some names, and leaves what it holds for a name alone. -/
structure Kept (s : Scope) (x : String) (m m' : Machine) : Prop where
  grows : m.Grows m'
  held : m'.held s x = m.held s x
  wired : m'.Wired s

variable {x : String}

/-- A name stands for nothing exactly when the scope does not know it and it is no global. -/
theorem meaning?_none (h : Knows m₀ names s m) (left : Kept s x m m') :
    m'.meaning? x [s] = none ↔ x ∉ names ∧ m'.global x = .nil := by
  have declares : m'.Declares s x ↔ x ∈ names := by
    rw [Machine.Declares, Machine.record, left.grows.scopes]
    exact h.declares x
  by_cases known : x ∈ names
  · rw [Machine.meaning?_declared _ (declares.2 known)]
    simp [known]
  · rw [Machine.meaning?_inside _ fun declared => known (declares.1 declared), Machine.meaning?,
      Machine.binding?]
    cases value : m'.global x <;> simp [known]

/-- Code that is folded reads what a name stands for in the scope of the bindings. -/
theorem reads (h : Knows m₀ names s m) (left : Kept s x m m')
    (plain : m'.meaning? x [s] = none → m'.PlainGlobals) : m'.Reads s x (m'.meaning? x [s]) := by
  have records : m'.record s = m.record s := by
    rw [Machine.record, Machine.record, left.grows.scopes]
  have chain : m'.Chain s [s] := by
    refine .outermost ?_ ?_
    · rw [left.grows.scopes]
      exact h.chain.valid
    · rw [Machine.outer?, records]
      exact h.chain.outer_of_last rfl
  refine chain.reads (fun t ht => ?_) plain (by simp)
  cases List.mem_singleton.1 ht
  refine ⟨left.wired, fun new => ?_⟩
  rw [left.held]
  refine h.bare x fun known => new ?_
  rw [Machine.Declares, records]
  exact (h.declares x).2 known

end Knows

/-- A machine in which code can be loaded, and whose globals have no metatable. -/
structure Machine.Ready (m : Machine) : Prop where
  plain : m.PlainGlobals
  room : 0 < m.tables.size
  budget : 6 ≤ m.budget

/-- A placeholder has the value that evaluating it gave, or is deferred for an unbound name. -/
theorem tryEval_done {f : Folder} {source : String} {m m' : Machine} {found : Option Json} :
    f.tryEval source m = .done found m' ↔ match found with
      | some v => evaluate source f.bindings m = .done v m'
      | none => ∃ name, f.mayDefer name = true ∧
        evaluate source f.bindings m = .failed (.unbound name) m' := by
  simp only [Folder.tryEval, Run.bind_apply, Run.attempt_apply]
  cases evaluate source f.bindings m with
  | done v m₁ => cases found <;> simp [Run.pure_apply]
  | exhausted => cases found <;> simp
  | failed e m₁ =>
    cases e with
    | failed fault => cases found <;> simp [Run.throw]
    | unbound name =>
      simp only [Outcome.andThen_failed, Outcome.andThen_done]
      split <;> cases found <;> simp_all [Run.throw, Run.pure_apply]

/-- A placeholder that is a name is folded exactly when the name is known while compiling or a
global; else it is deferred. -/
theorem tryEval_name {f : Folder} {source name : String} {m m' : Machine} {found : Option Json}
    (is_ : IsName source name) (ready : m.Ready) (done : f.tryEval source m = .done found m') :
    found = none ↔ name ∉ f.bindings.names ∧ m.global name = .nil := by
  obtain ⟨s, m₁, opened⟩ := @Scope.ofBindings_ends EvalError f.bindings m
  have knows := Knows.ofBindings opened
  have old : (m₁.loaded s source [.ret [.name name]]).tables.getD globalsRef {} =
      m.tables.getD globalsRef {} := knows.old 0 ready.room
  have left : Knows.Kept s name m₁ (m₁.loaded s source [.ret [.name name]]) :=
    ⟨m₁.grows_loaded s source _, rfl, knows.wired⟩
  have plain : (m₁.loaded s source [.ret [.name name]]).PlainGlobals := by
    rw [Machine.PlainGlobals, old]
    exact ready.plain
  have unknown := knows.meaning?_none left
  rw [Machine.global, old, List.mem_reverse] at unknown
  have yields := (knows.reads left fun _ => plain).eval is_ (knows.budget ▸ ready.budget)
  rw [Machine.global, ← unknown]
  simp only [Folder.tryEval, evaluate, Run.bind_apply, Run.attempt_apply, opened,
    Outcome.andThen_done] at done
  cases meaning : (m₁.loaded s source [.ret [.name name]]).meaning? name [s] with
  | some v =>
    rw [meaning] at yields
    rw [show s.eval source m₁ = _ from yields, Outcome.andThen_done] at done
    simp only [structuredForm, Run.code_apply, Code.exec_mapError] at done
    simp only [reduceCtorEq, iff_false]
    rintro rfl
    cases json : (Value.toJson v).exec (m₁.loaded s source [.ret [.name name]]) with
    | done j m₂ =>
      rw [json] at done
      cases done
    | failed e m₂ =>
      rw [json] at done
      cases done
    | exhausted =>
      rw [json] at done
      cases done
  | none =>
    rw [meaning] at yields
    obtain ⟨m₂, failed⟩ := yields
    simp only [failed, Outcome.andThen_failed, Outcome.andThen_done] at done
    simp only [iff_true]
    split at done
    · cases done
      rfl
    · cases done

end Tasklang.Lua
