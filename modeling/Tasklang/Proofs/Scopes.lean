import Tasklang.Proofs.Fields
import Tasklang.Proofs.Quiet

/-! # Scopes of a machine

What a machine says about its scopes: the value that a scope holds for a name, and the scopes around
it. Opening a scope and binding a name are changes of the machine, and only these two touch scopes;
code can reach the table of a scope, and what it must leave alone is said by `Spares`.
-/

namespace Tasklang.Lua

section Places

variable {α : Type} (xs : Array α) (d : α)

theorem getD_changeAt_same {i : Nat} (h : i < xs.size) (f : α → α) :
    (changeAt xs i f).getD i d = f (xs.getD i d) := by
  simp [changeAt, Array.getD_eq_getD_getElem?, Array.getElem_modify_self, h]

theorem getD_changeAt_other {i j : Nat} (h : i ≠ j) (f : α → α) :
    (changeAt xs i f).getD j d = xs.getD j d := by
  simp [changeAt, Array.getD_eq_getD_getElem?, Array.getElem?_modify, h]

theorem getD_push_same (x : α) : (xs.push x).getD xs.size d = x := by
  simp [Array.getD_eq_getD_getElem?]

theorem getD_push_other {i : Nat} (h : i ≠ xs.size) (x : α) :
    (xs.push x).getD i d = xs.getD i d := by
  simp [Array.getD_eq_getD_getElem?, Array.getElem?_push, h]

@[simp] theorem changeAt_size (i : Nat) (f : α → α) : (changeAt xs i f).size = xs.size := by
  simp [changeAt]

end Places

namespace Machine

variable {m m' m'' : Machine}

/-- The place of the table of a scope. -/
def seat (m : Machine) (s : Scope) : Nat := (m.record s).table

/-- The value that a scope itself holds for a name. -/
def held (m : Machine) (s : Scope) (name : String) : Value :=
  (m.tables.getD (m.seat s) {}).field name

/-- Whether a name is declared in a scope. -/
def Declares (m : Machine) (s : Scope) (name : String) : Prop :=
  name ∈ (m.record s).declared

/-- The scope around another. -/
def outer? (m : Machine) (s : Scope) : Option Scope := (m.record s).outer.map Scope.mk

/-- Whether the table of a scope asks the scope for what it does not hold. -/
def Wired (m : Machine) (s : Scope) : Prop :=
  (m.tables.getD (m.seat s) {}).metatable = some (m.seat s - 1) ∧
    (m.tables.getD (m.seat s - 1) {}).field "__index" = .function (.scopeLookup s.id)

/-- What holds of the scopes of a machine: each has a table and a metatable of its own, by which
names that are not declared are looked up outward. -/
structure Tidy (m : Machine) : Prop where
  placed : ∀ s : Scope, s.id < m.scopes.size → 1 < m.seat s ∧ m.seat s < m.tables.size
  apart : ∀ s t : Scope, s.id < t.id → t.id < m.scopes.size → m.seat s + 1 < m.seat t
  wired : ∀ s : Scope, s.id < m.scopes.size → m.Wired s

/-- Whether every scope of a machine has a table and a metatable of its own. -/
structure Spaced (m : Machine) : Prop where
  placed : ∀ s : Scope, s.id < m.scopes.size → 1 < m.seat s ∧ m.seat s < m.tables.size
  apart : ∀ s t : Scope, s.id < t.id → t.id < m.scopes.size → m.seat s + 1 < m.seat t

theorem Tidy.spaced (h : m.Tidy) : m.Spaced := ⟨h.placed, h.apart⟩

/-- Whether scopes hold nothing for a name that they do not declare. -/
def Bare (m : Machine) (name : String) : Prop :=
  ∀ s : Scope, s.id < m.scopes.size → ¬m.Declares s name → m.held s name = .nil

/-- What code leaves alone that does not meddle with a name: the values that scopes hold for it,
and the wires between scopes. -/
def Spares (name : String) (m m' : Machine) : Prop :=
  ∀ s : Scope, s.id < m.scopes.size →
    m'.held s name = m.held s name ∧ (m.Wired s → m'.Wired s)

theorem Spares.trans {name : String} {m m' m'' : Machine} (h : m.Spares name m')
    (grows : m.Grows m') (h' : m'.Spares name m'') : m.Spares name m'' := by
  intro s hs
  have first := h s hs
  have second := h' s (by rwa [grows.scopes])
  exact ⟨second.1.trans first.1, fun wired => second.2 (first.2 wired)⟩

/-- The machine in which a scope was opened. -/
def opened (m : Machine) (outer : Option Scope) : Machine :=
  { m with
    tables := (m.tables.push (({} : Table).setField "__index"
      (.function (.scopeLookup m.scopes.size)))).push { metatable := some m.tables.size }
    scopes := m.scopes.push { table := m.tables.size + 1, outer := outer.map (·.id) } }

/-- The machine in which the table of a scope was given a field. -/
def filled (m : Machine) (s : Scope) (name : String) (v : Value) : Machine :=
  { m with tables := changeAt m.tables (m.seat s) fun t => t.setField name v }

/-- The machine in which a name was bound in a scope. -/
def bound (m : Machine) (s : Scope) (name : String) (v : Value) : Machine :=
  ({ m with scopes := changeAt m.scopes s.id (ScopeRecord.add name) } : Machine).filled s name v

theorem new_eq {ε : Type} (m : Machine) (outer : Option Scope) :
    (Scope.new outer : Run ε Scope) m = .done ⟨m.scopes.size⟩ (m.opened outer) := rfl

theorem declare_eq {ε : Type} (m : Machine) (s : Scope) (name : String) (v : Value) :
    (s.declare name v : Run ε Unit) m = .done () (m.bound s name v) := rfl

section Records

variable (m)

theorem record_bound (s t : Scope) (name : String) (v : Value) (h : t.id < m.scopes.size) :
    (m.bound s name v).record t =
      if t = s then ScopeRecord.add name (m.record t) else m.record t := by
  by_cases heq : t = s
  · subst heq
    rw [if_pos rfl]
    exact getD_changeAt_same m.scopes _ h _
  · have hid : s.id ≠ t.id := by
      intro hid
      exact heq (by cases s; cases t; simp_all)
    rw [if_neg heq]
    exact getD_changeAt_other m.scopes _ hid _

theorem record_add (name : String) (r : ScopeRecord) :
    (r.add name).table = r.table ∧ (r.add name).outer = r.outer := by
  unfold ScopeRecord.add
  split <;> exact ⟨rfl, rfl⟩

theorem mem_add (name other : String) (r : ScopeRecord) :
    other ∈ (r.add name).declared ↔ other = name ∨ other ∈ r.declared := by
  unfold ScopeRecord.add
  split
  · rename_i h
    have there : name ∈ r.declared := by simpa using h
    constructor
    · exact Or.inr
    · rintro (rfl | h)
      · exact there
      · exact h
  · exact List.mem_cons

@[simp] theorem seat_bound (s t : Scope) (name : String) (v : Value) :
    (m.bound s name v).seat t = m.seat t := by
  by_cases h : t.id < m.scopes.size
  · simp only [seat, record_bound m s t name v h]
    split
    · exact (record_add name _).1
    · rfl
  · have out : ∀ xs : Array ScopeRecord, xs.size = m.scopes.size → xs.getD t.id default = default := by
      intro xs hx
      simp [Array.getD_eq_getD_getElem?, show ¬t.id < xs.size by omega]
    show ((changeAt m.scopes s.id (ScopeRecord.add name)).getD t.id default).table =
      (m.scopes.getD t.id default).table
    rw [out _ (by simp), out _ rfl]

theorem declares_bound (s t : Scope) (name other : String) (v : Value)
    (h : t.id < m.scopes.size) :
    (m.bound s name v).Declares t other ↔ (t = s ∧ other = name) ∨ m.Declares t other := by
  simp only [Declares, record_bound m s t name v h]
  split
  · rename_i heq
    simp only [mem_add, heq, true_and]
  · rename_i hne
    simp only [hne, false_and, false_or]

theorem outer?_bound (s t : Scope) (name : String) (v : Value) (h : t.id < m.scopes.size) :
    (m.bound s name v).outer? t = m.outer? t := by
  simp only [outer?, record_bound m s t name v h]
  split
  · rw [(record_add name _).2]
  · rfl

@[simp] theorem scopes_bound (s : Scope) (name : String) (v : Value) :
    (m.bound s name v).scopes.size = m.scopes.size := by
  simp [bound, filled]

@[simp] theorem tables_bound (s : Scope) (name : String) (v : Value) :
    (m.bound s name v).tables.size = m.tables.size := by
  simp [bound, filled]

/-- The tables after a name was bound. -/
theorem table_bound (s : Scope) (name : String) (v : Value) :
    (m.bound s name v).tables = changeAt m.tables (m.seat s) fun t => t.setField name v := by
  rw [← seat_bound m s s name v]
  rfl

end Records

namespace Spaced

/-- Scopes with the same table are the same. -/
theorem seat_injective (h : m.Spaced) {s t : Scope} (hs : s.id < m.scopes.size)
    (ht : t.id < m.scopes.size) (heq : m.seat s = m.seat t) : s = t := by
  rcases Nat.lt_trichotomy s.id t.id with hlt | hid | hgt
  · have := h.apart s t hlt ht
    omega
  · cases s
    cases t
    simp_all
  · have := h.apart t s hgt hs
    omega

/-- What the scopes hold after a field of one was changed. -/
theorem held_changed (h : m.Spaced) {s t : Scope} (hs : s.id < m.scopes.size)
    (ht : t.id < m.scopes.size) {name : String} {v : Value}
    (seats : ∀ t, m'.seat t = m.seat t)
    (tables : m'.tables = changeAt m.tables (m.seat s) fun t => t.setField name v)
    (other : String) :
    m'.held t other = if t = s ∧ other = name then v else m.held t other := by
  simp only [held, seats, tables]
  by_cases heq : t = s
  · subst heq
    rw [getD_changeAt_same _ _ (h.placed t ht).2]
    by_cases hname : other = name
    · subst hname
      simp
    · rw [if_neg (by simp [hname]), Table.field_setField_other _ _ hname]
  · have apart : m.seat s ≠ m.seat t := fun hseat => heq (h.seat_injective hs ht hseat).symm
    rw [getD_changeAt_other _ _ apart, if_neg (by simp [heq])]

theorem held_bound (h : m.Spaced) {s t : Scope} (hs : s.id < m.scopes.size)
    (ht : t.id < m.scopes.size) (name other : String) (v : Value) :
    (m.bound s name v).held t other = if t = s ∧ other = name then v else m.held t other :=
  h.held_changed hs ht (fun t => seat_bound m s t name v) (table_bound m s name v) other

theorem held_filled (h : m.Spaced) {s t : Scope} (hs : s.id < m.scopes.size)
    (ht : t.id < m.scopes.size) (name other : String) (v : Value) :
    (m.filled s name v).held t other = if t = s ∧ other = name then v else m.held t other :=
  @held_changed m (m.filled s name v) h s t hs ht name v (fun _ => rfl) rfl other

/-- Binding a name leaves the tables of scopes in their places. -/
theorem bound (h : m.Spaced) (s : Scope) (name : String) (v : Value) :
    (m.bound s name v).Spaced where
  placed t ht := by
    rw [scopes_bound] at ht
    rw [seat_bound, tables_bound]
    exact h.placed t ht
  apart t u htu hu := by
    rw [scopes_bound] at hu
    rw [seat_bound, seat_bound]
    exact h.apart t u htu hu

/-- Giving a name another value leaves the tables of scopes in their places. -/
theorem filled (h : m.Spaced) (s : Scope) (name : String) (v : Value) :
    (m.filled s name v).Spaced where
  placed t ht := by
    show 1 < m.seat t ∧ m.seat t < (changeAt m.tables (m.seat s) _).size
    rw [changeAt_size]
    exact h.placed t ht
  apart t u htu hu := h.apart t u htu hu

/-- Code leaves the tables of scopes in their places. -/
theorem code (h : m.Spaced) (grows : m.Grows m') : m'.Spaced := by
  have seats (s : Scope) : m'.seat s = m.seat s := by rw [seat, seat, record, record, grows.scopes]
  have size : m'.scopes.size = m.scopes.size := by rw [grows.scopes]
  refine ⟨fun s hs => ?_, fun s t hst ht => ?_⟩
  · rw [size] at hs
    have := h.placed s hs
    have := grows.tables
    rw [seats]
    omega
  · rw [size] at ht
    rw [seats, seats]
    exact h.apart s t hst ht

end Spaced

namespace Tidy

/-- The table of a scope is the metatable of none. -/
theorem seat_ne_meta (h : m.Tidy) {s t : Scope} (hs : s.id < m.scopes.size)
    (ht : t.id < m.scopes.size) : m.seat s ≠ m.seat t - 1 := by
  have := h.placed t ht
  rcases Nat.lt_trichotomy s.id t.id with hlt | hid | hgt
  · have := h.apart s t hlt ht
    omega
  · have heq : s = t := by
      cases s
      cases t
      simp_all
    subst heq
    omega
  · have := h.apart t s hgt hs
    omega

theorem wired_changed (h : m.Tidy) {s t : Scope} (hs : s.id < m.scopes.size)
    (ht : t.id < m.scopes.size) {name : String} {v : Value}
    (seats : ∀ t, m'.seat t = m.seat t)
    (tables : m'.tables = changeAt m.tables (m.seat s) fun t => t.setField name v) :
    m'.Wired t := by
  obtain ⟨meta_, index⟩ := h.wired t ht
  simp only [Wired, seats, tables]
  rw [getD_changeAt_other _ _ (h.seat_ne_meta hs ht)]
  refine ⟨?_, index⟩
  by_cases heq : s = t
  · subst heq
    rw [getD_changeAt_same _ _ (h.placed s hs).2, Table.metatable_setField, meta_]
  · rw [getD_changeAt_other _ _ fun hseat => heq (h.spaced.seat_injective hs ht hseat), meta_]

theorem held_bound (h : m.Tidy) {s t : Scope} (hs : s.id < m.scopes.size)
    (ht : t.id < m.scopes.size) (name other : String) (v : Value) :
    (m.bound s name v).held t other = if t = s ∧ other = name then v else m.held t other :=
  h.spaced.held_bound hs ht name other v

theorem held_filled (h : m.Tidy) {s t : Scope} (hs : s.id < m.scopes.size)
    (ht : t.id < m.scopes.size) (name other : String) (v : Value) :
    (m.filled s name v).held t other = if t = s ∧ other = name then v else m.held t other :=
  h.spaced.held_filled hs ht name other v

/-- Binding a name keeps the scopes tidy. -/
theorem bound (h : m.Tidy) {s : Scope} (hs : s.id < m.scopes.size) (name : String) (v : Value) :
    (m.bound s name v).Tidy where
  placed := (h.spaced.bound s name v).placed
  apart := (h.spaced.bound s name v).apart
  wired t ht := by
    rw [scopes_bound] at ht
    exact h.wired_changed hs ht (fun t => seat_bound m s t name v) (table_bound m s name v)

/-- Giving a name another value keeps the scopes tidy. -/
theorem filled (h : m.Tidy) {s : Scope} (hs : s.id < m.scopes.size) (name : String) (v : Value) :
    (m.filled s name v).Tidy where
  placed := (h.spaced.filled s name v).placed
  apart := (h.spaced.filled s name v).apart
  wired t ht := @wired_changed m (m.filled s name v) h s t hs ht name v (fun _ => rfl) rfl

end Tidy

section Opening

variable (m) (outer : Option Scope)

@[simp] theorem scopes_opened : (m.opened outer).scopes.size = m.scopes.size + 1 := by
  simp [opened]

@[simp] theorem tables_opened : (m.opened outer).tables.size = m.tables.size + 2 := by
  simp [opened]

theorem record_opened {s : Scope} (h : s.id < m.scopes.size) :
    (m.opened outer).record s = m.record s :=
  getD_push_other _ _ (Nat.ne_of_lt h) _

theorem record_opened_new : (m.opened outer).record ⟨m.scopes.size⟩ =
    { table := m.tables.size + 1, outer := outer.map (·.id) } :=
  getD_push_same _ _ _

theorem tables_opened_old {r : Nat} (h : r < m.tables.size) :
    (m.opened outer).tables.getD r {} = m.tables.getD r {} := by
  simp only [opened]
  rw [getD_push_other _ _ (by simp; omega), getD_push_other _ _ (by omega)]

theorem tables_opened_meta : (m.opened outer).tables.getD m.tables.size {} =
    ({} : Table).setField "__index" (.function (.scopeLookup m.scopes.size)) := by
  simp only [opened]
  rw [getD_push_other _ _ (by simp), getD_push_same]

theorem tables_opened_new : (m.opened outer).tables.getD (m.tables.size + 1) {} =
    { metatable := some m.tables.size } := by
  simp only [opened]
  have last := getD_push_same (m.tables.push (({} : Table).setField "__index"
    (.function (.scopeLookup m.scopes.size)))) {} { metatable := some m.tables.size }
  rwa [Array.size_push] at last

end Opening

namespace Tidy

theorem seat_opened (outer : Option Scope) {s : Scope} (hs : s.id < m.scopes.size) :
    (m.opened outer).seat s = m.seat s := by
  rw [seat, record_opened m outer hs, seat]

theorem seat_opened_new (m : Machine) (outer : Option Scope) :
    (m.opened outer).seat ⟨m.scopes.size⟩ = m.tables.size + 1 := by
  rw [seat, record_opened_new]

/-- A scope of a machine in which one was opened is an old one or the new one. -/
theorem cases_opened {outer : Option Scope} {s : Scope}
    (h : s.id < (m.opened outer).scopes.size) : s.id < m.scopes.size ∨ s = ⟨m.scopes.size⟩ := by
  rw [scopes_opened] at h
  rcases Nat.lt_succ_iff_lt_or_eq.1 h with hlt | heq
  · exact .inl hlt
  · exact .inr (by cases s; simp_all)

end Tidy

namespace Spaced

theorem held_opened (h : m.Spaced) (outer : Option Scope) {s : Scope} (hs : s.id < m.scopes.size)
    (name : String) : (m.opened outer).held s name = m.held s name := by
  rw [held, Tidy.seat_opened outer hs, tables_opened_old m outer (h.placed s hs).2, held]

/-- Opening a scope puts its tables after all others. -/
theorem opened (h : m.Spaced) (room : 0 < m.tables.size) (outer : Option Scope) :
    (m.opened outer).Spaced where
  placed s hs := by
    rcases Tidy.cases_opened hs with old | rfl
    · have := h.placed s old
      rw [Tidy.seat_opened outer old, tables_opened]
      omega
    · rw [Tidy.seat_opened_new, tables_opened]
      omega
  apart s t hst ht := by
    rcases Tidy.cases_opened ht with old | rfl
    · rw [Tidy.seat_opened outer (Nat.lt_trans hst old), Tidy.seat_opened outer old]
      exact h.apart s t hst old
    · have := h.placed s hst
      rw [Tidy.seat_opened outer hst, Tidy.seat_opened_new]
      omega

end Spaced

namespace Tidy

theorem held_opened (h : m.Tidy) (outer : Option Scope) {s : Scope} (hs : s.id < m.scopes.size)
    (name : String) : (m.opened outer).held s name = m.held s name :=
  h.spaced.held_opened outer hs name

theorem held_opened_new (m : Machine) (outer : Option Scope) (name : String) :
    (m.opened outer).held ⟨m.scopes.size⟩ name = .nil := by
  rw [held, seat_opened_new, tables_opened_new]
  rfl

theorem wired_opened (h : m.Tidy) (outer : Option Scope) {s : Scope}
    (hs : s.id < m.scopes.size) : (m.opened outer).Wired s := by
  have placed := h.placed s hs
  rw [Wired, seat_opened outer hs, tables_opened_old m outer placed.2,
    tables_opened_old m outer (by omega)]
  exact h.wired s hs

theorem wired_opened_new (m : Machine) (outer : Option Scope) :
    (m.opened outer).Wired ⟨m.scopes.size⟩ := by
  rw [Wired, seat_opened_new, tables_opened_new, Nat.add_sub_cancel, tables_opened_meta]
  exact ⟨rfl, Table.field_setField_same _ _ _⟩

/-- Opening a scope keeps the scopes tidy. -/
theorem opened (h : m.Tidy) (room : 0 < m.tables.size) (outer : Option Scope) :
    (m.opened outer).Tidy where
  placed := (h.spaced.opened room outer).placed
  apart := (h.spaced.opened room outer).apart
  wired s hs := by
    rcases cases_opened hs with old | rfl
    · exact h.wired_opened outer old
    · exact wired_opened_new m outer

/-- Code that leaves the scopes alone keeps them tidy. -/
theorem code (h : m.Tidy) (grows : m.Grows m') {name : String} (kept : Spares name m m') :
    m'.Tidy where
  placed := (h.spaced.code grows).placed
  apart := (h.spaced.code grows).apart
  wired s hs := by
    rw [grows.scopes] at hs
    exact (kept s hs).2 (h.wired s hs)

end Tidy

end Machine

end Tasklang.Lua
