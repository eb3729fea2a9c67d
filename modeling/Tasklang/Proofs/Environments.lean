import Tasklang.Proofs.Furnished
import Tasklang.Proofs.Lookups

/-! # Scopes as an environment

A tree of scopes is a lexical environment: a list of what was bound where, and for every scope the
scopes around it. Whatever is done with scopes, in whatever order, is answered as the environment
says. There is one limit. A lookup may ask at most ninety-nine scopes that have nothing for the name,
and fails beyond that.
-/

namespace Tasklang

open Lua Lua.Run Execution

/-- A lexical environment. -/
structure Environment where
  /-- How many scopes there are. -/
  size : Nat
  /-- The scopes around one, from the inside out. -/
  around : Scope → List Scope
  /-- What was bound, the latest first. -/
  bound : Log
  globals : String → Value

namespace Environment

variable (e : Environment) (s : Scope) (name : String)

/-- The scopes in which a name is looked up. -/
def scopes : List Scope := s :: e.around s

/-- The value of a name that a scope itself declares. -/
def value? : Option Value := e.bound.latest? s name

/-- Whether a scope itself declares a name. -/
def declares : Bool := (e.value? s name).isSome

/-- The value of a name in the nearest scope that declares it, or among the globals. -/
def lookup : Option Value :=
  match (e.scopes s).findSome? (e.value? · name) with
  | some v => some v
  | none => match e.globals name with
    | .nil => none
    | v => some v

/-- How many of some scopes are asked for a name: those that have no value for it, up to the first
that declares it. -/
def asked : List Scope → Nat
  | [] => 0
  | s :: ss => match e.value? s name with
    | some .nil => 1
    | some _ => 0
    | none => asked ss + 1

/-- How many scopes may be asked for a name. -/
def reach : Nat := 99

/-- The value of a name, or why there is none. -/
def get : Except EvalError Value :=
  if e.asked name (e.scopes s) ≤ reach then
    match e.lookup s name with
    | some v => .ok v
    | none => .error (.unbound name)
  else .error (.failed tooDeep)

/-- The environment with one more scope. -/
def opened (outer : Option Scope) : Environment where
  size := e.size + 1
  around s := if s = ⟨e.size⟩ then (match outer with
    | none => []
    | some o => e.scopes o) else e.around s
  bound := e.bound
  globals := e.globals

/-- The environment in which a name was bound in a scope. -/
def bind (v : Value) : Environment := { e with bound := ⟨s, name, v⟩ :: e.bound }

/-- The environment in which names were bound in a scope, one after the other. -/
def bindAll (values : List (String × Value)) : Environment :=
  values.foldl (fun e b => e.bind s b.1 b.2) e

/-- The scope whose binding an assignment changes: the nearest that declares the name, or else the
outermost. -/
def holder : Scope := ((e.scopes s).find? (e.declares · name)).getD ((e.scopes s).getLastD s)

/-- The environment after an assignment. -/
def assign (v : Value) : Environment := e.bind (e.holder s name) name v

/-- Everything that a scope shows of a name. -/
def view : Except EvalError Value × Bool := (e.get s name, e.declares s name)

/-- The environment without scopes. -/
def empty (globals : String → Value) : Environment := ⟨0, fun _ => [], [], globals⟩

theorem globals_empty (globals : String → Value) : (empty globals).globals = globals := rfl

end Environment

/-- Something that can be done with scopes. -/
inductive Operation where
  | root
  | ofBindings (bindings : Bindings)
  | child (s : Scope)
  | declare (s : Scope) (name : String) (v : Value)
  | assign (s : Scope) (name : String) (v : Value)
  | get (s : Scope) (name : String)
  | declares (s : Scope) (name : String)

/-- What an operation answers. -/
inductive Answer where
  | opened (s : Scope)
  | done
  | got (r : Except EvalError Value)
  | declared (b : Bool)

namespace Operation

variable {ε : Type}

/-- Do something with scopes. -/
def perform : Operation → Run ε Answer
  | root => return .opened (← Scope.root)
  | ofBindings bindings => return .opened (← Scope.ofBindings bindings)
  | child s => return .opened (← s.child)
  | declare s name v => do
    s.declare name v
    return .done
  | assign s name v => do
    s.assign name v
    return .done
  | get s name => return .got (← (s.get name).attempt)
  | declares s name => return .declared (← s.declares name)

/-- Do one thing after the other. -/
def performAll : List Operation → Run ε (List Answer)
  | [] => return []
  | op :: ops => do
    let a ← op.perform
    return a :: (← performAll ops)

/-- The scope on which something is done. -/
def on? : Operation → Option Scope
  | root | ofBindings _ => none
  | child s | declare s _ _ | assign s _ _ | get s _ | declares s _ => some s

/-- How many scopes an operation opens. -/
def opens : Operation → Nat
  | root | ofBindings _ | child _ => 1
  | _ => 0

/-- Whether operations are done only on scopes that exist, when there are so many at first. -/
def Legal : Nat → List Operation → Prop
  | _, [] => True
  | n, op :: ops => (∀ s ∈ op.on?, s.id < n) ∧ Legal (n + op.opens) ops

end Operation

/-- Whether a named value is one that is made of named data. -/
def MadeOf (b : String × Json) (v : String × Value) : Prop :=
  b.1 = v.1 ∧ ∃ (ε : Type) (m m' : Machine), (Value.ofJson .nil b.2 : Run ε Value) m = .done v.2 m'

namespace Environment

/-- What an operation does to an environment, and how it is answered. -/
inductive Step (e : Environment) : Operation → Answer → Environment → Prop where
  | root : e.Step .root (.opened ⟨e.size⟩) (e.opened none)
  | ofBindings {bindings : Bindings} {values} : List.Forall₂ MadeOf bindings values →
    e.Step (.ofBindings bindings) (.opened ⟨e.size⟩) ((e.opened none).bindAll ⟨e.size⟩ values)
  | child {s} : e.Step (.child s) (.opened ⟨e.size⟩) (e.opened (some s))
  | declare {s name v} : e.Step (.declare s name v) .done (e.bind s name v)
  | assign {s name v} : e.Step (.assign s name v) .done (e.assign s name v)
  | get {s name} : e.Step (.get s name) (.got (e.get s name)) e
  | declares {s name} : e.Step (.declares s name) (.declared (e.declares s name)) e

/-- Operations one after the other, with their answers. -/
inductive Runs : Environment → List Operation → List Answer → Environment → Prop where
  | nil {e} : Runs e [] [] e
  | cons {e e' e'' op ops a as} : e.Step op a e' → Runs e' ops as e'' →
    Runs e (op :: ops) (a :: as) e''

/-- An environment in which scopes are enclosed by scopes that exist. -/
structure Formed (e : Environment) : Prop where
  within : ∀ s : Scope, s.id < e.size → ∀ t ∈ e.scopes s, t.id < e.size

section Opening

variable {e : Environment} {outer : Option Scope}

theorem scopes_opened {s : Scope} (h : s.id < e.size) :
    (e.opened outer).scopes s = e.scopes s := by
  have old : s ≠ ⟨e.size⟩ := fun same => by
    rw [same] at h
    exact Nat.lt_irrefl _ h
  simp only [scopes, opened, if_neg old]

theorem scopes_opened_new : (e.opened outer).scopes ⟨e.size⟩ =
    ⟨e.size⟩ :: (match outer with
      | none => []
      | some o => e.scopes o) := by
  simp only [scopes, opened, if_true]

/-- A scope of an environment in which one was opened is an old one or the new one. -/
theorem cases_opened {s : Scope} (h : s.id < (e.opened outer).size) :
    s.id < e.size ∨ s = ⟨e.size⟩ := by
  rcases Nat.lt_succ_iff_lt_or_eq.1 (show s.id < e.size + 1 from h) with old | new
  · exact .inl old
  · exact .inr (by cases s; simp_all)

theorem Formed.opened (h : e.Formed) (existing : ∀ o ∈ outer, o.id < e.size) :
    (e.opened outer).Formed where
  within s hs t ht := by
    show t.id < e.size + 1
    rcases cases_opened hs with old | rfl
    · rw [scopes_opened old] at ht
      exact Nat.lt_succ_of_lt (h.within s old t ht)
    · rw [scopes_opened_new] at ht
      rcases List.mem_cons.1 ht with rfl | ht
      · exact Nat.lt_succ_self _
      · cases outer with
        | none => cases ht
        | some o => exact Nat.lt_succ_of_lt (h.within o (existing o rfl) t ht)

end Opening

section Views

variable {e : Environment} {s t : Scope}

theorem bind_value? (e : Environment) {u : Scope} (name : String) (v : Value) (h : s ≠ u)
    (x : String) : (e.bind s name v).value? u x = e.value? u x :=
  Log.latest?_cons_other _ fun same => h same.1

theorem asked_congr {e e' : Environment} {x : String} {ss : List Scope}
    (same : ∀ u ∈ ss, e'.value? u x = e.value? u x) : e'.asked x ss = e.asked x ss := by
  induction ss with
  | nil => rfl
  | cons u ss ih =>
    rw [asked, asked, same u (.head _), ih fun u hu => same u (.tail _ hu)]

theorem findSome?_congr {e e' : Environment} {x : String} {ss : List Scope}
    (same : ∀ u ∈ ss, e'.value? u x = e.value? u x) :
    ss.findSome? (e'.value? · x) = ss.findSome? (e.value? · x) := by
  induction ss with
  | nil => rfl
  | cons u ss ih =>
    rw [List.findSome?_cons, List.findSome?_cons, same u (.head _),
      ih fun u hu => same u (.tail _ hu)]

/-- What a scope shows depends on the scopes from it outward alone. -/
theorem view_congr {e e' : Environment} (scopes : e'.scopes s = e.scopes s)
    (globals : e'.globals = e.globals) {x : String}
    (same : ∀ u ∈ e.scopes s, e'.value? u x = e.value? u x) : e'.view s x = e.view s x := by
  rw [view, view, get, get, lookup, lookup, declares, declares, scopes, globals, asked_congr same,
    findSome?_congr same, same s (.head _)]

/-- Binding a name in a scope shows only in the scopes that it is one of. -/
theorem bind_view (apart : s ∉ e.scopes t) (name : String) (v : Value) (x : String) :
    (e.bind s name v).view t x = e.view t x := by
  refine @view_congr t e (e.bind s name v) rfl rfl x fun u hu => bind_value? e name v ?_ x
  rintro rfl
  exact apart hu

theorem bindAll_size (e : Environment) (s : Scope) (values : List (String × Value)) :
    (e.bindAll s values).size = e.size := by
  induction values generalizing e with
  | nil => rfl
  | cons b rest ih => exact ih (e.bind s b.1 b.2)

theorem bindAll_view (apart : s ∉ e.scopes t) (values : List (String × Value)) (x : String) :
    (e.bindAll s values).view t x = e.view t x := by
  induction values generalizing e with
  | nil => rfl
  | cons b rest ih =>
    have others : ((e.bind s b.1 b.2).bindAll s rest).view t x = (e.bind s b.1 b.2).view t x :=
      ih apart
    exact others.trans (bind_view apart b.1 b.2 x)

theorem opened_view (outer : Option Scope) (h : t.id < e.size) (x : String) :
    (e.opened outer).view t x = e.view t x :=
  view_congr (scopes_opened h) rfl fun _ _ => rfl

theorem holder_mem (e : Environment) (s : Scope) (name : String) : e.holder s name ∈ e.scopes s := by
  unfold holder
  cases found : (e.scopes s).find? (e.declares · name) with
  | some h => exact List.mem_of_find?_eq_some found
  | none =>
    rw [Option.getD_none, scopes, List.getLastD_cons]
    cases around : e.around s with
    | nil => exact .head _
    | cons o rest => exact .tail _ (List.getLast_mem (List.cons_ne_nil o rest))

/-- What is done on a scope shows elsewhere only through a scope that both are inside of. -/
theorem Step.view_of_apart {e' : Environment} {op : Operation} {a : Answer} (h : e.Step op a e')
    (formed : e.Formed) (ht : t.id < e.size)
    (apart : ∀ s ∈ op.on?, ∀ u ∈ e.scopes s, u ∉ e.scopes t) (x : String) :
    e'.view t x = e.view t x := by
  have new : ⟨e.size⟩ ∉ e.scopes t := fun mem => Nat.lt_irrefl _ (formed.within t ht _ mem)
  cases h with
  | root => exact opened_view none ht x
  | ofBindings made =>
    refine (bindAll_view ?_ _ x).trans (opened_view none ht x)
    rwa [scopes_opened ht]
  | @child s => exact opened_view (some s) ht x
  | @declare s name v => exact bind_view (apart s rfl s (.head _)) name v x
  | @assign s name v => exact bind_view (apart s rfl _ (e.holder_mem s name)) name v x
  | get => rfl
  | declares => rfl

end Views

end Environment

namespace Lua.Machine

variable {m m' : Machine} {e : Environment}

/-- A machine whose scopes are those of an environment, and which has the same globals. -/
structure Represents (m : Machine) (e : Environment) : Prop extends e.Formed where
  size : m.scopes.size = e.size
  faithful : ∀ name, Faithful name e.bound m
  chain : ∀ s : Scope, s.id < e.size → m.Chain s (e.scopes s)
  globals : ∀ name, m.global name = e.globals name
  plain : m.PlainGlobals
  budget : Site.levelLimit ≤ m.budget

namespace Represents

theorem valid (h : m.Represents e) {s : Scope} (hs : s.id < e.size) : s.id < m.scopes.size := by
  rwa [h.size]

theorem tidy (h : m.Represents e) : m.Tidy := (h.faithful "").tidy

theorem room (h : m.Represents e) : 0 < m.tables.size := (h.faithful "").room

/-- What adds to a machine leaves the environment as it is. -/
theorem adds (h : m.Represents e) (added : m.Adds m') : m'.Represents e where
  toFormed := h.toFormed
  size := by rw [added.grows.scopes, h.size]
  faithful name := (h.faithful name).code added.grows (added.spares h.tidy name)
  chain s hs := (Extends.code added.grows).chain (h.chain s hs)
  globals name := by rw [added.global h.room, h.globals]
  plain := by
    rw [PlainGlobals, added.tables globalsRef h.room]
    exact h.plain
  budget := by
    rw [added.grows.budget]
    exact h.budget

theorem globals_opened (h : m.Represents e) (outer : Option Scope) :
    (m.opened outer).tables.getD globalsRef {} = m.tables.getD globalsRef {} :=
  tables_opened_old m outer h.room

theorem opened (h : m.Represents e) (outer : Option Scope)
    (existing : ∀ o ∈ outer, o.id < e.size) : (m.opened outer).Represents (e.opened outer) where
  toFormed := h.toFormed.opened existing
  size := by
    rw [scopes_opened, h.size]
    rfl
  faithful name := (h.faithful name).opened outer
  chain s hs := by
    have kept {t : Scope} (ht : t.id < e.size) : (m.opened outer).Chain t (e.scopes t) :=
      (Extends.opened m outer).chain (h.chain t ht)
    have new : e.size < (m.opened outer).scopes.size := by
      rw [scopes_opened, h.size]
      exact Nat.lt_succ_self _
    have outside : (m.opened outer).outer? ⟨e.size⟩ = outer := by
      rw [outer?, ← h.size, record_opened_new]
      cases outer <;> rfl
    rcases Environment.cases_opened hs with old | rfl
    · rw [Environment.scopes_opened old]
      exact kept old
    · rw [Environment.scopes_opened_new]
      cases outer with
      | none => exact .outermost new outside
      | some o => exact .inside new outside (kept (existing o rfl))
  globals name := (congrArg (Table.field · name) (h.globals_opened outer)).trans (h.globals name)
  plain := (congrArg Table.metatable (h.globals_opened outer)).trans h.plain
  budget := h.budget

/-- A change of one scope that is a new event keeps the rest. -/
theorem changed (h : m.Represents e) {t : Scope} (ht : t.id < e.size) {name : String} {v : Value}
    (faithful : ∀ x, Faithful x (⟨t, name, v⟩ :: e.bound) m') (extends_ : Extends m m')
    (size : m'.scopes.size = m.scopes.size) (budget : m'.budget = m.budget)
    (tables : m'.tables = changeAt m.tables (m.seat t) fun u => u.setField name v) :
    m'.Represents (e.bind t name v) := by
  -- the table of a scope is never that of the globals, so that these stay as they were
  have apart : m.seat t ≠ globalsRef := by
    have := (h.tidy.placed t (h.valid ht)).1
    rw [globalsRef]
    omega
  have globals : m'.tables.getD globalsRef {} = m.tables.getD globalsRef {} := by
    rw [tables, getD_changeAt_other _ _ apart]
  exact {
    toFormed := ⟨h.within⟩
    size := size.trans h.size
    faithful := faithful
    chain := fun s hs => extends_.chain (h.chain s hs)
    globals := fun x => by
      rw [global, globals]
      exact h.globals x
    plain := by
      rw [PlainGlobals, globals]
      exact h.plain
    budget := by
      rw [budget]
      exact h.budget }

theorem bound (h : m.Represents e) {s : Scope} (hs : s.id < e.size) (name : String) (v : Value) :
    (m.bound s name v).Represents (e.bind s name v) :=
  h.changed hs (fun x => (h.faithful x).bound (h.valid hs) name v) (.bound m s name v)
    (scopes_bound m s name v) rfl (table_bound m s name v)

theorem declares_eq (h : m.Represents e) (name : String) {s : Scope} (hs : s.id < e.size) :
    (m.record s).declared.contains name = e.declares s name := by
  rw [Bool.eq_iff_iff, List.contains_iff_mem]
  exact (h.faithful name).displayed.declares s (h.valid hs)

theorem assigned (h : m.Represents e) {s : Scope} (hs : s.id < e.size) (name : String) (v : Value) :
    (assigned m s name v).Represents (e.assign s name v) := by
  have chain := h.chain s hs
  have same : (Scope.holder m name m.scopes.size s).1 = e.holder s name := by
    have declares (t : Scope) (ht : t ∈ e.scopes s) :=
      h.declares_eq name (h.within s hs t ht)
    rw [holder_eq chain name chain.length_le s, Environment.holder, List.find?_congr declares]
    cases (e.scopes s).find? fun t => e.declares t name <;> rfl
  obtain ⟨t, ht, valid, ⟨declared, changed⟩ | changed⟩ := assigned_cases chain name v
  · rw [changed, Environment.assign, ← same, ← ht]
    exact h.changed (by rwa [h.size] at valid)
      (fun x => (h.faithful x).filled valid declared v) (.filled m t name v) rfl rfl rfl
  · rw [changed, Environment.assign, ← same, ← ht]
    exact h.bound (by rwa [h.size] at valid) name v

theorem declareAll {ε : Type} (h : m.Represents e) {s : Scope} (hs : s.id < e.size)
    (bindings : Bindings) : ∃ values m', List.Forall₂ MadeOf bindings values ∧
      (s.declareAll bindings : Run ε Unit) m = .done () m' ∧ m'.Represents (e.bindAll s values) := by
  induction bindings generalizing m e with
  | nil => exact ⟨[], m, .nil, rfl, h⟩
  | cons b rest ih =>
    obtain ⟨v, m₁, made⟩ := (Value.make_ends .nil b.2 : (Value.make .nil b.2 : Code ε Value).Ends) m
    have one := (h.adds (Value.make_adds made)).bound hs b.1 v
    obtain ⟨values, m', others, declared, represents⟩ := ih one hs
    refine ⟨(b.1, v) :: values, m', .cons ⟨rfl, ε, m, m₁, made⟩ others, ?_, represents⟩
    simp only [Scope.declareAll, bind_done, declare_eq]
    exact ⟨v, m₁, made, (), _, rfl, declared⟩

theorem asked_eq (h : m.Represents e) (name : String) {ss : List Scope}
    (valid : ∀ t ∈ ss, t.id < e.size) : m.asked name ss = e.asked name ss := by
  induction ss with
  | nil => rfl
  | cons s ss ih =>
    have shows := (h.faithful name).displayed
    have hs := h.valid (valid s (.head _))
    have held : m.held s name = (e.value? s name).getD .nil := shows.held s hs
    have declares : name ∈ (m.record s).declared ↔ (e.value? s name).isSome = true :=
      shows.declares s hs
    rw [asked, Environment.asked, held, ih fun t ht => valid t (.tail _ ht)]
    cases value : e.value? s name with
    | none =>
      rw [value] at declares
      exact if_neg (mt declares.1 Bool.false_ne_true)
    | some v =>
      rw [value] at declares
      cases v with
      | nil => exact if_pos (declares.2 rfl)
      | _ => rfl

theorem meaning?_eq (h : m.Represents e) (name : String) {s : Scope} (hs : s.id < e.size) :
    m.meaning? name (e.scopes s) = e.lookup s name := by
  have nearest (ss : List Scope) : Log.meaning? e.bound name ss = ss.findSome? (e.value? · name) := by
    induction ss with
    | nil => rfl
    | cons t ss ih =>
      rw [Log.meaning?, List.findSome?_cons, ih, Environment.value?]
      cases e.bound.latest? t name <;> rfl
  rw [meaning?, (h.faithful name).displayed.binding (h.chain s hs), nearest, h.globals]
  rfl

/-- What looking up a name gives in the environment is what it gives in the machine. -/
theorem found_eq (h : m.Represents e) (name : String) {s : Scope} (hs : s.id < e.size) :
    (match m.found 1 name (e.scopes s) with
      | .ok v => .ok v
      | .error f => .error (EvalError.ofFault f)) = e.get s name := by
  have reached : 1 + 2 * m.asked name (e.scopes s) < Site.levelLimit ↔
      e.asked name (e.scopes s) ≤ Environment.reach := by
    rw [h.asked_eq name (h.within s hs), Site.levelLimit, Environment.reach]
    omega
  rw [found, sought, h.meaning?_eq name hs, Environment.get]
  by_cases near : e.asked name (e.scopes s) ≤ Environment.reach
  · rw [if_pos (reached.2 near), if_pos near]
    cases e.lookup s name <;> rfl
  · rw [if_neg (mt reached.1 near), if_neg near]
    rfl

/-- Reading a name is answered as the environment says. -/
theorem get {ε : Type} (h : m.Represents e) (name : String) {s : Scope} (hs : s.id < e.size) :
    ∃ m', ((s.get name).attempt : Run ε (Except EvalError Value)) m = .done (e.get s name) m' ∧
      m'.Represents e := by
  have settles := find_settles (h.chain s hs) ((h.faithful name).proper (h.chain s hs)) h.plain
    h.budget
  have grows : (s.get name m).After m.Grows := get_quiet s name m
  have same : s.get name m = ((s.find host name).exec m).andThen .done fun v m =>
    .failed (.ofFault (m.faultOf v)) m := Code.exec_explain m _ _
  rw [attempt_apply, ← h.found_eq name hs]
  cases result : m.found 1 name (e.scopes s) with
  | ok v =>
    rw [result] at settles
    rw [same, settles.done]
    exact ⟨m, rfl, h⟩
  | error f =>
    rw [result] at settles
    obtain ⟨thrown, m', rfl, failed, changed⟩ := settles.failed
    rw [failed] at same
    rw [same] at grows ⊢
    exact ⟨m', rfl, h.adds ((Machine.Adds.refl m).faulted grows changed)⟩

/-- An operation is answered as the environment says, and leaves it as the environment says. -/
theorem perform {ε : Type} (h : m.Represents e) {op : Operation}
    (on : ∀ s ∈ op.on?, s.id < e.size) : ∃ a m' e', (op.perform : Run ε Answer) m = .done a m' ∧
      e.Step op a e' ∧ m'.Represents e' ∧ e'.size = e.size + op.opens := by
  cases op with
  | root =>
    refine ⟨_, _, _, rfl, ?_, h.opened none nofun, rfl⟩
    rw [h.size]
    exact .root
  | ofBindings bindings =>
    have new := h.opened none nofun
    obtain ⟨values, m', made, declared, represents⟩ := @declareAll _ _ ε new ⟨e.size⟩
      (Nat.lt_succ_self _) bindings
    refine ⟨.opened ⟨e.size⟩, m', _, ?_, .ofBindings made, represents, ?_⟩
    · simp only [Operation.perform, Scope.ofBindings, Scope.root, bind_done, new_eq, pure_done,
        h.size]
      exact ⟨_, _, ⟨_, _, rfl, (), _, declared, rfl, rfl⟩, rfl, rfl⟩
    · exact Environment.bindAll_size _ _ _
  | child s =>
    refine ⟨_, _, _, rfl, ?_, h.opened (some s) on, rfl⟩
    rw [h.size]
    exact .child
  | declare s name v => exact ⟨_, _, _, rfl, .declare, h.bound (on s rfl) name v, rfl⟩
  | assign s name v =>
    refine ⟨.done, _, _, ?_, .assign, h.assigned (on s rfl) name v, rfl⟩
    rw [Operation.perform, bind_apply, Execution.assign_eq]
    rfl
  | get s name =>
    obtain ⟨m', got, represents⟩ := h.get name (on s rfl)
    refine ⟨.got (e.get s name), m', e, ?_, .get, represents, rfl⟩
    rw [Operation.perform, bind_apply, got]
    rfl
  | declares s name =>
    refine ⟨.declared (e.declares s name), m, e, ?_, .declares, h, rfl⟩
    rw [← h.declares_eq name (on s rfl)]
    rfl

theorem performAll {ε : Type} (h : m.Represents e) {ops : List Operation}
    (legal : Operation.Legal e.size ops) : ∃ answers m' e',
      (Operation.performAll ops : Run ε (List Answer)) m = .done answers m' ∧
      e.Runs ops answers e' ∧ m'.Represents e' := by
  induction ops generalizing m e with
  | nil => exact ⟨[], m, e, rfl, .nil, h⟩
  | cons op ops ih =>
    obtain ⟨a, m₁, e₁, first, step, one, size⟩ := @perform _ _ ε h op legal.1
    obtain ⟨answers, m', e', rest, runs, represents⟩ := ih one (by
      rw [size]
      exact legal.2)
    refine ⟨a :: answers, m', e', ?_, .cons step runs, represents⟩
    simp only [Operation.performAll, bind_done, pure_done]
    exact ⟨a, m₁, first, answers, m', rest, rfl, rfl⟩

end Represents

/-- A machine in which nothing was done yet has no scopes. -/
theorem represents_initial (w : World) :
    (Machine.initial w).Represents (.empty (Machine.initial w).global) := by
  have fresh := fresh_initial w
  have size : (Machine.initial w).scopes.size = 0 := rfl
  have vacant (s : Scope) : ¬s.id < (Machine.initial w).scopes.size := by
    rw [size]
    exact Nat.not_lt_zero _
  have room : 0 < (Machine.initial w).tables.size :=
    Nat.lt_of_lt_of_le (by decide) fresh.room
  have budget : Site.levelLimit ≤ (Machine.initial w).budget := by
    rw [fresh.budget]
    decide
  exact {
    within := fun s hs => absurd hs (Nat.not_lt_zero s.id)
    size := size
    faithful := fun name => {
      tidy := ⟨fun s hs => absurd hs (vacant s), fun _ t _ ht => absurd ht (vacant t),
        fun s hs => absurd hs (vacant s)⟩
      room := room
      displayed := ⟨fun _ he => absurd he List.not_mem_nil, fun s hs => absurd hs (vacant s),
        fun s hs => absurd hs (vacant s)⟩ }
    chain := fun s hs => absurd hs (Nat.not_lt_zero s.id)
    globals := fun name => by rw [Environment.globals_empty]
    plain := fresh.plain
    budget := budget }

end Lua.Machine

/-- Scopes are a lexical environment. Whatever is done with them, every answer is the one that the
environment gives, and the machine goes on to represent it: a name is read from the nearest scope
that declares it, even when its value is nil, or else from the globals, and is otherwise unbound; an
assignment goes to the nearest scope that declares the name, or to the outermost one. The one limit is
that a name is not found when more scopes than the reach of a lookup have to be asked for it. What is
done on a scope changes what another shows only when both are inside of one scope. -/
theorem scopes_refine_environment {m : Machine} {e : Environment} (h : m.Represents e)
    {ops : List Operation} (legal : Operation.Legal e.size ops) :
    (∃ answers m' e',
      (Operation.performAll ops : Run EvalError (List Answer)) m = .done answers m' ∧
      e.Runs ops answers e' ∧ m'.Represents e') ∧
    (∀ (e₁ : Environment) op a e₂, e₁.Formed → e₁.Step op a e₂ → ∀ t : Scope, t.id < e₁.size →
      ∀ name, e₂.view t name ≠ e₁.view t name →
        ∃ s, op.on? = some s ∧ ∃ u ∈ e₁.scopes s, u ∈ e₁.scopes t) := by
  refine ⟨h.performAll legal, fun e₁ op a e₂ formed step t ht name differs => ?_⟩
  by_contra unshared
  push Not at unshared
  exact differs (step.view_of_apart formed ht (fun s hs u hu => unshared s hs u hu) name)

namespace Shadowing

/-- A name that is declared with nil inside, and with a number further out. -/
def operations : List Operation :=
  [.root, .child ⟨0⟩, .declare ⟨0⟩ "x" (.int 1), .declare ⟨1⟩ "x" .nil, .get ⟨1⟩ "x",
    .assign ⟨1⟩ "x" (.int 2), .get ⟨0⟩ "x", .declares ⟨1⟩ "x"]

theorem legal : Operation.Legal 0 operations := by
  simp [operations, Operation.Legal, Operation.on?, Operation.opens]

theorem scopes_refine_environment_initially :
    ((Machine.initial {}).Represents (.empty (Machine.initial {}).global) ∧
      Operation.Legal 0 operations) ∧
    ∃ answers m e,
      (Operation.performAll operations : Run EvalError (List Answer)) (Machine.initial {}) =
        .done answers m ∧
      (Environment.empty (Machine.initial {}).global).Runs operations answers e ∧
      m.Represents e :=
  ⟨⟨Machine.represents_initial {}, legal⟩,
    (scopes_refine_environment (Machine.represents_initial {}) legal).1⟩

end Shadowing

namespace FarScope

/-- A scope with a hundred and twenty scopes around it, the outermost of which declares a name. -/
def operations : List Operation :=
  [.root, .declare ⟨0⟩ "x" (.int 1)] ++ (List.range 120).map (fun n => .child ⟨n⟩) ++
    [.get ⟨120⟩ "x"]

set_option maxRecDepth 100000 in
theorem last_fails : ((Operation.performAll operations : Run EvalError (List Answer))
    (Machine.initial {})).passes (fun answers m => (match answers.getLast? with
      | some (.got (.error (.failed f))) => f == tooDeep
      | _ => false) && Scope.holder m "x" m.scopes.size ⟨120⟩ == (⟨0⟩, true) &&
        m.held ⟨0⟩ "x" == .int 1) = true := by
  decide +kernel

/-- The nearest scope that declares the name has a value for it, which is not found. -/
theorem far_name_is_not_found : ∃ answers m,
    (Operation.performAll operations : Run EvalError (List Answer)) (Machine.initial {}) =
      .done answers m ∧
    answers.getLast? = some (.got (.error (.failed tooDeep))) ∧
    Scope.holder m "x" m.scopes.size ⟨120⟩ = (⟨0⟩, true) ∧ m.held ⟨0⟩ "x" = .int 1 := by
  obtain ⟨answers, m, done, same⟩ := Outcome.passes_iff.1 last_fails
  simp only [Bool.and_eq_true, beq_iff_eq] at same
  obtain ⟨⟨last, holder⟩, held⟩ := same
  refine ⟨answers, m, done, ?_, holder, held⟩
  split at last
  · rename_i f found
    rw [found, beq_iff_eq.1 last]
  · cases last

end FarScope

end Tasklang
