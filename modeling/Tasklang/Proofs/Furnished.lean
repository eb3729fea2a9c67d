import Tasklang.Proofs.Bindings
import Tasklang.Proofs.Knowledge

/-! # Machines that only gain

Evaluating an expression without side effects adds to a machine, and leaves what was there. What is
known of a machine then stays known: its library, its scopes, and the data that names stand for. A
plain value is one that is written alike as data and as an expression shows it.
-/

namespace Tasklang.Lua

open Code

/-- A machine that only gained: all that was there is as it was, and so is the world. -/
structure Machine.Adds (m m' : Machine) : Prop where
  grows : m.Grows m'
  tables : ∀ r < m.tables.size, m'.tables.getD r {} = m.tables.getD r {}
  cells : ∀ c < m.cells.size, m'.cells.getD c .nil = m.cells.getD c .nil
  world : m'.world = m.world

/-- A machine that kept its tables and its budget: tables may only have come after them. -/
structure Machine.Retains (m m' : Machine) : Prop where
  room : m.tables.size ≤ m'.tables.size
  old : ∀ r < m.tables.size, m'.tables.getD r {} = m.tables.getD r {}
  budget : m'.budget = m.budget

namespace Machine.Adds

variable {m m' m'' : Machine}

theorem refl (m : Machine) : m.Adds m := ⟨.refl m, fun _ _ => rfl, fun _ _ => rfl, rfl⟩

theorem trans (h : m.Adds m') (h' : m'.Adds m'') : m.Adds m'' where
  grows := h.grows.trans h'.grows
  tables r hr := (h'.tables r (Nat.lt_of_lt_of_le hr h.grows.tables)).trans (h.tables r hr)
  cells c hc := (h'.cells c (Nat.lt_of_lt_of_le hc h.grows.cells)).trans (h.cells c hc)
  world := h'.world.trans h.world

/-- Failures that are recorded show nowhere else. -/
theorem faulted (h : m.Adds m') (grows : m.Grows m'')
    (changed : m'' = { m' with faults := m''.faults }) : m.Adds m'' where
  grows := grows
  tables r hr := by
    rw [changed]
    exact h.tables r hr
  cells c hc := by
    rw [changed]
    exact h.cells c hc
  world := by
    rw [changed]
    exact h.world

theorem retains (h : m.Adds m') : m.Retains m' := ⟨h.grows.tables, h.tables, h.grows.budget⟩

theorem record (h : m.Adds m') (s : Scope) : m'.record s = m.record s := by
  rw [Machine.record, Machine.record, h.grows.scopes]

theorem seat (h : m.Adds m') (s : Scope) : m'.seat s = m.seat s := by
  rw [Machine.seat, Machine.seat, h.record]

theorem held (h : m.Adds m') {s : Scope} (placed : m.seat s < m.tables.size) (name : String) :
    m'.held s name = m.held s name := by
  rw [Machine.held, Machine.held, h.seat, h.tables _ placed]

/-- What only gained left the scopes alone. -/
theorem spares (h : m.Adds m') (tidy : m.Tidy) (name : String) : m.Spares name m' := by
  intro s hs
  obtain ⟨low, placed⟩ := tidy.placed s hs
  refine ⟨h.held placed name, fun wired => ?_⟩
  rw [Wired, h.seat, h.tables _ placed, h.tables _ (by omega)]
  exact wired

theorem global (h : m.Adds m') (room : 0 < m.tables.size) (name : String) :
    m'.global name = m.global name := by
  rw [Machine.global, Machine.global, h.tables globalsRef room]

end Machine.Adds

theorem Machine.Retains.trans {m m' m'' : Machine} (h : m.Retains m') (h' : m'.Retains m'') :
    m.Retains m'' where
  room := Nat.le_trans h.room h'.room
  old r hr := (h'.old r (Nat.lt_of_lt_of_le hr h.room)).trans (h.old r hr)
  budget := h'.budget.trans h.budget

/-- Opening a scope for bindings leaves the tables alone that there were. -/
theorem Knows.retains {m₀ m : Machine} {names : List String} {s : Scope}
    (h : Knows m₀ names s m) : m₀.Retains m where
  room := Nat.le_of_add_right_le h.room
  old := h.old
  budget := h.budget

/-! ## Data -/

/-- A computation that changes nothing but tables. -/
def Code.Tabulates {ε α : Type} (x : Code ε α) : Prop :=
  ∀ m : Machine, (x.exec m).After fun m' => m' = { m with tables := m'.tables }

namespace Code.Tabulates

variable {ε α β : Type}

theorem pure (a : α) : Tabulates (Pure.pure a : Code ε α) := fun _ => rfl

theorem bind {x : Code ε α} {f : α → Code ε β} (hx : Tabulates x) (hf : ∀ a, Tabulates (f a)) :
    Tabulates (x >>= f) := by
  intro m
  rw [exec_bind]
  have first := hx m
  cases h : x.exec m with
  | done a m₁ =>
    rw [h] at first
    refine (hf a m₁).imp fun m₂ second => ?_
    rw [second, first]
  | failed e m₁ =>
    rw [h] at first
    exact first
  | exhausted => trivial

theorem newTable (t : Table) : Tabulates (Code.newTable t : Code ε TableRef) := fun _ => rfl

theorem modifyTable (r : TableRef) (f : Table → Table) :
    Tabulates (Code.modifyTable r f : Code ε Unit) := fun _ => rfl

end Code.Tabulates

namespace Value

variable {ε : Type}

mutual

theorem make_tabulates (absent : Value) (j : Json) : (make absent j : Code ε Value).Tabulates := by
  cases j with
  | arr items =>
    exact .bind (.newTable _) fun r => .bind (fillItems_tabulates absent r 1 items) fun _ => .pure _
  | obj entries =>
    exact .bind (.newTable _) fun r => .bind (fillEntries_tabulates absent r entries) fun _ =>
      .pure _
  | _ => exact .pure _

theorem fillItems_tabulates (absent : Value) (r : TableRef) (i : Nat) (items : List Json) :
    (fillItems absent r i items : Code ε Unit).Tabulates := by
  cases items with
  | nil => exact .pure _
  | cons v vs =>
    exact .bind (make_tabulates absent v) fun _ => .bind (.modifyTable _ _) fun _ =>
      fillItems_tabulates absent r (i + 1) vs

theorem fillEntries_tabulates (absent : Value) (r : TableRef) (entries : List (String × Json)) :
    (fillEntries absent r entries : Code ε Unit).Tabulates := by
  cases entries with
  | nil => exact .pure _
  | cons e es =>
    exact .bind (make_tabulates absent e.2) fun _ => .bind (.modifyTable _ _) fun _ =>
      fillEntries_tabulates absent r es

end

/-- Making the value of structured data only adds tables. -/
theorem make_adds {absent v : Value} {j : Json} {m m' : Machine}
    (made : (make absent j : Code ε Value).exec m = .done v m') : m.Adds m' := by
  have grows := (make absent j : Code ε Value).grows m
  have leaves := (make_leaves absent j : (make absent j : Code ε Value).Leaves _) m (Nat.le_refl _)
  have tabulates := (make_tabulates absent j : (make absent j : Code ε Value).Tabulates) m
  rw [made] at grows leaves tabulates
  refine ⟨grows, leaves, fun c _ => ?_, ?_⟩ <;> rw [tabulates]

end Value

/-- Whether a value is what is made of structured data, with all tables of it as they were made. -/
def Machine.Made (m : Machine) (v : Value) (j : Json) : Prop :=
  ∃ (ε : Type) (m₀ m₁ : Machine), (Value.make .nil j : Code ε Value).exec m₀ = .done v m₁ ∧
    m₁.tables.size ≤ m.tables.size ∧
    ∀ r, m₀.tables.size ≤ r → r < m₁.tables.size →
      m.tables.getD r {} = m₁.tables.getD r {}

theorem Machine.Adds.made {m m' : Machine} (h : m.Adds m') {v : Value} {j : Json}
    (made : m.Made v j) : m'.Made v j := by
  obtain ⟨ε, m₀, m₁, made, room, same⟩ := made
  refine ⟨ε, m₀, m₁, made, Nat.le_trans room h.grows.tables, fun r low high => ?_⟩
  exact (h.tables r (Nat.lt_of_lt_of_le high room)).trans (same r low high)

/-! ## The library -/

/-- The names of the library. -/
def libraryNames : List String := globalFields.map (·.1)

/-- Whether a machine has the library as it was at the start, and the usual budget. Other globals
may have come, and other modules may be loaded. -/
structure Machine.Furnished (m : Machine) : Prop where
  room : initialTables.length ≤ m.tables.size
  tables : ∀ r < initialTables.length, r ≠ globalsRef → r ≠ loadedRef →
    m.tables.getD r {} = initialTables.getD r {}
  names : ∀ name ∈ libraryNames, m.global name = (tableOf globalFields).field name
  plain : m.PlainGlobals
  budget : m.budget = ({} : Machine).budget

/-- The usual budget is enough for calls that nest as deep as they can. -/
theorem Machine.Furnished.steps {m : Machine} (f : m.Furnished) :
    ∃ n, m.budget = n + 6 ∧ Site.levelLimit ≤ n := ⟨9999999994, f.budget, by decide⟩

section Library

variable {m m' : Machine} (room : m.tables.size ≤ m'.tables.size)
  (old : ∀ r < initialTables.length, m'.tables.getD r {} = m.tables.getD r {})
  (budget : m'.budget = m.budget)

include room old budget

/-- A machine keeps the library while it keeps the tables of the start. -/
theorem Machine.Furnished.kept (f : m.Furnished) : m'.Furnished := by
  have globals : m'.tables.getD globalsRef {} = m.tables.getD globalsRef {} := old _ (by decide)
  refine ⟨Nat.le_trans f.room room, fun r hr apart loaded => ?_, fun name there => ?_, ?_, ?_⟩
  · rw [old r hr]
    exact f.tables r hr apart loaded
  · rw [global, globals]
    exact f.names name there
  · rw [PlainGlobals, globals]
    exact f.plain
  · rw [budget]
    exact f.budget

end Library

theorem Machine.Adds.furnished {m m' : Machine} (h : m.Adds m') (f : m.Furnished) : m'.Furnished :=
  f.kept h.grows.tables (fun r hr => h.tables r (Nat.lt_of_lt_of_le hr f.room)) h.grows.budget

/-- Whether a machine has the library as it was at the start and no other global: an evaluator that
has not been given any. -/
structure Machine.Fresh (m : Machine) : Prop extends m.Furnished where
  vacant : ∀ name ∉ libraryNames, m.global name = .nil

/-- A machine gains no globals while it keeps its tables. -/
theorem Machine.Fresh.kept {m m' : Machine} (f : m.Fresh) (h : m.Retains m') : m'.Fresh where
  toFurnished :=
    f.toFurnished.kept h.room (fun r hr => h.old r (Nat.lt_of_lt_of_le hr f.room)) h.budget
  vacant name new := by
    rw [global, h.old globalsRef (Nat.lt_of_lt_of_le (by decide) f.room)]
    exact f.vacant name new

theorem Machine.Adds.fresh {m m' : Machine} (h : m.Adds m') (f : m.Fresh) : m'.Fresh :=
  f.kept h.retains

theorem field_tableOf {fields : List (String × Value)} {name : String}
    (new : name ∉ fields.map (·.1)) : (tableOf fields).field name = .nil := by
  suffices kept : ∀ t : Table,
      (fields.foldl (fun t e => t.setField e.1 e.2) t).field name = t.field name from
    kept _
  induction fields with
  | nil => exact fun t => rfl
  | cons e rest ih =>
    simp only [List.map_cons, List.mem_cons, not_or] at new
    intro t
    rw [List.foldl_cons, ih new.2, Table.field_setField_other _ _ new.1]

theorem Machine.initial_table (w : World) (r : TableRef) :
    (Machine.initial w).tables.getD r {} = initialTables.getD r {} := by
  rw [Machine.initial, Array.getD_eq_getD_getElem?, List.getElem?_toArray,
    List.getD_eq_getElem?_getD]

/-- A machine in which a program starts is fresh. -/
theorem Machine.fresh_initial (w : World) : (Machine.initial w).Fresh := by
  have globals : (Machine.initial w).tables.getD globalsRef {} = tableOf globalFields := by
    rw [initial_table, initialTables, globalsRef, List.cons_append, List.cons_append, List.getD_cons_zero]
  refine ⟨⟨?_, fun r _ _ _ => initial_table w r, fun name _ => ?_, ?_, rfl⟩, fun name new => ?_⟩
  · rw [initial, List.size_toArray]
  · rw [global, globals]
  · rw [PlainGlobals, globals]
    decide +kernel
  · rw [global, globals]
    exact field_tableOf new

/-! ## Scopes around an expression -/

/-- Scopes below which expressions are evaluated: at most so many, as they were made, none of which
declares a name of the library. -/
structure Machine.Below (depth : Nat) (m : Machine) (s : Scope) (ss : List Scope) : Prop where
  chain : m.Chain s ss
  few : ss.length ≤ depth
  placed : ∀ t ∈ ss, m.seat t < m.tables.size
  proper : ∀ name, ∀ t ∈ ss, m.Proper name t
  clear : ∀ t ∈ ss, ∀ name, m.Declares t name → name ∉ libraryNames

namespace Machine.Below

variable {depth : Nat} {m m' : Machine} {s : Scope} {ss : List Scope}

theorem room (h : m.Below depth s ss) : 0 < m.tables.size := by
  cases h.chain with
  | outermost _ _ => exact Nat.lt_of_le_of_lt (Nat.zero_le _) (h.placed s (.head _))
  | inside _ _ _ => exact Nat.lt_of_le_of_lt (Nat.zero_le _) (h.placed s (.head _))

theorem deepen {depth' : Nat} (h : m.Below depth s ss) (le : depth ≤ depth') :
    m.Below depth' s ss :=
  { h with few := Nat.le_trans h.few le }

theorem positive (h : m.Below depth s ss) : 1 ≤ depth := by
  have few := h.few
  cases h.chain with
  | outermost _ _ => exact few
  | inside _ _ _ => exact Nat.le_trans (Nat.succ_le_succ (Nat.zero_le _)) few

end Machine.Below

namespace Machine.Adds

variable {depth : Nat} {m m' : Machine} {s : Scope} {ss : List Scope}

theorem below (h : m.Adds m') (b : m.Below depth s ss) : m'.Below depth s ss where
  chain := (Execution.Extends.code h.grows).chain b.chain
  few := b.few
  placed t ht := by
    rw [h.seat]
    exact Nat.lt_of_lt_of_le (b.placed t ht) h.grows.tables
  proper name t ht := by
    have placed := b.placed t ht
    refine ⟨?_, fun new => ?_⟩
    · rw [Wired, h.seat, h.tables _ placed, h.tables _ (by omega)]
      exact (b.proper name t ht).wired
    · rw [h.held placed]
      refine (b.proper name t ht).bare ?_
      rwa [Declares, h.record] at new
  clear t ht name declares := by
    rw [Declares, h.record] at declares
    exact b.clear t ht name declares

theorem binding (h : m.Adds m') (placed : ∀ t ∈ ss, m.seat t < m.tables.size) (name : String) :
    m'.binding? name ss = m.binding? name ss := by
  induction ss with
  | nil => rfl
  | cons t ss ih =>
    rw [Machine.binding?, Machine.binding?, h.record, h.held (placed t (.head _)),
      ih fun u hu => placed u (.tail _ hu)]

theorem meaning (h : m.Adds m') (b : m.Below depth s ss) (name : String) :
    m'.meaning? name ss = m.meaning? name ss := by
  rw [Machine.meaning?, Machine.meaning?, h.binding b.placed, h.global b.room]

end Machine.Adds

/-! ## Plain values -/

/-- A value that is a valid text, a truth value or an integer. -/
inductive Plain where
  | text (s : String)
  | truth (b : Bool)
  | whole (n : Int64)
  deriving DecidableEq, Repr

namespace Plain

def value : Plain → Value
  | text s => .ofString s
  | truth b => .bool b
  | whole n => .int n

def json : Plain → Json
  | text s => .str s
  | truth b => .bool b
  | whole n => .int n.toInt

/-- How a plain value is written, as a part of a text. -/
def shown (p : Plain) : String := p.json.stringify

theorem value_injective {p q : Plain} (h : p.value = q.value) : p = q := by
  cases p <;> cases q <;> simp_all [value, Value.ofString, Bytes.ofString_injective.eq_iff]

variable {ε : Type} (p : Plain) (m : Machine)

theorem make_json : (Value.make .nil p.json : Code ε Value).exec m = .done p.value m := by
  cases p with
  | text s => simp only [json, Value.make, exec_pure, value]
  | truth b => simp only [json, Value.make, exec_pure, value]
  | whole n =>
    have low : Json.leastInt ≤ n.toInt := n.le_toInt
    have high : n.toInt ≤ Json.greatestInt := Int.le_sub_one_of_lt n.toInt_lt
    simp only [json, Value.make, exec_pure, value, Value.ofInt, low, high, and_self, if_true,
      Int64.ofInt_toInt]

theorem structuredForm_value : structuredForm p.value m = .done p.json m := by
  have converted : Value.toJson? m p.value = .ok p.json := by
    cases p with
    | text s =>
      simp only [value, json, Value.toJson?, Value.toJsonFrom, Value.ofString, Value.textOf,
        Bytes.decode?_ofString, Except.map]
    | truth b => simp only [value, json, Value.toJson?, Value.toJsonFrom]
    | whole n => simp only [value, json, Value.toJson?, Value.toJsonFrom]
  simp only [structuredForm, Run.code_apply, exec_mapError, Value.toJson, exec_bind, exec_get,
    Outcome.andThen_done, converted, Code.ofExcept, exec_codePure]

end Plain

/-- The library knows how to show values. -/
theorem Machine.Furnished.tostring {m : Machine} (f : m.Furnished) :
    m.global "tostring" = .function (.basic .tostring) := by
  rw [f.names "tostring" (by decide +kernel)]
  decide +kernel

/-- A plain value has no metatable that could show it in another way. -/
theorem exec_tostring (c : Caller) (p : Plain) (m : Machine) (other : ∀ s, p ≠ .text s) :
    (applyLibrary c (.basic .tostring) [p.value]).exec m = .done [.ofString p.shown] m := by
  cases p with
  | text s => exact absurd rfl (other s)
  | truth b => cases b <;> rfl
  | whole n =>
    have shown : Number.display (.int n) = Bytes.ofString (Json.int n.toInt).stringify := by
      simp only [Number.display, Json.stringify, Json.print, Json.printChars, Bytes.ofString,
        String.toList_ofList]
    show Outcome.done [Value.str (Number.display (.int n))] m = _
    rw [shown]
    rfl

/-- The value of a field of the globals is had from outside without any change. -/
theorem exec_globalValue {m : Machine} {name : String} (there : m.global name ≠ .nil) :
    (globalValue name).exec m = .done (m.global name) m := by
  have deeper := @exec_deeper m host (by decide)
  simp only [globalValue, indexFromOutside, exec_bind, deeper, Outcome.andThen_done,
    show metaHops = 1999 + 1 from rfl]
  exact index_field _ 1999 globalsRef name there

/-- Calling a library function from outside. -/
theorem exec_invoke {m : Machine} {n : Nat} {f : Function} (args : List Value)
    (native : ∀ ref, f ≠ .closure ref) (budget : m.budget = n + 3) :
    (invoke (.function f) args).exec m =
      (applyLibrary ⟨⟨[], 1, 0, .unknown⟩, within (n + 2)⟩ f args).exec m := by
  rw [← run_library m n ⟨[], 1, 0, .unknown⟩ args native, ← budget]
  rfl

/-- What is no text is shown by the function that the globals have for it. -/
theorem display_asks {v : Value} (other : ∀ s, v ≠ .str s) : Tasklang.display v = (do
    match ← unlifted (globalValue "tostring") with
    | .function f =>
      let text ← callFunction (.function f) [v]
      Run.ofExcept ((Value.toText? text).mapError .failed)
    | _ => Run.throw (.failed .conversion)) := by
  cases v with
  | str s => exact absurd rfl (other s)
  | _ => rfl

/-- A plain value is displayed as it is written. -/
theorem Machine.Furnished.display {m : Machine} (f : m.Furnished) (p : Plain) :
    display p.value m = .done p.shown m := by
  by_cases text : ∃ s, p = .text s
  · obtain ⟨s, rfl⟩ := text
    simp only [Tasklang.display, Plain.value, Value.ofString, Bytes.decodeLossy_ofString]
    rfl
  have other (s : String) : p ≠ .text s := fun h => text ⟨s, h⟩
  have called : (globalValue "tostring").exec m = .done (.function (.basic .tostring)) m := by
    rw [exec_globalValue (by rw [f.tostring]; simp), f.tostring]
  obtain ⟨n, budget, -⟩ := f.steps
  have invoked : (invoke (.function (.basic .tostring)) [p.value]).exec m =
      .done [.ofString p.shown] m := by
    rw [exec_invoke (n := n + 3) _ (by simp) budget]
    exact exec_tostring _ p m other
  have untold (s : Bytes) : p.value ≠ .str s := by
    cases p with
    | text s => exact absurd rfl (other s)
    | _ => simp [Plain.value]
  rw [display_asks untold]
  simp only [Run.bind_apply, unlifted, Run.code_apply, exec_explain, called, Outcome.andThen_done,
    callFunction, invoked, Run.pure_apply, first, List.headD_cons, Value.toText?,
    Value.ofString, Value.toBytes?, Bytes.decode?_ofString]
  rfl

end Tasklang.Lua
