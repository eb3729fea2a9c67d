import Tasklang.Proofs.Bindings

/-! # How a run starts

A run starts in a machine without scopes. It opens the scope of the program, binds the names that
every program has, and then those of the imports in their order. Where it goes from there, the names
stand for what was bound last.
-/

namespace Tasklang

open Lua Lua.Run

mutual

theorem Namespace.toValue_quiet {ε : Type} (n : Namespace) :
    Quiet (Namespace.toValue n : Run ε Value) := by
  cases n with
  | function f => exact .pure _
  | table entries =>
    exact .bind (.code _) fun r => .bind (Namespace.fill_quiet r entries) fun _ => .pure _

theorem Namespace.fill_quiet {ε : Type} (r : TableRef) (entries : List (String × Namespace)) :
    Quiet (Namespace.fill r entries : Run ε Unit) := by
  cases entries with
  | nil => exact .pure _
  | cons e rest =>
    exact .bind (Namespace.toValue_quiet e.2) fun v =>
      .bind (.code _) fun _ => Namespace.fill_quiet r rest

end

namespace Execution

theorem install_quiet (naming : Naming) (c : Capabilities) : Quiet (install naming c) := by
  unfold install
  split
  · exact .throw _
  · exact .bind (Namespace.toValue_quiet _) fun functions =>
      .bind (.code _) fun object =>
        .bind (evaluated_quiet (unlifted_quiet _)) fun _ => .pure _

/-- What every program binds, in a scope for it that is opened in a machine. -/
def startLog (naming : Naming) (m : Machine) (root : Scope) : Log :=
  [⟨root, naming.env, .table (m.tables.size + 2)⟩, ⟨root, naming.root, .nil⟩,
    ⟨root, naming.result, .nil⟩]

/-- Imports that were bound in order, with what they bound. `keeps` says what the code of the
modules does. -/
inductive Imported (s : Session) (keeps : Machine → Machine → Prop) (root : Scope) :
    Machine → List Import → Log → Machine → Prop where
  | none {m} : Imported s keeps root m [] [] m
  | next {m i imports v m₁ log m'} : importValue s i.source m = .done v m₁ → keeps m m₁ →
    Imported s keeps root (m₁.bound root i.binding v) imports log m' →
    Imported s keeps root m (i :: imports) (log ++ [⟨root, i.binding, v⟩]) m'

/-- What a run has to do in the scope of the program, task by task. -/
def bodyFrom (root : Scope) : Nat → List (List Step) → List (Station × Activity)
  | _, [] => []
  | k, part :: parts => (⟨k, root, []⟩, .steps [] part) :: bodyFrom root (k + 1) parts

/-- A run of a program up to a configuration. `parts` are the steps of the program, task by task. -/
structure Progress (keeps : Machine → Machine → Prop) (p : Program) (parts : List (List Step))
    (c : Capabilities) (w : World) where
  session : Session
  installed : Machine
  root : Scope
  ready : Machine
  imported : Log
  begun : Machine
  events : Log
  config : Config
  installs : install p.naming c (Machine.initial w) = .done session installed
  starts : startScope p.naming installed = .done root ready
  imports : Imported session keeps root ready p.imports imported begun
  path : Path session keeps ⟨bodyFrom root 0 parts, begun⟩ events config

section Imports

variable {s : Session} {keeps : Machine → Machine → Prop} {root : Scope} {m m' : Machine}

/-- Binding imports is done exactly when the value of every one of them is had. -/
theorem bindImports_done {imports : List Import} :
    bindImports s root imports m = .done () m' ↔
      ∃ log, Imported s Anything root m imports log m' := by
  induction imports generalizing m with
  | nil =>
    constructor
    · intro h
      cases h
      exact ⟨[], .none⟩
    · rintro ⟨log, h⟩
      cases h
      rfl
  | cons i imports ih =>
    simp only [bindImports, bind_done, Machine.declare_eq]
    constructor
    · rintro ⟨v, m₁, had, _, m₂, bound, rest⟩
      cases bound
      obtain ⟨log, rest⟩ := ih.1 rest
      exact ⟨_, .next had trivial rest⟩
    · rintro ⟨log, h⟩
      cases h with
      | next had kept rest => exact ⟨_, _, had, _, _, rfl, ih.2 ⟨_, rest⟩⟩

theorem Imported.done {imports : List Import} {log : Log}
    (h : Imported s keeps root m imports log m') : bindImports s root imports m = .done () m' := by
  induction h with
  | none => rfl
  | next had kept rest ih =>
    simp only [bindImports, bind_done, Machine.declare_eq]
    exact ⟨_, _, had, _, _, rfl, ih⟩

/-- Imports after which others are bound are bound before them. -/
theorem Imported.split {before after : List Import} {log : Log}
    (h : Imported s keeps root m (before ++ after) log m') :
    ∃ early late mid, log = late ++ early ∧ early.length = before.length ∧
      Imported s keeps root m before early mid ∧ Imported s keeps root mid after late m' := by
  induction before generalizing m log with
  | nil => exact ⟨[], log, m, (List.append_nil _).symm, rfl, .none, h⟩
  | cons i before ih =>
    cases h with
    | next had kept rest =>
      obtain ⟨early, late, mid, rfl, length, first, last⟩ := ih rest
      refine ⟨_, late, mid, List.append_assoc _ _ _, ?_, .next had kept first, last⟩
      simp [length]

/-- Imports are bound where the program starts. -/
theorem Imported.faithful {name : String} {imports : List Import} {log l : Log}
    (h : Imported s (Machine.Spares name) root m imports log m') (start : Faithful name l m)
    (hs : root.id < m.scopes.size) :
    Faithful name (log ++ l) m' ∧ Extends m m' ∧ m'.budget = m.budget := by
  induction h generalizing l with
  | none => exact ⟨start, Extends.code (.refl _), rfl⟩
  | @next m i imports v m₁ log m' had kept rest ih =>
    have grows := Quiet.done (importValue_quiet s i.source) had
    have room : root.id < m₁.scopes.size := by rwa [grows.scopes]
    obtain ⟨faithful, extends_, budget⟩ := ih ((start.code grows kept).bound room i.binding v)
      (by rwa [Machine.scopes_bound])
    refine ⟨?_, ((Extends.code grows).trans (.bound _ _ _ _)).trans extends_,
      budget.trans grows.budget⟩
    rwa [List.append_assoc]

end Imports

section Start

/-- Making a table leaves all names alone. -/
theorem spares_pushTable {m : Machine} (tidy : m.Tidy) (name : String) (t : Table) :
    Machine.Spares name m { m with tables := m.tables.push t } := by
  intro s hs
  have old {r : Nat} (hr : r < m.tables.size) : (m.tables.push t).getD r {} = m.tables.getD r {} :=
    getD_push_other _ _ (Nat.ne_of_lt hr) _
  have placed := tidy.placed s hs
  refine ⟨?_, fun wired => ?_⟩
  · show ((m.tables.push t).getD (m.seat s) {}).field name = _
    rw [old placed.2, Machine.held]
  · show ((m.tables.push t).getD (m.seat s) {}).metatable = some (m.seat s - 1) ∧
      ((m.tables.push t).getD (m.seat s - 1) {}).field "__index" = _
    rw [old placed.2, old (by omega)]
    exact wired

/-- In a machine without scopes, nothing is bound. -/
theorem Faithful.vacant {m : Machine} (name : String) (empty : m.scopes.size = 0)
    (room : 0 < m.tables.size) : Faithful name [] m where
  tidy := ⟨fun s hs => by omega, fun s t hst ht => by omega, fun s hs => by omega⟩
  room := room
  displayed := ⟨nofun, fun s hs => by omega, fun s hs => by omega⟩

/-- Where a program starts, only what every program binds is bound. -/
theorem startScope_faithful {naming : Naming} {m m' : Machine} {root : Scope} (name : String)
    (empty : m.scopes.size = 0) (room : 0 < m.tables.size)
    (h : startScope naming m = .done root m') :
    Faithful name (startLog naming m root) m' ∧ m'.Chain root [root] ∧
      m'.budget = m.budget := by
  simp only [startScope, bind_done, Scope.root, Machine.new_eq, Machine.declare_eq, Run.newTable,
    pure_done] at h
  obtain ⟨_, _, new, _, m₁, first, _, m₂, second, r, m₃, table, _, m₄, third, rfl, rfl⟩ := h
  cases new
  cases first
  cases second
  cases table
  cases third
  have vacant := Faithful.vacant name empty room
  have root_valid : (⟨m.scopes.size⟩ : Scope).id < (m.opened none).scopes.size := by
    rw [Machine.scopes_opened]
    exact Nat.lt_succ_self _
  have outermost : (m.opened none).Chain ⟨m.scopes.size⟩ [⟨m.scopes.size⟩] := by
    refine .outermost root_valid ?_
    rw [Machine.outer?, Machine.record_opened_new]
    rfl
  have one := (vacant.opened none).bound root_valid naming.result .nil
  have two := one.bound (by rwa [Machine.scopes_bound]) naming.root .nil
  have pushed := two.code (.pushTable _ {}) (spares_pushTable two.tidy name {})
  refine ⟨?_, ?_, rfl⟩
  · have three := pushed.bound (s := ⟨m.scopes.size⟩)
      (by simpa only [Machine.scopes_bound] using root_valid) naming.env (.table (m.tables.size + 2))
    simpa only [Machine.tables_bound, Machine.tables_opened, startLog] using three
  · have afterwards := ((Extends.bound (m.opened none) ⟨m.scopes.size⟩ naming.result .nil).trans
      (.bound _ ⟨m.scopes.size⟩ naming.root .nil)).trans (.code (.pushTable _ {}))
    exact (afterwards.trans (.bound _ _ _ _)).chain outermost

end Start

namespace Progress

variable {p : Program} {parts : List (List Step)} {c : Capabilities} {w : World} {name : String}
  {depth : Nat}

/-- What a run up to a configuration bound. -/
def log {keeps : Machine → Machine → Prop} (r : Progress keeps p parts c w) : Log :=
  r.events ++ (r.imported ++ startLog p.naming r.installed r.root)

theorem seated_bodyFrom {m : Machine} {root : Scope} (chain : m.Chain root [root])
    (shallow : ∀ part ∈ parts, stepsDepth part + 1 ≤ depth) (k : Nat) :
    ∀ f ∈ bodyFrom root k parts,
      m.Chain f.1.scope f.1.scopes ∧ f.1.scopes.length + f.2.depth ≤ depth := by
  induction parts generalizing k with
  | nil => nofun
  | cons part parts ih =>
    intro f hf
    rcases List.mem_cons.1 hf with rfl | hf
    · have := shallow part (.head _)
      refine ⟨chain, ?_⟩
      simp only [Station.scopes, List.length_cons, List.length_nil, Activity.depth]
      omega
    · exact ih (fun part hpart => shallow part (.tail _ hpart)) (k + 1) f hf

/-- Where a run begins with its steps, names stand for what was bound last. -/
theorem started (r : Progress (Machine.Spares name) p parts c w)
    (shallow : ∀ part ∈ parts, stepsDepth part + 1 ≤ depth) (few : depth + 2 ≤ 10000000000) :
    Sound name depth (r.imported ++ startLog p.naming r.installed r.root)
      ⟨bodyFrom r.root 0 parts, r.begun⟩ := by
  have grows := Quiet.done (install_quiet p.naming c) r.installs
  have empty : r.installed.scopes.size = 0 := by
    rw [grows.scopes]
    rfl
  have room : 0 < r.installed.tables.size :=
    Nat.lt_of_lt_of_le (show 0 < initialTables.toArray.size by simp [initialTables]) grows.tables
  obtain ⟨start, chain, budget⟩ := startScope_faithful name empty room r.starts
  obtain ⟨faithful, extends_, budget'⟩ := r.imports.faithful start chain.valid
  have enough : r.begun.budget = 10000000000 := by
    rw [budget', budget, grows.budget]
    rfl
  refine ⟨faithful, ?_, seated_bodyFrom (extends_.chain chain) shallow 0⟩
  show depth + 2 ≤ r.begun.budget
  rwa [enough]

/-- Wherever a run comes to, names stand for what was bound last, as long as the code that it runs
leaves them alone. -/
theorem sound (r : Progress (Machine.Spares name) p parts c w)
    (shallow : ∀ part ∈ parts, stepsDepth part + 1 ≤ depth) (few : depth + 2 ≤ 10000000000) :
    Sound name depth r.log r.config :=
  r.path.sound (r.started shallow few)

theorem runSteps_append (s : Session) (scope : Scope) (first next : List Step) (m : Machine) :
    runSteps s (first ++ next) scope m =
      (runSteps s first scope m).andThen (fun
        | some code => .done (some code)
        | none => runSteps s next scope) .failed := by
  induction first generalizing m with
  | nil => rfl
  | cons step first ih =>
    rw [List.cons_append, runSteps, runSteps, bind_apply, bind_apply]
    cases runStep s step scope m with
    | done code m' =>
      cases code with
      | some code => rfl
      | none => exact ih m'
    | failed e m' => rfl
    | exhausted => rfl

/-- The tasks of a program are run as its steps. -/
theorem resume_bodyFrom (s : Session) (root : Scope) (k : Nat) (parts : List (List Step))
    (m : Machine) : resume s (bodyFrom root k parts) m = runSteps s parts.flatten root m := by
  induction parts generalizing k m with
  | nil => rfl
  | cons part parts ih =>
    rw [bodyFrom, resume_steps, List.flatten_cons, runSteps_append]
    unfold onwards
    congr 1
    funext code m'
    cases code with
    | some code => rfl
    | none => exact ih (k + 1) m'

/-- A run goes on from a configuration that it came to as it does in that configuration. -/
theorem runIn_eq {keeps : Machine → Machine → Prop} (r : Progress keeps p parts c w)
    (whole : p.steps = parts.flatten) :
    runIn p c (Machine.initial w) =
      (resume r.session r.config.todo r.config.machine).andThen
        (fun
          | some code => .done (.exited code)
          | none => .done .completed) .failed := by
  have here := r.path.resume_eq
  simp only [resume_bodyFrom, ← whole] at here
  rw [← here]
  simp only [runIn, bind_apply, r.installs, r.starts, r.imports.done, Outcome.andThen_done]
  congr 1

end Progress

end Execution

end Tasklang
