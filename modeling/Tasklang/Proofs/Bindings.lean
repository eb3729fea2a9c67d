import Tasklang.Proofs.Paths

/-! # Bindings of a run

What a run bound decides what names stand for: in a scope, a name stands for the value of the latest
event for it there, else for what it stands for in the scopes around. A move keeps it so as long as
the code that it runs leaves the name alone, and so does a path.
-/

namespace Tasklang.Execution

open Lua Lua.Run

namespace Log

/-- The value that a name was given last in a scope. -/
def latest? (log : Log) (s : Scope) (name : String) : Option Value :=
  (log.find? fun e => e.scope = s ∧ e.name = name).map (·.value)

/-- The value that a name was given last in the innermost of some scopes that bind it. -/
def meaning? (log : Log) (name : String) : List Scope → Option Value
  | [] => none
  | s :: ss => match log.latest? s name with
    | some v => some v
    | none => meaning? log name ss

theorem latest?_cons_same {e : Event} (log : Log) {s : Scope} {name : String} (hs : e.scope = s)
    (hn : e.name = name) : latest? (e :: log) s name = some e.value := by
  simp [latest?, hs, hn]

theorem latest?_cons_other {e : Event} (log : Log) {s : Scope} {name : String}
    (h : ¬(e.scope = s ∧ e.name = name)) : latest? (e :: log) s name = latest? log s name := by
  simp [latest?, h]

theorem latest?_none {log : Log} {s : Scope} {name : String}
    (h : ∀ e ∈ log, e.scope = s → e.name ≠ name) : latest? log s name = none := by
  simp only [latest?, Option.map_eq_none_iff, List.find?_eq_none, decide_eq_true_eq, not_and]
  exact h

end Log

/-- What a log says about a name is what the scopes of a machine say. -/
structure Shows (name : String) (log : Log) (m : Machine) : Prop where
  within : ∀ e ∈ log, e.scope.id < m.scopes.size
  held : ∀ s : Scope, s.id < m.scopes.size → m.held s name = (log.latest? s name).getD .nil
  declares : ∀ s : Scope, s.id < m.scopes.size →
    (m.Declares s name ↔ (log.latest? s name).isSome)

namespace Shows

variable {name : String} {log : Log} {m m' : Machine}

theorem bare (h : Shows name log m) : m.Bare name := by
  intro s hs new
  rw [h.declares s hs, Option.not_isSome_iff_eq_none] at new
  rw [h.held s hs, new]
  rfl

/-- The innermost scope that declares a name is the innermost one with an event for it. -/
theorem binding (h : Shows name log m) {s : Scope} {ss : List Scope} (chain : m.Chain s ss) :
    m.binding? name ss = log.meaning? name ss := by
  have one {s : Scope} (hs : s.id < m.scopes.size) (ss : List Scope)
      (rest : m.binding? name ss = log.meaning? name ss) :
      m.binding? name (s :: ss) = log.meaning? name (s :: ss) := by
    have declares := h.declares s hs
    have held := h.held s hs
    rw [Machine.binding?, Log.meaning?]
    cases latest : log.latest? s name with
    | some v =>
      rw [latest] at declares held
      have declared : name ∈ (m.record s).declared := declares.2 rfl
      rw [if_pos declared, held]
      rfl
    | none =>
      rw [latest] at declares
      have new : name ∉ (m.record s).declared := fun declared =>
        absurd (declares.1 declared) (by simp)
      rw [if_neg new, rest]
  induction chain with
  | outermost hs last => exact one hs [] rfl
  | inside hs next chain ih => exact one hs _ ih

/-- Code that leaves a name alone changes nothing of what is shown. -/
theorem code (h : Shows name log m) (grows : m.Grows m') (kept : Machine.Spares name m m') :
    Shows name log m' where
  within e he := by
    rw [grows.scopes]
    exact h.within e he
  held s hs := by
    rw [grows.scopes] at hs
    rw [(kept s hs).1, h.held s hs]
  declares s hs := by
    rw [grows.scopes] at hs
    rw [Machine.Declares, Machine.record, grows.scopes]
    exact h.declares s hs

/-- A new scope binds nothing. -/
theorem opened (h : Shows name log m) (tidy : m.Tidy) (outer : Option Scope) :
    Shows name log (m.opened outer) := by
  have nothing : log.latest? ⟨m.scopes.size⟩ name = none := by
    refine Log.latest?_none fun e he hs => absurd (h.within e he) ?_
    rw [hs]
    exact Nat.lt_irrefl _
  refine ⟨fun e he => ?_, fun s hs => ?_, fun s hs => ?_⟩
  · have := h.within e he
    rw [Machine.scopes_opened]
    omega
  · rcases Machine.Tidy.cases_opened hs with old | rfl
    · rw [tidy.held_opened outer old, h.held s old]
    · rw [Machine.Tidy.held_opened_new, nothing]
      rfl
  · rcases Machine.Tidy.cases_opened hs with old | rfl
    · rw [Machine.Declares, Machine.record_opened m outer old]
      exact h.declares s old
    · rw [Machine.Declares, Machine.record_opened_new, nothing]
      simp

/-- Binding a name is an event. -/
theorem bound (h : Shows name log m) (tidy : m.Tidy) {s : Scope} (hs : s.id < m.scopes.size)
    (other : String) (v : Value) : Shows name (⟨s, other, v⟩ :: log) (m.bound s other v) := by
  refine ⟨fun e he => ?_, fun t ht => ?_, fun t ht => ?_⟩
  · rw [Machine.scopes_bound]
    rcases List.mem_cons.1 he with rfl | he
    · exact hs
    · exact h.within e he
  · rw [Machine.scopes_bound] at ht
    rw [tidy.held_bound hs ht]
    by_cases same : s = t ∧ other = name
    · rw [Log.latest?_cons_same _ same.1 same.2, if_pos ⟨same.1.symm, same.2.symm⟩]
      rfl
    · rw [Log.latest?_cons_other _ same, if_neg (fun eq => same ⟨eq.1.symm, eq.2.symm⟩), h.held t ht]
  · rw [Machine.scopes_bound] at ht
    rw [Machine.declares_bound m s t other name v ht]
    by_cases same : s = t ∧ other = name
    · rw [Log.latest?_cons_same _ same.1 same.2]
      simp [same.1, same.2]
    · rw [Log.latest?_cons_other _ same, ← h.declares t ht]
      exact or_iff_right fun eq => same ⟨eq.1.symm, eq.2.symm⟩

/-- Giving a declared name a new value is an event. -/
theorem filled (h : Shows name log m) (tidy : m.Tidy) {s : Scope} (hs : s.id < m.scopes.size)
    {other : String} (declared : m.Declares s other) (v : Value) :
    Shows name (⟨s, other, v⟩ :: log) (m.filled s other v) := by
  refine ⟨fun e he => ?_, fun t ht => ?_, fun t ht => ?_⟩
  · rcases List.mem_cons.1 he with rfl | he
    · exact hs
    · exact h.within e he
  · rw [tidy.held_filled hs ht]
    by_cases same : s = t ∧ other = name
    · rw [Log.latest?_cons_same _ same.1 same.2, if_pos ⟨same.1.symm, same.2.symm⟩]
      rfl
    · rw [Log.latest?_cons_other _ same, if_neg (fun eq => same ⟨eq.1.symm, eq.2.symm⟩)]
      exact h.held t ht
  · show m.Declares t name ↔ _
    by_cases same : s = t ∧ other = name
    · rw [Log.latest?_cons_same _ same.1 same.2]
      obtain ⟨rfl, rfl⟩ := same
      simp [declared]
    · rw [Log.latest?_cons_other _ same]
      exact h.declares t ht

end Shows

section Assignment

variable {m : Machine} {name : String}

/-- The scope to which an assignment goes is one of the machine, and it declares the name when it
was found. -/
theorem holder_cases {s : Scope} {ss : List Scope} (chain : m.Chain s ss) (name : String)
    (fuel : Nat) : (Scope.holder m name fuel s).1.id < m.scopes.size ∧
      ((Scope.holder m name fuel s).2 = true → m.Declares (Scope.holder m name fuel s).1 name) := by
  induction chain generalizing fuel with
  | @outermost s hs last =>
    cases fuel with
    | zero => exact ⟨hs, nofun⟩
    | succ fuel =>
      have outer : (m.record s).outer = none := Option.map_eq_none_iff.1 last
      by_cases declared : name ∈ (m.record s).declared
      · simp [Scope.holder, declared, hs, Machine.Declares]
      · simp [Scope.holder, declared, hs, outer]
  | @inside s o ss hs next chain ih =>
    cases fuel with
    | zero => exact ⟨hs, nofun⟩
    | succ fuel =>
      obtain ⟨id, outer, same⟩ := Option.map_eq_some_iff.1 next
      by_cases declared : name ∈ (m.record s).declared
      · simp [Scope.holder, declared, hs, Machine.Declares]
      · simp only [Scope.holder, List.contains_iff_mem, declared, if_false, outer, same]
        exact ih fuel

/-- An assignment goes to the innermost scope that declares the name, or else to the outermost. -/
theorem holder_eq {s : Scope} {ss : List Scope} (chain : m.Chain s ss) (name : String) {fuel : Nat}
    (enough : ss.length ≤ fuel) (d : Scope) : Scope.holder m name fuel s =
      match ss.find? fun t => (m.record t).declared.contains name with
      | some t => (t, true)
      | none => (ss.getLastD d, false) := by
  induction chain generalizing fuel d with
  | @outermost s hs last =>
    obtain ⟨fuel, rfl⟩ := Nat.exists_eq_add_of_le' enough
    have outer : (m.record s).outer = none := Option.map_eq_none_iff.1 last
    cases declared : (m.record s).declared.contains name <;>
      simp only [List.length_cons, List.length_nil, Scope.holder, declared, outer, List.find?_cons,
        List.find?_nil] <;> rfl
  | @inside s o ss hs next chain ih =>
    obtain ⟨fuel, rfl⟩ := Nat.exists_eq_add_of_le' (Nat.le_trans (Nat.le_add_left 1 _) enough)
    obtain ⟨id, outer, rfl⟩ := Option.map_eq_some_iff.1 next
    have rest := @ih fuel (by simpa using enough) s
    cases declared : (m.record s).declared.contains name
    · simp only [Scope.holder, declared, outer, rest, List.find?_cons, List.getLastD_cons]
      rfl
    · simp only [Scope.holder, declared, List.find?_cons, if_true]

/-- An assignment binds the name, or gives it a new value where it is declared. -/
theorem assigned_cases {s : Scope} {ss : List Scope} (chain : m.Chain s ss) (name : String)
    (v : Value) : ∃ h : Scope, h = (Scope.holder m name m.scopes.size s).1 ∧ h.id < m.scopes.size ∧
      (m.Declares h name ∧ assigned m s name v = m.filled h name v ∨
        assigned m s name v = m.bound h name v) := by
  have cases := holder_cases chain name m.scopes.size
  unfold assigned
  cases found : Scope.holder m name m.scopes.size s with
  | mk h declared =>
    rw [found] at cases
    refine ⟨h, rfl, cases.1, ?_⟩
    cases declared with
    | true => exact .inl ⟨cases.2 rfl, rfl⟩
    | false => exact .inr rfl

end Assignment

/-- A machine whose scopes enclose each other as before. -/
structure Extends (m m' : Machine) : Prop where
  scopes : m.scopes.size ≤ m'.scopes.size
  outer : ∀ s : Scope, s.id < m.scopes.size → m'.outer? s = m.outer? s

namespace Extends

variable {m m' m'' : Machine}

theorem trans (h : Extends m m') (h' : Extends m' m'') : Extends m m'' where
  scopes := Nat.le_trans h.scopes h'.scopes
  outer s hs := (h'.outer s (Nat.lt_of_lt_of_le hs h.scopes)).trans (h.outer s hs)

theorem code (grows : m.Grows m') : Extends m m' where
  scopes := Nat.le_of_eq (by rw [grows.scopes])
  outer s _ := by rw [Machine.outer?, Machine.outer?, Machine.record, Machine.record, grows.scopes]

theorem opened (m : Machine) (outer : Option Scope) : Extends m (m.opened outer) where
  scopes := by
    rw [Machine.scopes_opened]
    omega
  outer s hs := by rw [Machine.outer?, Machine.record_opened m outer hs, Machine.outer?]

theorem bound (m : Machine) (s : Scope) (name : String) (v : Value) :
    Extends m (m.bound s name v) where
  scopes := Nat.le_of_eq (Machine.scopes_bound m s name v).symm
  outer t ht := Machine.outer?_bound m s t name v ht

theorem filled (m : Machine) (s : Scope) (name : String) (v : Value) :
    Extends m (m.filled s name v) :=
  ⟨Nat.le_refl _, fun _ _ => rfl⟩

theorem assigned (m : Machine) (s : Scope) (name : String) (v : Value) :
    Extends m (assigned m s name v) := by
  unfold Execution.assigned
  split
  · exact filled m _ name v
  · exact bound m _ name v

theorem chain (h : Extends m m') {s : Scope} {ss : List Scope} (chain : m.Chain s ss) :
    m'.Chain s ss := by
  induction chain with
  | outermost hs last =>
    exact .outermost (Nat.lt_of_lt_of_le hs h.scopes) ((h.outer _ hs).trans last)
  | inside hs next _ ih =>
    exact .inside (Nat.lt_of_lt_of_le hs h.scopes) ((h.outer _ hs).trans next) ih

end Extends

/-- A machine with tidy scopes, of which a log says what they hold for a name. -/
structure Faithful (name : String) (log : Log) (m : Machine) : Prop where
  tidy : m.Tidy
  room : 0 < m.tables.size
  displayed : Shows name log m

namespace Faithful

variable {name : String} {log : Log} {m m' : Machine}

theorem proper (h : Faithful name log m) {s : Scope} {ss : List Scope} (chain : m.Chain s ss) :
    ∀ t ∈ ss, m.Proper name t := fun t ht =>
  ⟨h.tidy.wired t (chain.mem_valid t ht), h.displayed.bare t (chain.mem_valid t ht)⟩

theorem code (h : Faithful name log m) (grows : m.Grows m') (kept : Machine.Spares name m m') :
    Faithful name log m' where
  tidy := h.tidy.code grows kept
  room := Nat.lt_of_lt_of_le h.room grows.tables
  displayed := h.displayed.code grows kept

theorem opened (h : Faithful name log m) (outer : Option Scope) :
    Faithful name log (m.opened outer) where
  tidy := h.tidy.opened h.room outer
  room := by
    rw [Machine.tables_opened]
    omega
  displayed := h.displayed.opened h.tidy outer

theorem bound (h : Faithful name log m) {s : Scope} (hs : s.id < m.scopes.size) (other : String)
    (v : Value) : Faithful name (⟨s, other, v⟩ :: log) (m.bound s other v) where
  tidy := h.tidy.bound hs other v
  room := by
    rw [Machine.tables_bound]
    exact h.room
  displayed := h.displayed.bound h.tidy hs other v

theorem filled (h : Faithful name log m) {s : Scope} (hs : s.id < m.scopes.size) {other : String}
    (declared : m.Declares s other) (v : Value) :
    Faithful name (⟨s, other, v⟩ :: log) (m.filled s other v) where
  tidy := h.tidy.filled hs other v
  room := by
    rw [Machine.filled, changeAt_size]
    exact h.room
  displayed := h.displayed.filled h.tidy hs declared v

theorem assigned (h : Faithful name log m) {s : Scope} {ss : List Scope} (chain : m.Chain s ss)
    (other : String) (v : Value) :
    Faithful name (⟨(Scope.holder m other m.scopes.size s).1, other, v⟩ :: log)
      (assigned m s other v) := by
  obtain ⟨holder, same, hs, ⟨declared, changed⟩ | changed⟩ := assigned_cases chain other v
  · rw [← same, changed]
    exact h.filled hs declared v
  · rw [← same, changed]
    exact h.bound hs other v

end Faithful

mutual

/-- How deep loops and blocks are nested in a step. -/
def stepDepth : Step → Nat
  | .loop _ body => stepsDepth body + 1
  | .block body => stepsDepth body + 1
  | _ => 0

/-- How deep loops and blocks are nested in steps. -/
def stepsDepth : List Step → Nat
  | [] => 0
  | s :: ss => max (stepDepth s) (stepsDepth ss)

end

/-- How many scopes an activity still opens inside each other. -/
def Activity.depth : Activity → Nat
  | .steps _ next => stepsDepth next
  | .rounds _ body _ => stepsDepth body + 1

/-- What holds of the configurations of a run: the log says what the scopes hold for a name, and
every place has the scopes around it that it says, no more than `depth` of them. -/
structure Sound (name : String) (depth : Nat) (log : Log) (c : Config) : Prop where
  faithful : Faithful name log c.machine
  budget : depth + 2 ≤ c.machine.budget
  seated : ∀ f ∈ c.todo, c.machine.Chain f.1.scope f.1.scopes ∧
    f.1.scopes.length + f.2.depth ≤ depth

section Preservation

variable {s : Session} {name : String} {depth : Nat} {c c' : Config} {log events : Log}

theorem Quiet.done {α : Type} {x : Running α} (quiet : Run.Quiet x) {m m' : Machine} {a : α}
    (h : x m = .done a m') : m.Grows m' := by
  have after := quiet m
  rwa [h] at after

/-- A place stays where it is while the machine goes on. -/
theorem seated_mono {m m' : Machine} (h : Extends m m') {todo : List (Station × Activity)}
    (seated : ∀ f ∈ todo, m.Chain f.1.scope f.1.scopes ∧ f.1.scopes.length + f.2.depth ≤ depth) :
    ∀ f ∈ todo, m'.Chain f.1.scope f.1.scopes ∧ f.1.scopes.length + f.2.depth ≤ depth :=
  fun f hf => ⟨h.chain (seated f hf).1, (seated f hf).2⟩

/-- A scope that is opened at a place is seated inside it. -/
theorem seated_inside {m : Machine} {p : Station} (chain : m.Chain p.scope p.scopes) :
    (m.opened (some p.scope)).Chain ⟨m.scopes.size⟩ (p.inside ⟨m.scopes.size⟩).scopes := by
  refine .inside ?_ ?_ ((Extends.opened m _).chain chain)
  · rw [Machine.scopes_opened]
    exact Nat.lt_succ_self _
  · rw [Machine.outer?, Machine.record_opened_new]
    rfl

/-- A move after which the rest of the steps is left keeps what holds. -/
theorem Sound.advance {p : Station} {past past' next : List Step} {step : Step}
    {todo : List (Station × Activity)} {m m' : Machine}
    (h : Sound name depth log ⟨(p, .steps past (step :: next)) :: todo, m⟩)
    (faithful : Faithful name (events ++ log) m') (extends_ : Extends m m')
    (budget : m'.budget = m.budget) :
    Sound name depth (events ++ log) ⟨(p, .steps past' next) :: todo, m'⟩ where
  faithful := faithful
  budget := by
    rw [show (⟨_, m'⟩ : Config).machine.budget = m.budget from budget]
    exact h.budget
  seated f hf := by
    rcases List.mem_cons.1 hf with rfl | hf
    · obtain ⟨chain, fits⟩ := h.seated _ (.head _)
      refine ⟨extends_.chain chain, ?_⟩
      simp only [Activity.depth, stepsDepth] at fits ⊢
      omega
    · exact seated_mono extends_ (fun f hf => h.seated f (.tail _ hf)) f hf

/-- A move keeps what holds as long as its code leaves the name alone. -/
theorem Move.sound (moved : Move s (Machine.Spares name) c events c')
    (h : Sound name depth log c) : Sound name depth (events ++ log) c' := by
  cases moved with
  | @declare p past next other value todo m m' v found kept =>
    have grows := Quiet.done (literalValue_quiet p.scope value) found
    have faithful := h.faithful.code grows kept
    have extends_ := Extends.code grows
    have chain := extends_.chain (h.seated _ (.head _)).1
    exact h.advance (faithful.bound chain.valid other v) (extends_.trans (.bound _ _ _ _))
      grows.budget
  | @call p past next target args todo m m₁ m₂ m' f vs results found given ended kept =>
    have grows := ((Quiet.done (callable_quiet p.scope target) found).trans
      (Quiet.done (argumentValues_quiet p.scope args) given)).trans
      (Quiet.done (evaluated_quiet (unlifted_quiet _)) ended)
    have faithful := h.faithful.code grows kept
    have extends_ := Extends.code grows
    have chain := extends_.chain (h.seated _ (.head _)).1
    refine h.advance (faithful.assigned chain _ _) (extends_.trans (.assigned _ _ _ _)) ?_
    rw [← grows.budget]
    unfold assigned
    split <;> rfl
  | @loop p past next source body todo m m' r found kept =>
    have grows := Quiet.done (literalValue_quiet p.scope source) found
    have extends_ := Extends.code grows
    have advanced : Sound name depth ([] ++ log) ⟨(p, .steps (.loop source body :: past) next) :: todo, m'⟩ :=
      h.advance (h.faithful.code grows kept) extends_ grows.budget
    refine ⟨advanced.faithful, advanced.budget, fun f hf => ?_⟩
    rcases List.mem_cons.1 hf with rfl | hf
    · obtain ⟨chain, fits⟩ := h.seated _ (.head _)
      refine ⟨extends_.chain chain, ?_⟩
      simp only [Activity.depth, stepsDepth, stepDepth] at fits ⊢
      omega
    · exact advanced.seated f hf
  | @round p r body n ns todo m v item =>
    obtain ⟨chain, fits⟩ := h.seated _ (.head _)
    have room : (⟨m.scopes.size⟩ : Scope).id < (m.opened (some p.scope)).scopes.size := by
      rw [Machine.scopes_opened]
      exact Nat.lt_succ_self _
    have first := (h.faithful.opened (some p.scope)).bound room s.naming.item v
    have faithful := first.bound (by rwa [Machine.scopes_bound]) s.naming.index
      (.int (Int64.ofNat n))
    have inner : Extends (m.opened (some p.scope)) (roundBegun s m p.scope v n) :=
      (Extends.bound _ _ _ _).trans (.bound _ _ _ _)
    have extends_ := (Extends.opened m (some p.scope)).trans inner
    refine ⟨faithful, h.budget, fun f hf => ?_⟩
    rcases List.mem_cons.1 hf with rfl | hf
    · refine ⟨inner.chain (seated_inside chain), ?_⟩
      simp only [Activity.depth, Station.inside, Station.scopes, List.length_cons] at fits ⊢
      omega
    · rcases List.mem_cons.1 hf with rfl | hf
      · exact ⟨extends_.chain chain, fits⟩
      · exact seated_mono extends_ (fun f hf => h.seated f (.tail _ hf)) f hf
  | @block p past next body todo m =>
    have extends_ := Extends.opened m (some p.scope)
    have advanced : Sound name depth ([] ++ log)
        ⟨(p, .steps (.block body :: past) next) :: todo, m.opened (some p.scope)⟩ :=
      h.advance (h.faithful.opened _) extends_ rfl
    refine ⟨advanced.faithful, advanced.budget, fun f hf => ?_⟩
    rcases List.mem_cons.1 hf with rfl | hf
    · obtain ⟨chain, fits⟩ := h.seated _ (.head _)
      refine ⟨seated_inside chain, ?_⟩
      simp only [Activity.depth, stepsDepth, stepDepth, Station.inside, Station.scopes,
        List.length_cons] at fits ⊢
      omega
    · exact advanced.seated f hf
  | looped => exact ⟨h.faithful, h.budget, fun f hf => h.seated f (.tail _ hf)⟩
  | ended => exact ⟨h.faithful, h.budget, fun f hf => h.seated f (.tail _ hf)⟩

/-- What holds where a path begins holds where it leads. -/
theorem Path.sound (path : Path s (Machine.Spares name) c events c')
    (h : Sound name depth log c) : Sound name depth (events ++ log) c' := by
  induction path with
  | start => exact h
  | move _ moved ih =>
    rw [List.append_assoc]
    exact moved.sound ih

end Preservation

section Reading

variable {name : String} {depth : Nat} {c : Config} {log : Log} {m' : Machine}
  {f : Station × Activity}

/-- A name with an event in one of the scopes at hand stands for the value of the latest one. -/
theorem Sound.get_bound (h : Sound name depth log c) (levels : 2 * depth + 1 < Site.levelLimit)
    (here : f ∈ c.todo) (grows : c.machine.Grows m') (kept : Machine.Spares name c.machine m')
    {v : Value} (bound : log.meaning? name f.1.scopes = some v) :
    f.1.scope.get name m' = .done v m' := by
  obtain ⟨chain, fits⟩ := h.seated f here
  have faithful := h.faithful.code grows kept
  have budget := h.budget
  have chain := (Extends.code grows).chain chain
  refine get_of_meaning chain (faithful.proper chain) ?_ (by omega) ?_
  · rw [grows.budget]
    omega
  · rw [Machine.meaning?, faithful.displayed.binding chain, bound]

/-- A name without an event stands for a global. -/
theorem Sound.get_global (h : Sound name depth log c) (levels : 2 * depth + 1 < Site.levelLimit)
    (here : f ∈ c.todo) (grows : c.machine.Grows m') (kept : Machine.Spares name c.machine m')
    (free : log.meaning? name f.1.scopes = none) (there : m'.global name ≠ .nil) :
    f.1.scope.get name m' = .done (m'.global name) m' := by
  obtain ⟨chain, fits⟩ := h.seated f here
  have faithful := h.faithful.code grows kept
  have budget := h.budget
  have chain := (Extends.code grows).chain chain
  refine get_of_meaning chain (faithful.proper chain) ?_ (by omega) ?_
  · rw [grows.budget]
    omega
  · rw [Machine.meaning?, faithful.displayed.binding chain, free]
    cases value : m'.global name with
    | nil => exact absurd value there
    | _ => rfl

/-- A name without an event that is no global either is unbound. -/
theorem Sound.get_unbound (h : Sound name depth log c) (levels : 2 * depth + 1 < Site.levelLimit)
    (here : f ∈ c.todo) (grows : c.machine.Grows m') (kept : Machine.Spares name c.machine m')
    (plain : m'.PlainGlobals) (free : log.meaning? name f.1.scopes = none)
    (nothing : m'.global name = .nil) :
    ∃ m'', f.1.scope.get name m' = .failed (.unbound name) m'' := by
  obtain ⟨chain, fits⟩ := h.seated f here
  have faithful := h.faithful.code grows kept
  have budget := h.budget
  have chain := (Extends.code grows).chain chain
  refine get_of_unbound chain (faithful.proper chain) plain ?_ (by omega) ?_
  · rw [grows.budget]
    omega
  · rw [Machine.meaning?, faithful.displayed.binding chain, free, nothing]

end Reading

end Tasklang.Execution
