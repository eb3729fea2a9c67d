import Tasklang.Proofs.Reading

/-! # What a run leaves alone

A run declares names only in the scope in which it runs a declaration. So the scope of a program
declares what every program binds, its imports, and what the declarations at the top have bound so
far; names within blocks and loops stay inside. And where code assigns to no name of a scope, a block
or a loop leaves all values alone that the scopes around it hold, apart from that of the result.
-/

namespace Tasklang

/-- The name that a step binds in the scope in which it is run. -/
def Step.binds? : Step → Option String
  | .declare name _ => some name
  | _ => none

theorem Fragment.boundNames_eq (f : Fragment) :
    f.boundNames = f.imports.map (·.binding) ++ f.steps.filterMap Step.binds? := rfl

namespace Execution

open Lua Lua.Run

/-- A machine in which the scopes that there were are what they were, apart from what some of them
hold and may have come to declare. -/
structure Frame (touched : List Scope) (m m' : Machine) : Prop extends Extends m m' where
  record : ∀ s : Scope, s.id < m.scopes.size → s ∉ touched → m'.record s = m.record s
  declares : ∀ (s : Scope) (name : String), s.id < m.scopes.size → m.Declares s name →
    m'.Declares s name

namespace Frame

variable {touched touched' : List Scope} {m m' m'' : Machine}

theorem trans (h : Frame touched m m') (h' : Frame touched m' m'') : Frame touched m m'' where
  toExtends := h.toExtends.trans h'.toExtends
  record s hs new :=
    (h'.record s (Nat.lt_of_lt_of_le hs h.scopes) new).trans (h.record s hs new)
  declares s name hs declared :=
    h'.declares s name (Nat.lt_of_lt_of_le hs h.scopes) (h.declares s name hs declared)

theorem mono (h : Frame touched m m') (sub : touched ⊆ touched') : Frame touched' m m' where
  toExtends := h.toExtends
  record s hs new := h.record s hs fun there => new (sub there)
  declares := h.declares

theorem of_record (extends_ : Extends m m')
    (record : ∀ s : Scope, s.id < m.scopes.size → m'.record s = m.record s) : Frame [] m m' where
  toExtends := extends_
  record s hs _ := record s hs
  declares s name hs declared := by rwa [Machine.Declares, record s hs]

theorem code (grows : m.Grows m') : Frame [] m m' :=
  of_record (.code grows) fun s _ => by rw [Machine.record, Machine.record, grows.scopes]

theorem opened (m : Machine) (outer : Option Scope) : Frame [] m (m.opened outer) :=
  of_record (.opened m outer) fun _ hs => Machine.record_opened m outer hs

theorem filled (m : Machine) (s : Scope) (name : String) (v : Value) :
    Frame [] m (m.filled s name v) :=
  of_record (.filled m s name v) fun _ _ => rfl

theorem bound (m : Machine) (s : Scope) (name : String) (v : Value) :
    Frame [s] m (m.bound s name v) where
  toExtends := .bound m s name v
  record t ht other := by
    rw [Machine.record_bound m s t name v ht, if_neg (mt List.mem_singleton.2 other)]
  declares t x ht declared := (Machine.declares_bound m s t name x v ht).2 (.inr declared)

/-- What touches only a scope that is new touches none of those that there were. -/
theorem inside (h : Frame [] m m') {s : Scope} (new : m.scopes.size ≤ s.id)
    (h' : Frame [s] m' m'') : Frame [] m m'' := by
  refine of_record (h.toExtends.trans h'.toExtends) fun t ht => ?_
  have other : t ∉ [s] := fun there => by
    rw [List.mem_singleton.1 there] at ht
    omega
  exact (h'.record t (Nat.lt_of_lt_of_le ht h.scopes) other).trans (h.record t ht List.not_mem_nil)

end Frame

/-- What holds after a sequence, when it holds after its first part and goes on to hold. -/
theorem after_bind {ε α β : Type} {x : Run ε α} {f : α → Run ε β} {m : Machine}
    {P : Machine → Prop} (first : (x m).After P)
    (next : ∀ a m', x m = .done a m' → P m' → (f a m').After P) : ((x >>= f) m).After P := by
  rw [bind_apply]
  cases h : x m with
  | done a m' =>
    rw [h] at first
    exact next a m' h first
  | failed e m' =>
    rw [h] at first
    exact first
  | exhausted => trivial

theorem after_quiet {α : Type} {x : Running α} (quiet : Run.Quiet x) (m : Machine) :
    (x m).After (Frame [] m) := (quiet m).imp fun _ grows => .code grows

/-- Whether the result of a call is declared by a scope or by one around it. -/
def Answering (s : Session) (m : Machine) (scope : Scope) : Prop :=
  ∃ ss, m.Chain scope ss ∧ ∃ t ∈ ss, m.Declares t s.naming.result

section Steps

variable {s : Session} {m m' : Machine} {scope : Scope}

theorem Frame.answering {touched : List Scope} (h : Frame touched m m') (here : Answering s m scope) :
    Answering s m' scope := by
  obtain ⟨ss, chain, t, ht, declared⟩ := here
  exact ⟨ss, h.chain chain, t, ht, h.declares t _ (chain.mem_valid t ht) declared⟩

theorem Answering.opened (h : Answering s m scope) :
    Answering s (m.opened (some scope)) ⟨m.scopes.size⟩ := by
  obtain ⟨ss, chain, t, ht, declared⟩ := Frame.answering (.opened m (some scope)) h
  refine ⟨_ :: ss, .inside ?_ ?_ chain, t, .tail _ ht, declared⟩
  · rw [Machine.scopes_opened]
    exact Nat.lt_succ_self _
  · rw [Machine.outer?, Machine.record_opened_new]
    rfl

/-- The result of a call goes to a scope that declares it. -/
theorem Answering.assigned (h : Answering s m scope) (v : Value) :
    Frame [] m (assigned m scope s.naming.result v) := by
  obtain ⟨ss, chain, t, ht, declared⟩ := h
  have found := holder_eq chain s.naming.result chain.length_le scope
  unfold Execution.assigned
  rw [found]
  cases find : ss.find? fun t => (m.record t).declared.contains s.naming.result with
  | some holder => exact .filled m holder _ v
  | none =>
    rw [List.find?_eq_none] at find
    exact absurd (List.contains_iff_mem.2 declared) (find t ht)

/-- The scopes in which a step may declare a name. -/
def touchedBy (scope : Scope) (step : Step) : List Scope :=
  match step.binds? with
  | some _ => [scope]
  | none => []

theorem touchedBy_subset (scope : Scope) (step : Step) : touchedBy scope step ⊆ [scope] := by
  unfold touchedBy
  split
  · exact fun _ h => h
  · nofun

/-- Rounds leave the scopes alone in which they are run when their body does. -/
theorem repeatFor_frame {r : TableRef} {body : Scope → Running (Option Nat)}
    (steps : ∀ (inner : Scope) (m : Machine), Answering s m inner →
      (body inner m).After (Frame [inner] m))
    (ns : List Nat) (here : Answering s m scope) :
    (repeatFor s scope r body ns m).After (Frame [] m) := by
  induction ns generalizing m with
  | nil => exact Frame.of_record (.code (.refl m)) fun _ _ => rfl
  | cons n ns ih =>
    rw [repeatFor_cons]
    generalize ((m.opened (some scope)).tables.getD r {}).item (n + 1) = v
    have fresh : Frame [⟨m.scopes.size⟩] (m.opened (some scope)) (roundBegun s m scope v n) :=
      (Frame.bound _ _ _ _).trans (.bound _ _ _ _)
    have began : Frame [] m (roundBegun s m scope v n) :=
      (Frame.opened m (some scope)).inside (Nat.le_refl _) fresh
    have round := steps ⟨m.scopes.size⟩ _ (fresh.answering here.opened)
    cases ended : body ⟨m.scopes.size⟩ (roundBegun s m scope v n) with
    | done code m' =>
      rw [ended] at round
      have whole : Frame [] m m' := began.inside (Nat.le_refl _) round
      cases code with
      | some code => exact whole
      | none => exact (ih (whole.answering here)).imp fun _ later => whole.trans later
    | failed e m' =>
      rw [ended] at round
      exact began.inside (Nat.le_refl _) round
    | exhausted => trivial

mutual

/-- A step leaves all scopes that there were what they are, unless it declares a name in its own. -/
theorem runStep_frame (step : Step) (scope : Scope) {m : Machine} (here : Answering s m scope) :
    (runStep s step scope m).After (Frame (touchedBy scope step) m) := by
  cases step with
  | declare name value =>
    refine after_bind ((after_quiet (literalValue_quiet scope value) m).imp fun _ h => h.mono nofun)
      fun v m₁ _ h => ?_
    exact h.trans (.bound m₁ scope name v)
  | call target args =>
    refine after_bind (after_quiet (callable_quiet scope target) m) fun f m₁ _ first => ?_
    refine after_bind ((after_quiet (argumentValues_quiet scope args) m₁).imp fun _ => first.trans)
      fun vs m₂ _ second => ?_
    refine after_bind ((after_quiet (evaluated_quiet (unlifted_quiet _)) m₂).imp
      fun _ => second.trans) fun results m₃ _ third => ?_
    rw [bind_apply, assign_eq]
    -- the result is declared around every step, so that assigning it declares nothing
    exact third.trans ((third.answering here).assigned _)
  | command program args =>
    refine after_bind (after_quiet (argumentTexts_quiet scope args) m) fun texts m₁ _ first => ?_
    refine after_bind ((after_quiet (runProgram_quiet s.base program texts) m₁).imp
      fun _ => first.trans) fun code m₂ _ second => second
  | loop source body =>
    refine after_bind (after_quiet (literalValue_quiet scope source) m) fun v m₁ _ first => ?_
    cases v with
    | table r =>
      exact (repeatFor_frame (fun inner m => runSteps_frame body inner) _
        (first.answering here)).imp fun _ => first.trans
    | _ => exact first
  | block body =>
    rw [runStep_block]
    exact (runSteps_frame body _ here.opened).imp fun _ =>
      (Frame.opened m (some scope)).inside (Nat.le_refl _)

/-- Steps leave all scopes that there were what they are, apart from their own. -/
theorem runSteps_frame (steps : List Step) (scope : Scope) {m : Machine}
    (here : Answering s m scope) : (runSteps s steps scope m).After (Frame [scope] m) := by
  cases steps with
  | nil => exact (Frame.code (.refl m)).mono nofun
  | cons step rest =>
    refine after_bind ((runStep_frame step scope here).imp fun _ h =>
      h.mono (touchedBy_subset scope step)) fun code m₁ _ first => ?_
    cases code with
    | some code => exact first
    | none => exact (runSteps_frame rest scope (first.answering here)).imp fun _ => first.trans

end

end Steps

section Tops

variable {s : Session} {root : Scope} {m m' : Machine} {steps : List Step} {code : Option Nat}

/-- Steps that were run one after the other, of which the last may have ended the run. -/
inductive Executed (s : Session) (root : Scope) (m : Machine) :
    List Step → Option Nat → Machine → Prop where
  | start : Executed s root m [] none m
  | next {steps step code m₁ m'} : Executed s root m steps none m₁ →
    runStep s step root m₁ = .done code m' → Executed s root m (steps ++ [step]) code m'

theorem Executed.append {rest : List Step} {m₁ : Machine} (h : Executed s root m steps none m₁)
    (ran : runSteps s rest root m₁ = .done code m') : ∃ before after, rest = before ++ after ∧
      Executed s root m (steps ++ before) code m' ∧ (code = none → after = []) := by
  induction rest generalizing steps m₁ with
  | nil =>
    cases ran
    exact ⟨[], [], rfl, by rwa [List.append_nil], fun _ => rfl⟩
  | cons step rest ih =>
    simp only [runSteps, bind_done] at ran
    obtain ⟨ended, m₂, first, ran⟩ := ran
    have one := h.next first
    cases ended with
    | some code =>
      cases ran
      exact ⟨[step], rest, rfl, one, fun ended => absurd ended (Option.some_ne_none code)⟩
    | none =>
      obtain ⟨before, after, rfl, executed, whole⟩ := ih one ran
      refine ⟨step :: before, after, rfl, ?_, whole⟩
      rwa [List.append_assoc] at executed

/-- Steps that are run are executed, all of them unless the run was ended. -/
theorem runSteps_executed (ran : runSteps s steps root m = .done code m') :
    ∃ before after, steps = before ++ after ∧ Executed s root m before code m' ∧
      (code = none → after = []) :=
  Executed.append .start ran

/-- A step declares at most the name that it binds in its scope. -/
theorem runStep_declares {step : Step} (ran : runStep s step root m = .done code m')
    (here : Answering s m root) (x : String) :
    m'.Declares root x ↔ m.Declares root x ∨ step.binds? = some x := by
  have kept := runStep_frame step root here
  obtain ⟨ss, chain, -⟩ := here
  cases step with
  | declare name value =>
    simp only [runStep, bind_done, Machine.declare_eq, pure_done] at ran
    obtain ⟨v, m₁, had, _, _, bound, -, rfl⟩ := ran
    cases bound
    have code := Frame.code (Quiet.done (literalValue_quiet root value) had)
    have same : m₁.Declares root x ↔ m.Declares root x := by
      rw [Machine.Declares, Machine.Declares, code.record root chain.valid List.not_mem_nil]
    rw [Machine.declares_bound m₁ root root name x v (code.chain chain).valid, same, Step.binds?,
      Option.some_inj]
    constructor
    · exact fun h => h.symm.imp_right fun h => h.2.symm
    · exact fun h => h.symm.imp_left fun h => ⟨rfl, h.symm⟩
  | _ =>
    rw [ran] at kept
    rw [Machine.Declares, Machine.Declares, kept.record root chain.valid List.not_mem_nil]
    simp [Step.binds?]

/-- Steps at the top declare the names that they bind, and no others. -/
theorem Executed.declares (h : Executed s root m steps code m') (here : Answering s m root) :
    Answering s m' root ∧ ∀ x, m'.Declares root x ↔
      m.Declares root x ∨ x ∈ steps.filterMap Step.binds? := by
  induction h with
  | start => exact ⟨here, fun x => by simp⟩
  | @next steps step code m₁ m' _ ran ih =>
    obtain ⟨answering, earlier⟩ := ih
    refine ⟨?_, fun x => ?_⟩
    · have kept := runStep_frame step root answering
      rw [ran] at kept
      exact kept.answering answering
    · rw [runStep_declares ran answering x, earlier, List.filterMap_append, List.mem_append, or_assoc]
      simp

end Tops

section Start

variable {p : Program} {c : Capabilities} {w : World} {s : Session} {root : Scope} {m m' : Machine}

/-- Where a run begins with its steps: what the program may use is installed, its scope is opened,
and its imports are bound. -/
def Launched (p : Program) (c : Capabilities) (w : World) (s : Session) (root : Scope) (m : Machine) :
    Prop :=
  ∃ installed ready, install p.naming c (Machine.initial w) = .done s installed ∧
    startScope p.naming installed = .done root ready ∧
    bindImports s root p.imports ready = .done () m

/-- Binding imports touches the scope alone in which they are bound, and declares their names. -/
theorem bindImports_frame {imports : List Import}
    (bound : bindImports s root imports m = .done () m') (valid : root.id < m.scopes.size)
    (spaced : m.Spaced) : Frame [root] m m' ∧ m'.Spaced ∧ m.tables.size ≤ m'.tables.size ∧
      ∀ x, m'.Declares root x ↔ m.Declares root x ∨ x ∈ imports.map (·.binding) := by
  induction imports generalizing m with
  | nil =>
    cases bound
    exact ⟨(Frame.code (.refl _)).mono nofun, spaced, Nat.le_refl _, fun x => by simp⟩
  | cons i imports ih =>
    simp only [bindImports, bind_done, Machine.declare_eq] at bound
    obtain ⟨v, m₁, had, _, m₂, one, rest⟩ := bound
    cases one
    have grows := Quiet.done (importValue_quiet s i.source) had
    have valid₁ : root.id < m₁.scopes.size := by rwa [grows.scopes]
    obtain ⟨frame, spaced', size, declares⟩ := ih rest (by rwa [Machine.scopes_bound])
      ((spaced.code grows).bound root i.binding v)
    refine ⟨(((Frame.code grows).mono nofun).trans (.bound m₁ root i.binding v)).trans frame, spaced',
      ?_, fun x => ?_⟩
    · rw [Machine.tables_bound] at size
      exact Nat.le_trans grows.tables size
    · rw [declares, Machine.declares_bound m₁ root root i.binding x v valid₁, Machine.Declares,
        Machine.record, grows.scopes, List.map_cons, List.mem_cons, Machine.Declares, Machine.record]
      tauto

theorem Log.latest?_isSome (log : Log) (s : Scope) (name : String) :
    (log.latest? s name).isSome ↔ ∃ e ∈ log, e.scope = s ∧ e.name = name := by
  simp [Log.latest?, List.find?_isSome]

/-- In the scope in which a program starts, what every program binds is declared. -/
theorem startScope_declares {naming : Naming} (empty : m.scopes.size = 0) (room : 0 < m.tables.size)
    (starts : startScope naming m = .done root m') : m'.Chain root [root] ∧ m'.Spaced ∧
      0 < m'.tables.size ∧
      ∀ x, m'.Declares root x ↔ x ∈ [naming.result, naming.root, naming.env] := by
  obtain ⟨faithful, chain, -⟩ := startScope_faithful "" empty room starts
  refine ⟨chain, faithful.tidy.spaced, faithful.room, fun x => ?_⟩
  obtain ⟨faithful, -, -⟩ := startScope_faithful x empty room starts
  rw [faithful.displayed.declares root chain.valid]
  rw [Log.latest?_isSome]
  simp only [startLog, List.mem_cons, List.not_mem_nil, or_false]
  constructor
  · rintro ⟨e, rfl | rfl | rfl, -, rfl⟩ <;> simp
  · rintro (rfl | rfl | rfl)
    · exact ⟨⟨root, naming.result, .nil⟩, by simp, rfl, rfl⟩
    · exact ⟨⟨root, naming.root, .nil⟩, by simp, rfl, rfl⟩
    · exact ⟨⟨root, naming.env, .table (m.tables.size + 2)⟩, by simp, rfl, rfl⟩

theorem installed_vacant {installed : Machine}
    (installs : install p.naming c (Machine.initial w) = .done s installed) :
    installed.scopes.size = 0 ∧ 0 < installed.tables.size := by
  have grows := Quiet.done (install_quiet p.naming c) installs
  have room : 0 < initialTables.toArray.size := by simp [initialTables]
  exact ⟨by rw [grows.scopes]; rfl, Nat.lt_of_lt_of_le room grows.tables⟩

/-- Where a run begins with its steps, its scope declares what every program binds and its imports,
and the result of calls is among them. -/
theorem Launched.declares (h : Launched p c w s root m) : m.Chain root [root] ∧ m.Spaced ∧
    0 < m.tables.size ∧ Answering s m root ∧
    ∀ x, m.Declares root x ↔ x ∈ [p.naming.result, p.naming.root, p.naming.env] ∨
      x ∈ p.imports.map (·.binding) := by
  obtain ⟨installed, ready, installs, starts, bound⟩ := h
  obtain ⟨empty, room⟩ := installed_vacant installs
  obtain ⟨chain, spaced, room, started⟩ := startScope_declares empty room starts
  obtain ⟨frame, spaced, size, declares⟩ := bindImports_frame bound chain.valid spaced
  have whole (x : String) := (declares x).trans (or_congr_left (started x))
  have chain := frame.chain chain
  refine ⟨chain, spaced, Nat.lt_of_lt_of_le room size, ⟨_, chain, root, .head _, ?_⟩, whole⟩
  rw [install_naming installs, whole]
  exact .inl (.head _)

/-- The scope of a program declares what every program binds, and what the imports and the steps at
the top bind that were executed so far. -/
theorem Launched.declares_executed (h : Launched p c w s root m) {steps : List Step} {code : Option Nat}
    (ran : Executed s root m steps code m') (x : String) : m'.Declares root x ↔
      x ∈ [p.naming.result, p.naming.root, p.naming.env] ∨
        x ∈ ({ imports := p.imports, steps } : Fragment).boundNames := by
  obtain ⟨-, -, -, answering, declares⟩ := h.declares
  rw [(ran.declares answering).2, declares, Fragment.boundNames_eq, List.mem_append, or_assoc]

/-- A run that is completed executes all steps. -/
theorem completed_executed (done : runIn p c (Machine.initial w) = .done .completed m') :
    ∃ s root m, Launched p c w s root m ∧ Executed s root m p.steps none m' := by
  simp only [runIn, bind_done] at done
  obtain ⟨s, installed, installs, root, ready, starts, _, m, bound, code, m₁, ran, ended⟩ := done
  cases code with
  | some code => cases ended
  | none =>
    cases ended
    obtain ⟨before, after, split, executed, whole⟩ := runSteps_executed ran
    rw [whole rfl, List.append_nil] at split
    exact ⟨s, root, m, ⟨installed, ready, installs, starts, bound⟩, split ▸ executed⟩

end Start

section Places

variable {s : Session} {keeps : Machine → Machine → Prop} {c c' : Config} {events : Log}

/-- What holds of the configurations of every run: the scopes of the machine have tables of their
own, and every place has the scopes around it that it says. -/
structure Seated (c : Config) : Prop where
  spaced : c.machine.Spaced
  room : 0 < c.machine.tables.size
  chain : ∀ f ∈ c.todo, c.machine.Chain f.1.scope f.1.scopes

theorem Seated.extend {todo : List (Station × Activity)} {m m' : Machine}
    (h : Seated ⟨todo, m⟩) (extends_ : Extends m m') (spaced : m'.Spaced)
    (room : m.tables.size ≤ m'.tables.size) : Seated ⟨todo, m'⟩ :=
  ⟨spaced, Nat.lt_of_lt_of_le h.room room, fun f hf => extends_.chain (h.chain f hf)⟩

theorem Seated.advance {p : Station} {activity activity' : Activity}
    {todo : List (Station × Activity)} {m : Machine} (h : Seated ⟨(p, activity) :: todo, m⟩) :
    Seated ⟨(p, activity') :: todo, m⟩ where
  spaced := h.spaced
  room := h.room
  chain f hf := by
    rcases List.mem_cons.1 hf with rfl | hf
    · exact h.chain (p, activity) (.head _)
    · exact h.chain f (.tail _ hf)

theorem Seated.push {f : Station × Activity} {todo : List (Station × Activity)} {m : Machine}
    (h : Seated ⟨todo, m⟩) (chain : m.Chain f.1.scope f.1.scopes) : Seated ⟨f :: todo, m⟩ :=
  ⟨h.spaced, h.room, List.forall_mem_cons.2 ⟨chain, h.chain⟩⟩

theorem Seated.pop {f : Station × Activity} {todo : List (Station × Activity)} {m : Machine}
    (h : Seated ⟨f :: todo, m⟩) : Seated ⟨todo, m⟩ :=
  ⟨h.spaced, h.room, fun f hf => h.chain f (.tail _ hf)⟩

theorem Seated.code {todo : List (Station × Activity)} {m m' : Machine} (h : Seated ⟨todo, m⟩)
    (grows : m.Grows m') : Seated ⟨todo, m'⟩ :=
  h.extend (.code grows) (h.spaced.code grows) grows.tables

theorem Seated.bound {todo : List (Station × Activity)} {m : Machine} (h : Seated ⟨todo, m⟩)
    (s : Scope) (name : String) (v : Value) : Seated ⟨todo, m.bound s name v⟩ :=
  h.extend (.bound m s name v) (h.spaced.bound s name v) (Nat.le_of_eq (m.tables_bound s name v).symm)

theorem Seated.assigned {todo : List (Station × Activity)} {m : Machine} (h : Seated ⟨todo, m⟩)
    (s : Scope) (name : String) (v : Value) : Seated ⟨todo, assigned m s name v⟩ := by
  unfold Execution.assigned
  split
  · refine h.extend (.filled m _ name v) (h.spaced.filled _ name v) ?_
    rw [Machine.filled, changeAt_size]
  · exact h.bound _ name v

theorem Seated.opened {todo : List (Station × Activity)} {m : Machine} (h : Seated ⟨todo, m⟩)
    (outer : Option Scope) : Seated ⟨todo, m.opened outer⟩ :=
  h.extend (.opened m outer) (h.spaced.opened h.room outer) (by
    rw [Machine.tables_opened]
    omega)

theorem Move.seated (moved : Move s keeps c events c') (h : Seated c) : Seated c' := by
  cases moved with
  | @declare p past next name value todo m m' v found kept =>
    exact ((h.code (Quiet.done (literalValue_quiet p.scope value) found)).bound _ _ _).advance
  | @call p past next target args todo m m₁ m₂ m' f vs results found given ended kept =>
    have grows := ((Quiet.done (callable_quiet p.scope target) found).trans
      (Quiet.done (argumentValues_quiet p.scope args) given)).trans
      (Quiet.done (evaluated_quiet (unlifted_quiet _)) ended)
    exact ((h.code grows).assigned _ _ _).advance
  | @loop p past next source body todo m m' r found kept =>
    have coded := h.code (Quiet.done (literalValue_quiet p.scope source) found)
    have here : m'.Chain p.scope p.scopes := coded.chain (p, _) (.head _)
    exact coded.advance.push here
  | @round p r body n ns todo m v item =>
    have inside : Seated ⟨(p.inside ⟨m.scopes.size⟩, .steps [] body) :: (p, .rounds r body ns) :: todo,
        m.opened (some p.scope)⟩ :=
      (h.opened (some p.scope)).advance.push (seated_inside (h.chain _ (.head _)))
    exact (inside.bound _ _ _).bound _ _ _
  | @block p past next body todo m =>
    exact (h.opened (some p.scope)).advance.push (seated_inside (h.chain _ (.head _)))
  | looped => exact h.pop
  | ended => exact h.pop

theorem Path.seated (path : Path s keeps c events c') (h : Seated c) : Seated c' := by
  induction path with
  | start => exact h
  | move _ moved ih => exact moved.seated ih

/-- The places of every run are seated. -/
theorem Progress.seated {p : Program} {parts : List (List Step)} {capabilities : Capabilities}
    {w : World} (r : Progress keeps p parts capabilities w) : Seated r.config := by
  have begun : Launched p capabilities w r.session r.root r.begun :=
    ⟨r.installed, r.ready, r.installs, r.starts, r.imports.done⟩
  obtain ⟨chain, spaced, room, -⟩ := begun.declares
  refine r.path.seated ⟨spaced, room, fun f hf => ?_⟩
  obtain ⟨n, part, -, rfl⟩ := bodyFrom_mem r.root 0 parts f hf
  exact chain

end Places

/-- Machines between which code assigned to no name of a scope. -/
def Unassigned (m m' : Machine) : Prop :=
  ∀ s : Scope, s.id < m.scopes.size → ∀ name, m'.held s name = m.held s name

/-- A machine in which the scopes that there were bind what they did, apart from one name. -/
structure Spared (result : String) (m m' : Machine) : Prop where
  scopes : m.scopes.size ≤ m'.scopes.size
  held : ∀ s : Scope, s.id < m.scopes.size → ∀ name ≠ result, m'.held s name = m.held s name
  declares : ∀ s : Scope, s.id < m.scopes.size → ∀ name ≠ result,
    (m'.Declares s name ↔ m.Declares s name)

namespace Spared

variable {result : String} {m m' m'' : Machine}

theorem refl (result : String) (m : Machine) : Spared result m m :=
  ⟨Nat.le_refl _, fun _ _ _ _ => rfl, fun _ _ _ _ => Iff.rfl⟩

theorem trans (h : Spared result m m') (h' : Spared result m' m'') : Spared result m m'' where
  scopes := Nat.le_trans h.scopes h'.scopes
  held s hs name other :=
    (h'.held s (Nat.lt_of_lt_of_le hs h.scopes) name other).trans (h.held s hs name other)
  declares s hs name other :=
    (h'.declares s (Nat.lt_of_lt_of_le hs h.scopes) name other).trans (h.declares s hs name other)

theorem code (grows : m.Grows m') (kept : Unassigned m m') : Spared result m m' where
  scopes := (Frame.code grows).scopes
  held s hs name _ := kept s hs name
  declares s hs name _ := by
    rw [Machine.Declares, Machine.Declares, (Frame.code grows).record s hs List.not_mem_nil]

theorem opened (spaced : m.Spaced) (outer : Option Scope) :
    Spared result m (m.opened outer) where
  scopes := (Extends.opened m outer).scopes
  held s hs name _ := spaced.held_opened outer hs name
  declares s hs name _ := by
    rw [Machine.Declares, Machine.Declares, (Frame.opened m outer).record s hs List.not_mem_nil]

theorem bound_new (h : Spared result m m') (spaced : m'.Spaced) {t : Scope}
    (valid : t.id < m'.scopes.size) (new : m.scopes.size ≤ t.id) (name : String) (v : Value) :
    Spared result m (m'.bound t name v) := by
  have other {s : Scope} (hs : s.id < m.scopes.size) : s ≠ t := fun same => by
    rw [same] at hs
    omega
  have old {s : Scope} (hs : s.id < m.scopes.size) := Nat.lt_of_lt_of_le hs h.scopes
  refine ⟨by rw [Machine.scopes_bound]; exact h.scopes, fun s hs x not => ?_, fun s hs x not => ?_⟩
  · rw [spaced.held_bound valid (old hs), if_neg (fun both => other hs both.1), h.held s hs x not]
  · rw [Machine.declares_bound m' t s name x v (old hs), ← h.declares s hs x not]
    exact or_iff_right fun both => other hs both.1

/-- The result of a call is the one name that is assigned. -/
theorem assigned (spaced : m.Spaced) {scope : Scope} {ss : List Scope} (chain : m.Chain scope ss)
    (result : String) (v : Value) : Spared result m (assigned m scope result v) := by
  obtain ⟨holder, -, valid, ⟨-, changed⟩ | changed⟩ := assigned_cases chain result v
  · rw [changed]
    refine ⟨Nat.le_refl _, fun s hs x not => ?_, fun s hs x not => Iff.rfl⟩
    rw [spaced.held_filled valid hs, if_neg (fun both => not both.2)]
  · rw [changed]
    refine ⟨by rw [Machine.scopes_bound], fun s hs x not => ?_, fun s hs x not => ?_⟩
    · rw [spaced.held_bound valid hs, if_neg (fun both => not both.2)]
    · rw [Machine.declares_bound m holder s result x v hs]
      exact or_iff_right fun both => not both.2

end Spared

section Insides

variable {s : Session} {c c' : Config} {events : Log} {m : Machine}

/-- Whether what is done at a place leaves the scopes alone of which there were so many: it is done
in a newer scope, or declares no name. -/
def Aside (n : Nat) (f : Station × Activity) : Prop :=
  n ≤ f.1.scope.id ∨ match f.2 with
    | .steps _ next => ∀ step ∈ next, step.binds? = none
    | .rounds _ _ _ => True

theorem Aside.advance {n : Nat} {p : Station} {past past' next : List Step} {step : Step}
    (h : Aside n (p, .steps past (step :: next))) : Aside n (p, .steps past' next) :=
  h.imp_right fun plain step hstep => plain step (.tail _ hstep)

/-- A move whose code assigns to no name of a scope spares the scopes that there were, when all that
is to be done leaves them aside. -/
theorem Move.spares (moved : Move s Unassigned c events c') (seated : Seated c)
    (spared : Spared s.naming.result m c.machine)
    (aside : ∀ f ∈ c.todo, Aside m.scopes.size f) :
    Spared s.naming.result m c'.machine ∧ ∀ f ∈ c'.todo, Aside m.scopes.size f := by
  cases moved with
  | @declare p past next name value todo m₁ m' v found kept =>
    have grows := Quiet.done (literalValue_quiet p.scope value) found
    obtain ⟨first, others⟩ := List.forall_mem_cons.1 aside
    -- a declaration that is still to be run stands in a newer scope
    have new : m.scopes.size ≤ p.scope.id := first.elim id fun plain =>
      absurd (plain _ (.head _)) nofun
    have coded := seated.code grows
    exact ⟨(spared.trans (.code grows kept)).bound_new coded.spaced (coded.chain _ (.head _)).valid
      new name v, List.forall_mem_cons.2 ⟨.inl new, others⟩⟩
  | @call p past next target args todo m₁ m₂ m₃ m' f vs results found given ended kept =>
    have grows := ((Quiet.done (callable_quiet p.scope target) found).trans
      (Quiet.done (argumentValues_quiet p.scope args) given)).trans
      (Quiet.done (evaluated_quiet (unlifted_quiet _)) ended)
    obtain ⟨first, others⟩ := List.forall_mem_cons.1 aside
    have coded := seated.code grows
    exact ⟨(spared.trans (.code grows kept)).trans (.assigned coded.spaced
      (coded.chain _ (.head _)) _ _), List.forall_mem_cons.2 ⟨first.advance, others⟩⟩
  | @loop p past next source body todo m₁ m' r found kept =>
    have grows := Quiet.done (literalValue_quiet p.scope source) found
    obtain ⟨first, others⟩ := List.forall_mem_cons.1 aside
    exact ⟨spared.trans (.code grows kept),
      List.forall_mem_cons.2 ⟨.inr trivial, List.forall_mem_cons.2 ⟨first.advance, others⟩⟩⟩
  | @round p r body n ns todo m₁ v item =>
    obtain ⟨first, others⟩ := List.forall_mem_cons.1 aside
    have opened := seated.opened (some p.scope)
    have valid : (⟨m₁.scopes.size⟩ : Scope).id < (m₁.opened (some p.scope)).scopes.size := by
      rw [Machine.scopes_opened]
      exact Nat.lt_succ_self _
    have item := (spared.trans (.opened seated.spaced (some p.scope))).bound_new opened.spaced valid
      spared.scopes s.naming.item v
    have both := item.bound_new (opened.bound _ _ _).spaced (by rwa [Machine.scopes_bound])
      spared.scopes s.naming.index (.int (Int64.ofNat n))
    exact ⟨both, List.forall_mem_cons.2 ⟨.inl spared.scopes, List.forall_mem_cons.2
      ⟨.inr trivial, others⟩⟩⟩
  | @block p past next body todo m₁ =>
    obtain ⟨first, others⟩ := List.forall_mem_cons.1 aside
    exact ⟨spared.trans (.opened seated.spaced (some p.scope)), List.forall_mem_cons.2
      ⟨.inl spared.scopes, List.forall_mem_cons.2 ⟨first.advance, others⟩⟩⟩
  | looped => exact ⟨spared, fun f hf => aside f (.tail _ hf)⟩
  | ended => exact ⟨spared, fun f hf => aside f (.tail _ hf)⟩

theorem Path.spares (path : Path s Unassigned c events c') (seated : Seated c)
    (spared : Spared s.naming.result m c.machine)
    (aside : ∀ f ∈ c.todo, Aside m.scopes.size f) :
    Spared s.naming.result m c'.machine ∧ ∀ f ∈ c'.todo, Aside m.scopes.size f := by
  induction path with
  | start => exact ⟨spared, aside⟩
  | move before moved ih => exact moved.spares (before.seated seated) ih.1 ih.2

/-- A step with a body spares all scopes that there were. -/
theorem Path.spares_enclosing {step : Step} {body past : List Step} {q : Station}
    (wraps : step.Wraps body) (chain : m.Chain q.scope q.scopes) (spaced : m.Spaced)
    (room : 0 < m.tables.size)
    (path : Path s Unassigned ⟨[(q, .steps past [step])], m⟩ events c') :
    Spared s.naming.result m c'.machine := by
  refine (path.spares (m := m) ⟨spaced, room, ?_⟩ (.refl _ m) ?_).1
  · exact List.forall_mem_singleton.2 chain
  · refine List.forall_mem_singleton.2 (.inr (List.forall_mem_singleton.2 ?_))
    cases wraps <;> rfl

end Insides

section Compiled

open Compile

theorem mem_boundNames_parts {options : CompileOptions} {parts : List Part}
    (bare : ∀ part ∈ parts, part.target.fragment.steps = []) (x : String) :
    x ∈ ({ imports := parts.flatMap (·.target.fragment.imports),
           steps := (parts.map (·.steps)).flatten } : Fragment).boundNames ↔
      ∃ part ∈ parts, x ∈ (part.fragment options).boundNames := by
  induction parts with
  | nil => simp [Fragment.boundNames_eq]
  | cons part parts ih =>
    obtain ⟨own, others⟩ := List.forall_mem_cons.1 bare
    have one : (part.fragment options).boundNames =
        part.target.fragment.imports.map (·.binding) ++ part.steps.filterMap Step.binds? := by
      show ((part.target.fragment.imports ++ []).map _ ++
        (part.target.fragment.steps ++ part.steps).filterMap _) = _
      rw [own, List.append_nil, List.nil_append]
      rfl
    rw [List.exists_mem_cons_iff, ← ih others, one, Fragment.boundNames_eq, Fragment.boundNames_eq]
    simp only [List.flatMap_cons, List.map_append, List.map_cons, List.flatten_cons,
      List.filterMap_append, List.mem_append]
    tauto

theorem command_quiet (s : Session) (program : String) (args : List Literal) (scope : Scope) :
    Quiet (runStep s (.command program args) scope) :=
  .bind (argumentTexts_quiet scope args) fun texts =>
    .bind (runProgram_quiet s.base program texts) fun _ => .pure _

/-- The names of a compiled program stay where they belong. When steps at the top were executed, the
scope of the program declares what every program binds, the imports, and what these steps bind;
after a completed run, what the compiler kept as the bound names of the tasks. A loop or a block,
wherever a run comes to one, spares all scopes that there are, apart from the result, as long as the
code that it runs assigns to no name of a scope. -/
theorem inner_names_stay_inside {options : CompileOptions} {registry : Registry}
    {tasks : List Task} {m₀ m₁ : Machine} {compiled : CompiledProgram}
    (compiles : compile options registry tasks m₀ = .done compiled m₁) (c : Capabilities)
    (w : World) : ∃ parts,
      Parts options registry 0 (startNames options.naming) tasks m₀ parts m₁ ∧
      compiled.program.steps = (parts.map (·.steps)).flatten ∧
      (∀ s root m before after code m', Launched compiled.program c w s root m →
        compiled.program.steps = before ++ after → Executed s root m before code m' →
        ∀ x, m'.Declares root x ↔
          x ∈ [options.naming.result, options.naming.root, options.naming.env] ∨
          x ∈ ({ imports := compiled.program.imports, steps := before } : Fragment).boundNames) ∧
      (∀ m', runIn compiled.program c (Machine.initial w) = .done .completed m' →
        ∃ s root m, Launched compiled.program c w s root m ∧
          Executed s root m compiled.program.steps none m' ∧
          ∀ x, m'.Declares root x ↔
            x ∈ [options.naming.result, options.naming.root, options.naming.env] ∨
            ∃ part ∈ parts, x ∈ (part.fragment options).boundNames) ∧
      (∀ r : Progress Anything compiled.program (parts.map (·.steps)) c w,
        ∀ q past step next todo body, r.config.todo = (q, .steps past (step :: next)) :: todo →
          step.Wraps body →
          (∀ m', runStep r.session step q.scope r.config.machine = .done none m' →
            ∃ log, Path r.session Anything ⟨[(q, .steps past [step])], r.config.machine⟩ log
              ⟨[(q, .steps (step :: past) [])], m'⟩) ∧
          ∀ log c', Path r.session Unassigned ⟨[(q, .steps past [step])], r.config.machine⟩ log c' →
            Spared options.naming.result r.config.machine c'.machine ∧
            ∀ p past next todo program args code m',
              c'.todo = (p, .steps past (.command program args :: next)) :: todo →
              runStep r.session (.command program args) p.scope c'.machine = .done (some code) m' →
              Unassigned c'.machine m' → Spared options.naming.result r.config.machine m') := by
  obtain ⟨parts, is_, naming, imports, steps⟩ := compile_done compiles
  have bare : ∀ part ∈ parts, part.target.fragment.steps = [] := by
    intro part there
    obtain ⟨n, there⟩ := List.mem_iff_getElem?.1 there
    obtain ⟨task, known₁, known₂, m₁, m₂, m₃, -, chosen, -⟩ := is_.at_ there
    exact (classify_done chosen).1
  refine ⟨parts, is_, steps, ?_, ?_, ?_⟩
  · intro s root m before after code m' begun _ executed x
    rw [begun.declares_executed executed, naming]
  · intro m' done
    obtain ⟨s, root, m, begun, executed⟩ := completed_executed done
    refine ⟨s, root, m, begun, executed, fun x => ?_⟩
    rw [begun.declares_executed executed, naming, imports, steps, mem_boundNames_parts bare]
  · intro r q past step next todo body here wraps
    have seated := r.seated
    have there : (q, .steps past (step :: next)) ∈ r.config.todo := by
      rw [here]
      exact .head _
    have chain : r.config.machine.Chain q.scope q.scopes := seated.chain _ there
    have result : r.session.naming.result = options.naming.result := by
      rw [install_naming r.installs, naming]
    refine ⟨fun m' ran => path_of_step r.session step ran, fun log c' path => ?_⟩
    have spared := path.spares_enclosing wraps chain seated.spaced seated.room
    rw [result] at spared
    refine ⟨spared, fun p past next todo program args code m' _ ran kept => ?_⟩
    exact spared.trans (.code (Quiet.done (command_quiet r.session program args p.scope) ran) kept)

end Compiled

namespace Inner

open Compile

/-- A task that declares a variable. -/
def setPort (port : Int) (loop : Option Json) : Task :=
  { use := some "setVars", args := [.obj [("port", .int port)]], loop }

/-- A variable, and another one of its name for an element of a sequence. -/
def tasks : List Task := [setPort 80 none, setPort 81 (some (.arr [.int 1]))]

/-- What both tasks invoke. -/
def target : Compile.Target := ⟨.declaration, "setVars", none, {}⟩

/-- What the first task becomes. -/
def outer : List Step := [.declare "port" (.const (.int 80))]

/-- What is in the block that the second task becomes. -/
def inner : List Step :=
  [.declare "item" (.const (.int 1)), .declare "index" (.const (.int 0)),
    .declare "port" (.const (.int 81))]

section Runs

set_option maxRecDepth 100000

theorem texts : filled? (some "setVars") = some "setVars" ∧
    Template.isTemplated "setVars" = false ∧ Template.parse "setVars" = .ok [.text "setVars"] ∧
    Text.trim (Folder.textOf [.text "setVars"]) = "setVars" ∧ Lua.isIdentifier "port" = true :=
  ⟨by decide, by decide, by cbv, by decide, by decide⟩

theorem completes : (compile {} {} tasks (Machine.initial {})).passes (fun compiled _ =>
    decide (compiled.program.naming = {} ∧ compiled.program.imports = []) &&
      (runIn compiled.program ⟨{}, "/"⟩ (Machine.initial {})).passes fun outcome _ =>
        outcome == .completed) = true := by
  decide +kernel

end Runs

theorem classifies (k : Nat) (known : List String) {task : Task} (use : task.use = some "setVars")
    (m : Machine) : classify (contextOf {} {} k known) task m = .done target m := by
  obtain ⟨filled, templated, parsed, trimmed, -⟩ := texts
  have named : targetName (contextOf {} {} k known) task m = .done "setVars" m := by
    simp only [targetName, use, filled, renderPublic, templated, parsed, Bool.false_eq_true,
      if_false]
    exact congrArg (Outcome.done · m) trimmed
  simp only [classify, bind_apply, named, Outcome.andThen_done]
  rfl

theorem first_steps (known : List String) (m : Machine) :
    taskSteps (contextOf {} {} 0 known) target (setPort 80 none) m = .done outer m := by
  obtain ⟨-, -, -, -, valid⟩ := texts
  simp only [setPort, taskSteps, target, invocationSteps, declarations, valid]
  rfl

theorem second_steps (known : List String) (m : Machine) :
    taskSteps (contextOf {} {} 1 known) target (setPort 81 (some (.arr [.int 1]))) m =
      .done [.block inner] m := by
  obtain ⟨-, -, -, -, valid⟩ := texts
  simp only [setPort, taskSteps, target, loopSteps, elementBlocks, elementBlock, invocationSteps,
    declarations, valid]
  rfl

/-- The tasks become a declaration, and a block with another one. -/
theorem parts_steps {m m' : Machine} {parts : List Part}
    (is_ : Parts {} {} 0 (startNames {}) tasks m parts m') :
    parts = [⟨target, outer⟩, ⟨target, [.block inner]⟩] := by
  cases is_ with
  | next chosen made others =>
    cases (classifies _ _ rfl _).symm.trans chosen
    cases (first_steps _ _).symm.trans made
    cases others with
    | next chosen made others =>
      cases (classifies _ _ rfl _).symm.trans chosen
      cases (second_steps _ _).symm.trans made
      cases others
      rfl

/-- The block declares its name in a scope of its own. -/
theorem block_path (s : Session) (q : Station) (m : Machine) : ∃ log m',
    m'.Declares ⟨m.scopes.size⟩ "port" ∧
    Path s Unassigned ⟨[(q, .steps [] [.block inner])], m⟩ log
      ⟨[(q, .steps [.block inner] [])], m'⟩ := by
  have still (m : Machine) : Unassigned m m := fun _ _ _ => rfl
  refine ⟨_, _, ?_, ((((Path.single .block).move (.declare rfl (still _))).move
    (.declare rfl (still _))).move (.declare rfl (still _))).move .ended⟩
  refine (Machine.declares_bound _ _ _ _ _ _ ?_).2 (.inl ⟨rfl, rfl⟩)
  simp only [Machine.scopes_bound, Machine.scopes_opened]
  exact Nat.lt_succ_self _

/-- The names of the block are not among those of the program, and the variable outside of it keeps its
value. -/
theorem inner_names_stay_inside_blocks : ∃ compiled m,
    compile {} {} tasks (Machine.initial {}) = .done compiled m ∧
    (∃ m' root, runIn compiled.program ⟨{}, "/"⟩ (Machine.initial {}) = .done .completed m' ∧
      ∀ x, m'.Declares root x ↔ x ∈ ["result", "root", "env"] ∨ x = "port") ∧
    ∃ (parts : List (List Step)) (r : Progress Anything compiled.program parts ⟨{}, "/"⟩ {})
      (q : Station) (log : Log) (m' : Machine),
      Path r.session Unassigned ⟨[(q, .steps [] [.block inner])], r.config.machine⟩ log
        ⟨[(q, .steps [.block inner] [])], m'⟩ ∧
      m'.Declares ⟨r.config.machine.scopes.size⟩ "port" ∧ m'.held r.root "port" = .int 80 := by
  obtain ⟨compiled, m, compiles, shape⟩ := Outcome.passes_iff.1 completes
  simp only [Bool.and_eq_true, decide_eq_true_eq] at shape
  obtain ⟨⟨naming, imports⟩, ran⟩ := shape
  obtain ⟨outcome, m', ran, same⟩ := Outcome.passes_iff.1 ran
  cases eq_of_beq same
  obtain ⟨parts, is_, -, -, completed, spared⟩ := inner_names_stay_inside compiles ⟨{}, "/"⟩ {}
  cases parts_steps is_
  obtain ⟨s, root, begun, launched, -, declares⟩ := completed m' ran
  refine ⟨compiled, m, compiles, ⟨m', root, ran, fun x => ?_⟩, ?_⟩
  · have first : (Part.fragment {} ⟨target, outer⟩).boundNames = ["port"] := rfl
    have second : (Part.fragment {} ⟨target, [.block inner]⟩).boundNames = [] := rfl
    rw [declares]
    simp [first, second]
  · obtain ⟨chain, spaced, -⟩ := launched.declares
    obtain ⟨installed, ready, installs, starts, bound⟩ := launched
    have imported : Imported s Anything root ready compiled.program.imports [] begun := by
      rw [imports] at bound ⊢
      cases bound
      exact .none
    have declared : Path s Anything ⟨bodyFrom root 0 [outer, [.block inner]], begun⟩
        ([] ++ ([⟨root, "port", .int 80⟩] ++ []))
        ⟨[(⟨1, root, []⟩, .steps [] [.block inner])], begun.bound root "port" (.int 80)⟩ :=
      (Path.start.move (.declare rfl trivial)).move .ended
    let r : Progress Anything compiled.program [outer, [.block inner]] ⟨{}, "/"⟩ {} := {
      session := s, installed := installed, root := root, ready := ready, imported := []
      begun := begun, events := _, config := _
      installs := installs, starts := starts, imports := imported
      path := declared }
    obtain ⟨log, m'', inside, path⟩ :=
      block_path s ⟨1, root, []⟩ (begun.bound root "port" (.int 80))
    have kept := ((spared r ⟨1, root, []⟩ [] (.block inner) [] [] inner rfl .block).2 log _ path).1
    refine ⟨_, r, ⟨1, root, []⟩, log, m'', path, inside, ?_⟩
    rw [kept.held root (by rw [Machine.scopes_bound]; exact chain.valid) "port" (by decide),
      spaced.held_bound chain.valid chain.valid, if_pos ⟨rfl, rfl⟩]

end Inner

end Execution

end Tasklang
