import Tasklang.Proofs.Names

/-! # Paths of a run

A run goes from configuration to configuration. A configuration says what is still to be done in
which scope, task by task, and a move is one step of it: a declaration, a call, the start of a loop,
of a round or of a block, or the end of one. A path is a sequence of moves with the names that they
bind. Where a path leads, the run goes on as it does from where the path began, and every run that
comes to its end has a path to it.
-/

namespace Tasklang.Execution

open Lua Lua.Run

/-- A name that a run bound in a scope, or gave a new value there. -/
structure Event where
  scope : Scope
  name : String
  value : Value

/-- What a run bound, the latest event first. -/
abbrev Log := List Event

/-- The task that a run is at, and its scope with the scopes around it. -/
structure Station where
  task : Nat
  scope : Scope
  around : List Scope

namespace Station

/-- The scopes in which a name is looked up. -/
def scopes (p : Station) : List Scope := p.scope :: p.around

/-- The place in a scope that was opened at another. -/
def inside (p : Station) (inner : Scope) : Station := ⟨p.task, inner, p.scopes⟩

end Station

/-- What is done at a place. -/
inductive Activity where
  /-- Steps; those that are done stand in reverse. -/
  | steps (past next : List Step)
  /-- The rounds of a loop over a table that are left. -/
  | rounds (table : TableRef) (body : List Step) (positions : List Nat)

/-- What a run has to do, and its machine. -/
structure Config where
  todo : List (Station × Activity)
  machine : Machine

/-- The machine after an assignment. -/
def assigned (m : Machine) (s : Scope) (name : String) (v : Value) : Machine :=
  match Scope.holder m name m.scopes.size s with
  | (holder, true) => m.filled holder name v
  | (holder, false) => m.bound holder name v

/-- The machine in which a scope for a round of a loop was opened. -/
def roundBegun (s : Session) (m : Machine) (around : Scope) (v : Value) (n : Nat) : Machine :=
  ((m.opened (some around)).bound ⟨m.scopes.size⟩ s.naming.item v).bound ⟨m.scopes.size⟩
    s.naming.index (.int (Int64.ofNat n))

/-- One step of a run, with what it binds. `keeps` says what the code does that is run on the way. -/
inductive Move (s : Session) (keeps : Machine → Machine → Prop) : Config → Log → Config → Prop where
  | declare {p past next name value todo m m' v} :
    literalValue p.scope value m = .done v m' → keeps m m' →
    Move s keeps ⟨(p, .steps past (.declare name value :: next)) :: todo, m⟩ [⟨p.scope, name, v⟩]
      ⟨(p, .steps (.declare name value :: past) next) :: todo, m'.bound p.scope name v⟩
  | call {p past next target args todo m m₁ m₂ m' f vs results} :
    callable p.scope target m = .done f m₁ → argumentValues p.scope args m₁ = .done vs m₂ →
    evaluated (unlifted (invoke f vs)) m₂ = .done results m' → keeps m m' →
    Move s keeps ⟨(p, .steps past (.call target args :: next)) :: todo, m⟩
      [⟨(Scope.holder m' s.naming.result m'.scopes.size p.scope).1, s.naming.result, first results⟩]
      ⟨(p, .steps (.call target args :: past) next) :: todo,
        assigned m' p.scope s.naming.result (first results)⟩
  | loop {p past next source body todo m m' r} :
    literalValue p.scope source m = .done (.table r) m' → keeps m m' →
    Move s keeps ⟨(p, .steps past (.loop source body :: next)) :: todo, m⟩ []
      ⟨(p, .rounds r body (List.range (m'.tables.getD r {}).border)) ::
        (p, .steps (.loop source body :: past) next) :: todo, m'⟩
  | round {p r body n ns todo m v} :
    v = ((m.opened (some p.scope)).tables.getD r {}).item (n + 1) →
    Move s keeps ⟨(p, .rounds r body (n :: ns)) :: todo, m⟩
      [⟨⟨m.scopes.size⟩, s.naming.index, .int (Int64.ofNat n)⟩,
        ⟨⟨m.scopes.size⟩, s.naming.item, v⟩]
      ⟨(p.inside ⟨m.scopes.size⟩, .steps [] body) :: (p, .rounds r body ns) :: todo,
        roundBegun s m p.scope v n⟩
  | block {p past next body todo m} :
    Move s keeps ⟨(p, .steps past (.block body :: next)) :: todo, m⟩ []
      ⟨(p.inside ⟨m.scopes.size⟩, .steps [] body) :: (p, .steps (.block body :: past) next) :: todo,
        m.opened (some p.scope)⟩
  | looped {p r body todo m} :
    Move s keeps ⟨(p, .rounds r body []) :: todo, m⟩ [] ⟨todo, m⟩
  | ended {p past todo m} :
    Move s keeps ⟨(p, .steps past []) :: todo, m⟩ [] ⟨todo, m⟩

/-- Moves one after the other, with all that they bind. -/
inductive Path (s : Session) (keeps : Machine → Machine → Prop) (c : Config) :
    Log → Config → Prop where
  | start : Path s keeps c [] c
  | move {c' c'' log events} : Path s keeps c log c' → Move s keeps c' events c'' →
    Path s keeps c (events ++ log) c''

/-- What is left of a run. -/
def resume (s : Session) : List (Station × Activity) → Running (Option Nat)
  | [] => return none
  | (p, .steps _ next) :: todo => do
    match ← runSteps s next p.scope with
    | some code => return some code
    | none => resume s todo
  | (p, .rounds r body ns) :: todo => do
    match ← repeatFor s p.scope r (fun inner => runSteps s body inner) ns with
    | some code => return some code
    | none => resume s todo

section Resuming

variable (s : Session) (m : Machine)

theorem assign_eq {ε : Type} (scope : Scope) (name : String) (v : Value) :
    (scope.assign name v : Run ε Unit) m = .done () (assigned m scope name v) := by
  simp only [Scope.assign, bind_apply, Run.get, Outcome.andThen_done, assigned]
  cases Scope.holder m name m.scopes.size scope with
  | mk holder found => cases found <;> rfl

/-- How a run goes on after steps or rounds that may have ended it. -/
def onwards (todo : List (Station × Activity)) (o : Outcome RuntimeError (Option Nat)) :
    Outcome RuntimeError (Option Nat) :=
  o.andThen (fun
    | some code => .done (some code)
    | none => resume s todo) .failed

theorem resume_steps (p : Station) (past next : List Step) (todo : List (Station × Activity)) :
    resume s ((p, .steps past next) :: todo) m = onwards s todo (runSteps s next p.scope m) := by
  simp only [resume, bind_apply, onwards]
  cases runSteps s next p.scope m with
  | done code m' => cases code <;> rfl
  | failed e m' => rfl
  | exhausted => rfl

theorem resume_rounds (p : Station) (r : TableRef) (body : List Step) (ns : List Nat)
    (todo : List (Station × Activity)) :
    resume s ((p, .rounds r body ns) :: todo) m =
      onwards s todo (repeatFor s p.scope r (fun inner => runSteps s body inner) ns m) := by
  simp only [resume, bind_apply, onwards]
  cases repeatFor s p.scope r (fun inner => runSteps s body inner) ns m with
  | done code m' => cases code <;> rfl
  | failed e m' => rfl
  | exhausted => rfl

/-- The first step of several is run before the others. -/
theorem resume_step (p : Station) (past past' next : List Step) (step : Step)
    (todo : List (Station × Activity)) :
    resume s ((p, .steps past (step :: next)) :: todo) m =
      onwards s ((p, .steps past' next) :: todo) (runStep s step p.scope m) := by
  rw [resume_steps, runSteps, bind_apply]
  cases runStep s step p.scope m with
  | done code m' =>
    cases code with
    | some code => rfl
    | none => exact (resume_steps s m' p past' next todo).symm
  | failed e m' => rfl
  | exhausted => rfl

theorem runStep_declare {scope : Scope} {name : String} {value : Literal} {v : Value}
    {m m' : Machine} (h : literalValue scope value m = .done v m') :
    runStep s (.declare name value) scope m = .done none (m'.bound scope name v) := by
  simp only [runStep, bind_apply, h, Outcome.andThen_done, Machine.declare_eq, pure_apply]

theorem runStep_call {scope : Scope} {target : String} {args : List Literal} {f : Value}
    {vs results : List Value} {m m₁ m₂ m' : Machine} (found : callable scope target m = .done f m₁)
    (given : argumentValues scope args m₁ = .done vs m₂)
    (ended : evaluated (unlifted (invoke f vs)) m₂ = .done results m') :
    runStep s (.call target args) scope m =
      .done none (assigned m' scope s.naming.result (first results)) := by
  simp only [runStep, bind_apply, found, given, ended, Outcome.andThen_done, assign_eq, pure_apply]

theorem runStep_loop {scope : Scope} {source : Literal} {body : List Step} {r : TableRef}
    {m m' : Machine} (h : literalValue scope source m = .done (.table r) m') :
    runStep s (.loop source body) scope m =
      repeatFor s scope r (fun inner => runSteps s body inner)
        (List.range (m'.tables.getD r {}).border) m' := by
  simp only [runStep, bind_apply, h, Outcome.andThen_done]
  rfl

theorem runStep_block (scope : Scope) (body : List Step) :
    runStep s (.block body) scope m = runSteps s body ⟨m.scopes.size⟩ (m.opened (some scope)) := by
  simp only [runStep, bind_apply, Scope.child, Machine.new_eq, Outcome.andThen_done]

theorem repeatFor_cons (scope : Scope) (r : TableRef) (body : Scope → Running (Option Nat))
    (n : Nat) (ns : List Nat) :
    repeatFor s scope r body (n :: ns) m =
      (body ⟨m.scopes.size⟩ (roundBegun s m scope
        (((m.opened (some scope)).tables.getD r {}).item (n + 1)) n)).andThen
        (fun code => match code with
          | some code => .done (some code)
          | none => repeatFor s scope r body ns) .failed := by
  simp only [repeatFor, bind_apply, Scope.child, Machine.new_eq, Outcome.andThen_done, Run.table,
    code_apply, Code.exec_table, Machine.declare_eq, roundBegun]
  congr 1

end Resuming

section Adequacy

variable {s : Session} {keeps : Machine → Machine → Prop} {c c' : Config} {log : Log}

/-- After a move, a run goes on as it did before. -/
theorem Move.resume_eq (h : Move s keeps c log c') :
    resume s c.todo c.machine = resume s c'.todo c'.machine := by
  cases h with
  | @declare p past next name value todo m m' v found kept =>
    rw [resume_step s m p past (.declare name value :: past), runStep_declare s found]
    rfl
  | @call p past next target args todo m m₁ m₂ m' f vs results found given ended kept =>
    rw [resume_step s m p past (.call target args :: past), runStep_call s found given ended]
    rfl
  | @loop p past next source body todo m m' r found kept =>
    rw [resume_step s m p past (.loop source body :: past), runStep_loop s found, resume_rounds]
  | @round p r body n ns todo m v item =>
    rw [resume_rounds, repeatFor_cons, ← item]
    refine Eq.trans ?_ (resume_steps s _ (p.inside ⟨m.scopes.size⟩) [] body _).symm
    show _ = onwards s _ (runSteps s body ⟨m.scopes.size⟩ (roundBegun s m p.scope v n))
    cases runSteps s body ⟨m.scopes.size⟩ (roundBegun s m p.scope v n) with
    | done code m' =>
      cases code with
      | some code => rfl
      | none => exact (resume_rounds s m' p r body ns todo).symm
    | failed e m' => rfl
    | exhausted => rfl
  | @block p past next body todo m =>
    rw [resume_step s m p past (.block body :: past), runStep_block, resume_steps]
    rfl
  | looped => rfl
  | ended => rfl

/-- Where a path leads, a run goes on as it did where the path began. -/
theorem Path.resume_eq (h : Path s keeps c log c') :
    resume s c.todo c.machine = resume s c'.todo c'.machine := by
  induction h with
  | start => rfl
  | move _ moved ih => exact ih.trans moved.resume_eq

theorem Path.single (h : Move s keeps c log c') : Path s keeps c log c' := by
  have path := Path.move .start h
  rwa [List.append_nil] at path

theorem Path.trans {c'' : Config} {events : Log} (h : Path s keeps c log c')
    (h' : Path s keeps c' events c'') : Path s keeps c (events ++ log) c'' := by
  induction h' with
  | start => exact h
  | move _ moved ih =>
    rw [List.append_assoc]
    exact ih.move moved

end Adequacy

section Completeness

variable (s : Session)

/-- Nothing is asked of the code that is run on a path. -/
def Anything (_ _ : Machine) : Prop := True

/-- Rounds that do not end a run have a path through them when their body has. -/
theorem path_of_rounds (body : List Step)
    (steps : ∀ {p : Station} {past : List Step} {todo : List (Station × Activity)} {m m' : Machine},
      runSteps s body p.scope m = .done none m' →
        ∃ log, Path s Anything ⟨(p, .steps past body) :: todo, m⟩ log ⟨todo, m'⟩)
    {p : Station} {r : TableRef} {ns : List Nat} {todo : List (Station × Activity)} {m m' : Machine}
    (h : repeatFor s p.scope r (fun inner => runSteps s body inner) ns m = .done none m') :
    ∃ log, Path s Anything ⟨(p, .rounds r body ns) :: todo, m⟩ log ⟨todo, m'⟩ := by
  induction ns generalizing m with
  | nil =>
    cases h
    exact ⟨_, .single .looped⟩
  | cons n ns ih =>
    rw [repeatFor_cons] at h
    generalize body' : runSteps s body ⟨m.scopes.size⟩ _ = o at h
    cases o with
    | done code m₁ =>
      cases code with
      | some code => cases h
      | none =>
        obtain ⟨log, one⟩ := @steps (p.inside ⟨m.scopes.size⟩) [] _ _ _ body'
        obtain ⟨log', others⟩ := ih h
        exact ⟨_, ((Path.single (.round rfl)).trans one).trans others⟩
    | failed e m₁ => cases h
    | exhausted => cases h

mutual

/-- A step that does not end a run has a path through it. -/
theorem path_of_step (step : Step) {p : Station} {past next : List Step}
    {todo : List (Station × Activity)} {m m' : Machine}
    (h : runStep s step p.scope m = .done none m') :
    ∃ log, Path s Anything ⟨(p, .steps past (step :: next)) :: todo, m⟩ log
      ⟨(p, .steps (step :: past) next) :: todo, m'⟩ := by
  cases step with
  | declare name value =>
    simp only [runStep, bind_done, Machine.declare_eq, pure_done] at h
    obtain ⟨v, m₁, found, _, m₂, bound, -, rfl⟩ := h
    cases bound
    exact ⟨_, .single (.declare found trivial)⟩
  | call target args =>
    simp only [runStep, bind_done, assign_eq, pure_done] at h
    obtain ⟨f, m₁, found, vs, m₂, given, results, m₃, ended, _, m₄, kept, -, rfl⟩ := h
    cases kept
    exact ⟨_, .single (.call found given ended trivial)⟩
  | command program args =>
    simp only [runStep, bind_done, pure_done] at h
    obtain ⟨texts, m₁, -, code, m₂, -, h, -⟩ := h
    cases h
  | loop source body =>
    simp only [runStep, bind_done] at h
    obtain ⟨v, m₁, found, h⟩ := h
    cases v with
    | table r =>
      obtain ⟨log, rounds⟩ := path_of_rounds s body (path_of_steps body) h
      exact ⟨_, (Path.single (.loop found trivial)).trans rounds⟩
    | _ => cases h
  | block body =>
    rw [runStep_block] at h
    obtain ⟨log, steps⟩ := @path_of_steps body (p.inside ⟨m.scopes.size⟩) [] _ _ _ h
    exact ⟨_, (Path.single .block).trans steps⟩

/-- Steps that do not end a run have a path through them. -/
theorem path_of_steps (steps : List Step) {p : Station} {past : List Step}
    {todo : List (Station × Activity)} {m m' : Machine}
    (h : runSteps s steps p.scope m = .done none m') :
    ∃ log, Path s Anything ⟨(p, .steps past steps) :: todo, m⟩ log ⟨todo, m'⟩ := by
  cases steps with
  | nil =>
    cases h
    exact ⟨_, .single .ended⟩
  | cons step rest =>
    simp only [runSteps, bind_done] at h
    obtain ⟨code, m₁, first, h⟩ := h
    cases code with
    | some code => cases h
    | none =>
      obtain ⟨log, one⟩ := path_of_step step first
      obtain ⟨log', others⟩ := path_of_steps rest h
      exact ⟨_, one.trans others⟩

end

end Completeness

end Tasklang.Execution
