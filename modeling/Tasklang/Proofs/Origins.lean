import Tasklang.Proofs.Reading

/-! # Where bindings come from

What a run binds in the scopes at hand, other than the names that every program binds, comes from
declarations: from those of the tasks before, which are made in the scope of the program, and from
those that are done where the run is.
-/

namespace Tasklang.Execution

open Lua

/-- What a run does apart from each other: the tasks stand in their order, and the scope in which
steps are run is not that of anything after them, unless it is the scope of the program. -/
def Apart (root : Scope) (f g : Station × Activity) : Prop :=
  f.1.task ≤ g.1.task ∧ ∀ past next, f.2 = .steps past next → f.1.scope ∈ g.1.scopes →
    f.1.scope = root ∧ f.1.task < g.1.task

/-- The declaration of an event, as seen from a task: one of a task before it, in the scope of the
program, or one that is done in the scope of the event. -/
def DeclaredBy (root : Scope) (parts : List (List Step)) (todo : List (Station × Activity))
    (e : Event) (k : Nat) : Prop :=
  (e.scope = root ∧ ∃ j part value, j < k ∧ parts[j]? = some part ∧ .declare e.name value ∈ part) ∨
    ∃ q past next value, (q, .steps past next) ∈ todo ∧ q.scope = e.scope ∧ q.task ≤ k ∧
      .declare e.name value ∈ past

/-- What is bound in the scopes at hand was declared, but for some names. -/
structure Accounted (names : List String) (root : Scope) (parts : List (List Step)) (log : Log)
    (todo : List (Station × Activity)) : Prop where
  whole : ∀ p past next, (p, .steps past next) ∈ todo → p.scope = root →
    parts[p.task]? = some (past.reverse ++ next)
  apart : todo.Pairwise (Apart root)
  comes : ∀ e ∈ log, e.name ∉ names → ∀ f ∈ todo, e.scope ∈ f.1.scopes →
    DeclaredBy root parts todo e f.1.task

section Accounting

variable {names : List String} {root : Scope} {parts : List (List Step)} {log events : Log}
  {p : Station} {past next : List Step} {step : Step} {todo todo' : List (Station × Activity)}

/-- A declaration that is done stays so as long as the places with done steps stay. -/
theorem DeclaredBy.mono {e : Event} {k : Nat} (h : DeclaredBy root parts todo e k)
    (stays : ∀ q past next, (q, .steps past next) ∈ todo →
      ∃ past' next', (q, .steps past' next') ∈ todo' ∧ past ⊆ past') :
    DeclaredBy root parts todo' e k := by
  rcases h with before | ⟨q, past, next, value, there, same, task, declared⟩
  · exact .inl before
  · obtain ⟨past', next', there', sub⟩ := stays q past next there
    exact .inr ⟨q, past', next', value, there', same, task, sub declared⟩

/-- A step is done, with events for what it declares. -/
theorem Accounted.advance (h : Accounted names root parts log ((p, .steps past (step :: next)) :: todo))
    (own : ∀ e ∈ events, e.name ∉ names → e.scope = p.scope ∧ ∃ value, step = .declare e.name value) :
    Accounted names root parts (events ++ log) ((p, .steps (step :: past) next) :: todo) where
  whole q past' next' there top := by
    rcases List.mem_cons.1 there with same | there
    · cases same
      simpa using h.whole p past (step :: next) (.head _) top
    · exact h.whole q past' next' (.tail _ there) top
  apart := by
    obtain ⟨first, others⟩ := List.pairwise_cons.1 h.apart
    refine List.pairwise_cons.2 ⟨fun g hg => ⟨(first g hg).1, fun past' next' _ inside => ?_⟩, others⟩
    exact (first g hg).2 past _ rfl inside
  comes e he other f hf inside := by
    have first := (List.pairwise_cons.1 h.apart).1
    rcases List.mem_append.1 he with new | old
    · obtain ⟨same, value, rfl⟩ := own e new other
      refine .inr ⟨p, _, next, value, .head _, same.symm, ?_, .head _⟩
      rcases List.mem_cons.1 hf with rfl | hf
      · exact Nat.le_refl _
      · exact (first f hf).1
    · have stays : ∀ q past' next', (q, Activity.steps past' next') ∈
          (p, .steps past (step :: next)) :: todo → ∃ past'' next'', (q, .steps past'' next'') ∈
          (p, Activity.steps (step :: past) next) :: todo ∧ past' ⊆ past'' := by
        intro q past' next' there
        rcases List.mem_cons.1 there with same | there
        · cases same
          exact ⟨_, _, .head _, List.subset_cons_self _ _⟩
        · exact ⟨_, _, .tail _ there, List.Subset.refl _⟩
      rcases List.mem_cons.1 hf with rfl | hf
      · exact (h.comes e old other _ (.head _) inside).mono stays
      · exact (h.comes e old other f (.tail _ hf) inside).mono stays

/-- What is begun at a place, in its scope or in a new one, has nothing done yet. -/
theorem Accounted.push {q : Station} {activity : Activity} {f : Station × Activity}
    (h : Accounted names root parts log (f :: todo)) (task : q.task = f.1.task)
    (fresh : ∀ past next, activity = .steps past next →
      q.scope ≠ root ∧ ∀ g ∈ f :: todo, q.scope ∉ g.1.scopes)
    (own : ∀ e ∈ events, e.name ∈ names)
    (seen : ∀ e ∈ log, e.scope ∈ q.scopes → e.scope ∈ f.1.scopes) :
    Accounted names root parts (events ++ log) ((q, activity) :: f :: todo) where
  whole q' past next there top := by
    rcases List.mem_cons.1 there with same | there
    · cases same
      exact absurd top (fresh past next rfl).1
    · exact h.whole q' past next there top
  apart := by
    refine List.pairwise_cons.2 ⟨fun g hg => ⟨?_, fun past next same inside => ?_⟩, h.apart⟩
    · rw [task]
      rcases List.mem_cons.1 hg with rfl | hg
      · exact Nat.le_refl _
      · exact ((List.pairwise_cons.1 h.apart).1 g hg).1
    · exact absurd inside ((fresh past next same).2 g hg)
  comes e he other g hg inside := by
    rcases List.mem_append.1 he with new | old
    · exact absurd (own e new) other
    · have stays : ∀ q' past next, (q', Activity.steps past next) ∈ f :: todo →
          ∃ past' next', (q', .steps past' next') ∈ (q, activity) :: f :: todo ∧ past ⊆ past' :=
        fun q' past next there => ⟨past, next, .tail _ there, List.Subset.refl _⟩
      rcases List.mem_cons.1 hg with rfl | hg
      · rw [task]
        exact (h.comes e old other f (.head _) (seen e old inside)).mono stays
      · exact (h.comes e old other g hg inside).mono stays

/-- The rounds that are left of a loop do not matter. -/
theorem Accounted.rounds {r : TableRef} {body : List Step} {ns : List Nat}
    (h : Accounted names root parts log ((p, .rounds r body ns) :: todo)) (ns' : List Nat) :
    Accounted names root parts log ((p, .rounds r body ns') :: todo) where
  whole q past next there := by
    rcases List.mem_cons.1 there with same | there
    · cases same
    · exact h.whole q past next (.tail _ there)
  apart := by
    obtain ⟨first, others⟩ := List.pairwise_cons.1 h.apart
    exact List.pairwise_cons.2 ⟨fun g hg => ⟨(first g hg).1, nofun⟩, others⟩
  comes e he other f hf inside := by
    have stays : ∀ q past next, (q, Activity.steps past next) ∈ (p, .rounds r body ns) :: todo →
        ∃ past' next', (q, .steps past' next') ∈ (p, Activity.rounds r body ns') :: todo ∧
          past ⊆ past' := by
      intro q past next there
      rcases List.mem_cons.1 there with same | there
      · cases same
      · exact ⟨past, next, .tail _ there, List.Subset.refl _⟩
    rcases List.mem_cons.1 hf with rfl | hf
    · exact (h.comes e he other (p, .rounds r body ns) (.head _) inside).mono stays
    · exact (h.comes e he other f (.tail _ hf) inside).mono stays

/-- What has ended was declared in a scope that is left, or by a task that is done. -/
theorem Accounted.pop {activity : Activity}
    (h : Accounted names root parts log ((p, activity) :: todo))
    (finished : ∀ past next, activity = .steps past next → next = []) :
    Accounted names root parts log todo where
  whole q past next there := h.whole q past next (.tail _ there)
  apart := (List.pairwise_cons.1 h.apart).2
  comes e he other f hf inside := by
    rcases h.comes e he other f (.tail _ hf) inside with before | ⟨q, past, next, value, there, same,
      task, declared⟩
    · exact .inl before
    · rcases List.mem_cons.1 there with here | there
      · cases here
        cases finished past next rfl
        obtain ⟨top, earlier⟩ := ((List.pairwise_cons.1 h.apart).1 f hf).2 past [] rfl (by rwa [same])
        have part := h.whole p past [] (.head _) top
        rw [List.append_nil] at part
        exact .inl ⟨same.symm.trans top, p.task, past.reverse, value, earlier, part,
          List.mem_reverse.2 declared⟩
      · exact .inr ⟨q, past, next, value, there, same, task, declared⟩

end Accounting

section Paths

variable {s : Session} {name : String} {depth : Nat} {root : Scope} {parts : List (List Step)}
  {c c' : Config} {log events : Log} {names : List String}

/-- The names that a run binds as it goes, other than those that it declares. -/
def roundNames (naming : Naming) : List String := [naming.result, naming.item, naming.index]

theorem Move.accounted (moved : Move s (Machine.Spares name) c events c')
    (sound : Sound name depth log c) (origins : Originates root parts c.todo)
    (of : ∀ x ∈ roundNames s.naming, x ∈ names) (h : Accounted names root parts log c.todo) :
    Accounted names root parts (events ++ log) c'.todo := by
  have valid : ∀ f ∈ c.todo, ∀ t ∈ f.1.scopes, t.id < c.machine.scopes.size := fun f hf t ht =>
    (sound.seated f hf).1.mem_valid t ht
  have old : ∀ e ∈ log, e.scope.id < c.machine.scopes.size := sound.faithful.displayed.within
  have new : ∀ f ∈ c.todo, (⟨c.machine.scopes.size⟩ : Scope) ∉ f.1.scopes := fun f hf there =>
    Nat.lt_irrefl _ (valid f hf _ there)
  have inner : ∀ f ∈ c.todo, (⟨c.machine.scopes.size⟩ : Scope) ≠ root := by
    rintro f hf rfl
    exact new f hf (List.mem_of_getLast? (origins f hf).1)
  cases moved with
  | declare found kept =>
    refine h.advance fun e he other => ?_
    cases List.mem_singleton.1 he
    exact ⟨rfl, _, rfl⟩
  | call found given ended kept =>
    refine h.advance fun e he other => ?_
    cases List.mem_singleton.1 he
    exact absurd (of _ (.head _)) other
  | loop found kept =>
    have advanced := @Accounted.advance _ _ _ _ [] _ _ _ _ _ h nofun
    exact advanced.push rfl nofun nofun fun e he inside => inside
  | @round p r body n ns todo m v item =>
    refine (h.rounds ns).push rfl (fun past next same => ⟨inner _ (.head _), fun g hg => ?_⟩)
      (fun e he => ?_) fun e he inside => ?_
    · rcases List.mem_cons.1 hg with rfl | hg
      · exact new (p, .rounds r body (n :: ns)) (.head _)
      · exact new g (.tail _ hg)
    · rcases List.mem_cons.1 he with rfl | he
      · exact of _ (.tail _ (.tail _ (.head _)))
      · cases List.mem_singleton.1 he
        exact of _ (.tail _ (.head _))
    · rcases List.mem_cons.1 inside with same | inside
      · exact absurd (old e he) (same ▸ Nat.lt_irrefl _)
      · exact inside
  | @block p past next body todo m =>
    have advanced := @Accounted.advance _ _ _ _ [] _ _ _ _ _ h nofun
    refine advanced.push rfl (fun past' next' same => ⟨inner _ (.head _), fun g hg => ?_⟩) nofun
      fun e he inside => ?_
    · rcases List.mem_cons.1 hg with rfl | hg
      · exact new (p, .steps past (.block body :: next)) (.head _)
      · exact new g (.tail _ hg)
    · rcases List.mem_cons.1 inside with same | inside
      · exact absurd (old e he) (same ▸ Nat.lt_irrefl _)
      · exact inside
  | looped => exact h.pop nofun
  | ended =>
    refine h.pop fun past next same => ?_
    cases same
    rfl

theorem Path.accounted (path : Path s (Machine.Spares name) c events c')
    (sound : Sound name depth log c) (origins : Originates root parts c.todo)
    (of : ∀ x ∈ roundNames s.naming, x ∈ names) (h : Accounted names root parts log c.todo) :
    Accounted names root parts (events ++ log) c'.todo := by
  induction path with
  | start => exact h
  | move path moved ih =>
    rw [List.append_assoc]
    exact moved.accounted (path.sound sound) (path.originates origins) of ih

theorem bodyFrom_apart (k : Nat) (parts : List (List Step)) :
    (bodyFrom root k parts).Pairwise (Apart root) := by
  induction parts generalizing k with
  | nil => exact .nil
  | cons part parts ih =>
    refine List.pairwise_cons.2 ⟨fun g hg => ?_, ih (k + 1)⟩
    obtain ⟨n, part, -, rfl⟩ := bodyFrom_mem root (k + 1) parts g hg
    have later : k < k + 1 + n := by omega
    exact ⟨Nat.le_of_lt later, fun _ _ _ _ => ⟨rfl, later⟩⟩

/-- Before the first step, only names are bound that are not declared. -/
theorem accounted_start (known : ∀ e ∈ log, e.name ∈ names) :
    Accounted names root parts log (bodyFrom root 0 parts) where
  whole p past next there top := by
    obtain ⟨n, part, at_, same⟩ := bodyFrom_mem root 0 parts _ there
    cases same
    simpa using at_
  apart := bodyFrom_apart 0 parts
  comes e he other := absurd (known e he) other

end Paths

namespace Progress

variable {p : Program} {parts : List (List Step)} {c : Capabilities} {w : World} {name : String}
  {depth : Nat}

/-- The names that a run of a program binds without declaring them. -/
def givenNames (p : Program) : List String :=
  Compile.startNames p.naming ++ p.imports.map (·.binding)

theorem accounted (r : Progress (Machine.Spares name) p parts c w)
    (shallow : ∀ part ∈ parts, stepsDepth part + 1 ≤ depth) (few : depth + 2 ≤ 10000000000) :
    Accounted (givenNames p) r.root parts r.log r.config.todo := by
  have naming := install_naming r.installs
  refine r.path.accounted (r.started shallow few) (originates_start r.root parts) (fun x hx => ?_)
    (accounted_start fun e he => ?_)
  · rw [naming] at hx
    simp only [roundNames, List.mem_cons, List.not_mem_nil, or_false] at hx
    rcases hx with rfl | rfl | rfl <;> simp [givenNames, Compile.startNames]
  · rcases List.mem_append.1 he with he | he
    · obtain ⟨i, there, same⟩ := r.imports.binds e he
      exact List.mem_append_right _ (same ▸ List.mem_map_of_mem there)
    · simp only [startLog, List.mem_cons, List.not_mem_nil, or_false] at he
      rcases he with rfl | rfl | rfl <;> simp [givenNames, Compile.startNames]

/-- Where a run is at a task, a name has no meaning in the scopes at hand that is neither given nor
declared, by a task before in the scope of the program or by what is done of the task. -/
theorem undeclared (r : Progress (Machine.Spares name) p parts c w)
    (shallow : ∀ part ∈ parts, stepsDepth part + 1 ≤ depth) (few : depth + 2 ≤ 10000000000)
    {f : Station × Activity} {rest : List (Station × Activity)} (here : r.config.todo = f :: rest)
    (given : name ∉ givenNames p)
    (earlier : ∀ j part value, j < f.1.task → parts[j]? = some part → .declare name value ∉ part)
    (own : ∀ q past next value, (q, .steps past next) ∈ r.config.todo → q.scope ∈ f.1.scopes →
      q.task = f.1.task → .declare name value ∉ past) :
    r.log.meaning? name f.1.scopes = none := by
  have accounted := r.accounted shallow few
  have at_ : f ∈ r.config.todo := by
    rw [here]
    exact .head _
  have nothing : ∀ t ∈ f.1.scopes, r.log.latest? t name = none := by
    intro t inside
    refine Log.latest?_none fun e he same named => ?_
    subst named
    subst same
    rcases accounted.comes e he given f at_ inside with
      ⟨-, j, part, value, before, there, declared⟩ | ⟨q, past, next, value, there, same, task, declared⟩
    · exact earlier j part value before there declared
    · refine own q past next value there (same ▸ inside) (Nat.le_antisymm task ?_) declared
      have apart := accounted.apart
      rw [here] at apart there
      rcases List.mem_cons.1 there with same | there
      · exact Nat.le_of_eq (congrArg (·.1.task) same).symm
      · exact ((List.pairwise_cons.1 apart).1 _ there).1
  generalize f.1.scopes = scopes at nothing
  induction scopes with
  | nil => rfl
  | cons t ts ih =>
    rw [Log.meaning?, nothing t (.head _)]
    exact ih fun t ht => nothing t (.tail _ ht)

end Progress

end Tasklang.Execution
