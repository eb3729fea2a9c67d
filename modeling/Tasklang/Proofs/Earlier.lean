import Tasklang.Proofs.Parts

/-! # What was bound before

When a run is at a task, the steps of the tasks before it are done, and so are the steps before the
one that it is at. All that these declare is bound.
-/

namespace Tasklang.Execution

open Lua

/-- Whether a log has an event for a name in a scope. -/
def Log.Binds (log : Log) (s : Scope) (name : String) : Prop :=
  ∃ e ∈ log, e.scope = s ∧ e.name = name

theorem Log.Binds.append {log : Log} {s : Scope} {name : String} (h : log.Binds s name)
    (events : Log) : Log.Binds (events ++ log) s name := by
  obtain ⟨e, he, same⟩ := h
  exact ⟨e, List.mem_append_right _ he, same⟩

theorem Log.Binds.latest {log : Log} {s : Scope} {name : String} (h : log.Binds s name) :
    ∃ v, log.latest? s name = some v := by
  obtain ⟨e, he, same⟩ := h
  have found : (log.find? fun e => e.scope = s ∧ e.name = name).isSome := by
    rw [List.find?_isSome]
    exact ⟨e, he, by simp [same]⟩
  obtain ⟨e', he'⟩ := Option.isSome_iff_exists.1 found
  exact ⟨e'.value, by rw [Log.latest?, he', Option.map_some]⟩

/-- What is bound in a run: what the done steps of a scope declare, and what the done tasks do. -/
structure Settled (root : Scope) (parts : List (List Step)) (log : Log)
    (todo : List (Station × Activity)) : Prop where
  past : ∀ p past next, (p, .steps past next) ∈ todo → ∀ name value,
    .declare name value ∈ past → log.Binds p.scope name
  done : ∀ k part, parts[k]? = some part →
    (∃ past next, (⟨k, root, []⟩, .steps past next) ∈ todo ∧ past.reverse ++ next = part) ∨
      ∀ name value, .declare name value ∈ part → log.Binds root name
  order : todo.Pairwise fun f g => f.1.task ≤ g.1.task

section Settling

variable {s : Session} {keeps : Machine → Machine → Prop} {root : Scope}
  {parts : List (List Step)} {c c' : Config} {log events : Log}

/-- A step is done that binds what it declares. -/
theorem Settled.advance {p : Station} {past next : List Step} {step : Step}
    {todo : List (Station × Activity)}
    (h : Settled root parts log ((p, .steps past (step :: next)) :: todo))
    (binds : ∀ name value, step = .declare name value → Log.Binds (events ++ log) p.scope name) :
    Settled root parts (events ++ log) ((p, .steps (step :: past) next) :: todo) where
  past q past' next' there name value declared := by
    rcases List.mem_cons.1 there with same | there
    · cases same
      rcases List.mem_cons.1 declared with same | declared
      · exact binds name value same.symm
      · exact (h.past p past _ (.head _) name value declared).append events
    · exact (h.past q past' next' (.tail _ there) name value declared).append events
  done k part at_ := by
    rcases h.done k part at_ with ⟨past', next', there, whole⟩ | bound
    · refine .inl ?_
      rcases List.mem_cons.1 there with same | there
      · cases same
        exact ⟨_, _, .head _, by simpa using whole⟩
      · exact ⟨past', next', .tail _ there, whole⟩
    · exact .inr fun name value declared => (bound name value declared).append events
  order := by
    have order := List.pairwise_cons.1 h.order
    exact List.pairwise_cons.2 ⟨order.1, order.2⟩

/-- What a task starts in a scope of its own has nothing done yet. -/
theorem Settled.push {p : Station} {activity : Activity} {f : Station × Activity}
    {todo : List (Station × Activity)} (h : Settled root parts log (f :: todo))
    (same : p.task = f.1.task) (fresh : ∀ past next, activity = .steps past next → past = []) :
    Settled root parts log ((p, activity) :: f :: todo) where
  past q past next there name value declared := by
    rcases List.mem_cons.1 there with new | there
    · cases new
      cases fresh past next rfl
      cases declared
    · exact h.past q past next there name value declared
  done k part at_ := by
    rcases h.done k part at_ with ⟨past, next, there, whole⟩ | bound
    · exact .inl ⟨past, next, .tail _ there, whole⟩
    · exact .inr bound
  order := by
    refine List.pairwise_cons.2 ⟨fun g hg => ?_, h.order⟩
    rcases List.mem_cons.1 hg with rfl | hg
    · exact Nat.le_of_eq same
    · rw [same]
      exact (List.pairwise_cons.1 h.order).1 g hg

/-- New events change nothing of what is bound. -/
theorem Settled.later {todo : List (Station × Activity)} (h : Settled root parts log todo)
    (events : Log) : Settled root parts (events ++ log) todo where
  past q past next there name value declared :=
    (h.past q past next there name value declared).append events
  done k part at_ := (h.done k part at_).imp_right fun bound name value declared =>
    (bound name value declared).append events
  order := h.order

/-- What has ended is done. -/
theorem Settled.pop {p : Station} {activity : Activity} {todo : List (Station × Activity)}
    (h : Settled root parts log ((p, activity) :: todo))
    (finished : ∀ past next, activity = .steps past next → next = []) :
    Settled root parts log todo where
  past q past next there := h.past q past next (.tail _ there)
  done k part at_ := by
    rcases h.done k part at_ with ⟨past, next, there, whole⟩ | bound
    · rcases List.mem_cons.1 there with same | there
      · cases same
        cases finished past next rfl
        refine .inr fun name value declared => h.past _ past [] (.head _) name value ?_
        rw [← whole, List.append_nil, List.mem_reverse] at declared
        exact declared
      · exact .inl ⟨past, next, there, whole⟩
    · exact .inr bound
  order := (List.pairwise_cons.1 h.order).2

theorem Move.settled (moved : Move s keeps c events c') (h : Settled root parts log c.todo) :
    Settled root parts (events ++ log) c'.todo := by
  cases moved with
  | @declare p past next name value todo m m' v found kept =>
    refine h.advance fun other value same => ?_
    cases same
    exact ⟨_, .head _, rfl, rfl⟩
  | call found given ended kept => exact h.advance nofun
  | loop found kept =>
    exact (h.advance nofun).push rfl nofun
  | @round p r body n ns todo m v item =>
    have shorter : Settled root parts log ((p, .rounds r body ns) :: todo) := by
      have order := List.pairwise_cons.1 h.order
      refine ⟨fun q past next there => ?_, fun k part at_ => ?_,
        List.pairwise_cons.2 ⟨order.1, order.2⟩⟩
      · rcases List.mem_cons.1 there with same | there
        · cases same
        · exact h.past q past next (.tail _ there)
      · rcases h.done k part at_ with ⟨past, next, there, whole⟩ | bound
        · rcases List.mem_cons.1 there with same | there
          · cases same
          · exact .inl ⟨past, next, .tail _ there, whole⟩
        · exact .inr bound
    refine (shorter.later _).push rfl fun past next same => ?_
    cases same
    rfl
  | block =>
    refine (h.advance nofun).push rfl fun past next same => ?_
    cases same
    rfl
  | looped => exact h.pop nofun
  | ended =>
    refine h.pop fun past next same => ?_
    cases same
    rfl

theorem Path.settled (path : Path s keeps c events c') (h : Settled root parts log c.todo) :
    Settled root parts (events ++ log) c'.todo := by
  induction path with
  | start => exact h
  | move _ moved ih =>
    rw [List.append_assoc]
    exact moved.settled ih

end Settling

section Start

variable {root : Scope}

theorem bodyFrom_at (k : Nat) {parts : List (List Step)} {n : Nat} {part : List Step}
    (there : parts[n]? = some part) :
    (⟨k + n, root, []⟩, .steps [] part) ∈ bodyFrom root k parts := by
  induction parts generalizing k n with
  | nil => simp at there
  | cons first parts ih =>
    cases n with
    | zero =>
      cases there
      exact .head _
    | succ n =>
      have later := ih (k + 1) there
      rw [show k + 1 + n = k + (n + 1) by omega] at later
      exact .tail _ later

theorem bodyFrom_order (k : Nat) (parts : List (List Step)) :
    (bodyFrom root k parts).Pairwise fun f g => f.1.task ≤ g.1.task := by
  induction parts generalizing k with
  | nil => exact .nil
  | cons part parts ih =>
    refine List.pairwise_cons.2 ⟨fun g hg => ?_, ih (k + 1)⟩
    obtain ⟨n, part, -, rfl⟩ := bodyFrom_mem root (k + 1) parts g hg
    show k ≤ k + 1 + n
    omega

/-- Before the first step, nothing is done. -/
theorem settled_start (parts : List (List Step)) (log : Log) :
    Settled root parts log (bodyFrom root 0 parts) where
  past p past next there name value declared := by
    obtain ⟨n, part, -, same⟩ := bodyFrom_mem root 0 parts _ there
    cases same
    cases declared
  done k part at_ := by
    have there : (⟨0 + k, root, []⟩, .steps [] part) ∈ bodyFrom root 0 parts := bodyFrom_at 0 at_
    rw [Nat.zero_add] at there
    exact .inl ⟨[], part, there, rfl⟩
  order := bodyFrom_order 0 parts

end Start

namespace Progress

variable {keeps : Machine → Machine → Prop} {p : Program} {parts : List (List Step)}
  {c : Capabilities} {w : World}

theorem settled (r : Progress keeps p parts c w) : Settled r.root parts r.log r.config.todo :=
  r.path.settled (settled_start parts _)

/-- Where a run is at a task, all is bound that the tasks before it declare for the program. -/
theorem declared_before (r : Progress keeps p parts c w) {f : Station × Activity}
    {rest : List (Station × Activity)} (here : r.config.todo = f :: rest) {k : Nat}
    (before : k < f.1.task) {part : List Step} (at_ : parts[k]? = some part) {name : String}
    {value : Literal} (declared : .declare name value ∈ part) : r.log.Binds r.root name := by
  have settled := r.settled
  rw [here] at settled
  rcases settled.done k part at_ with ⟨past, next, there, -⟩ | bound
  · exfalso
    rcases List.mem_cons.1 there with rfl | there
    · exact Nat.lt_irrefl _ before
    · have := (List.pairwise_cons.1 settled.order).1 _ there
      simp only at this
      omega
  · exact bound name value declared

/-- Where a run is at a step, all is bound that the steps before it declare in its scope. -/
theorem declared_within (r : Progress keeps p parts c w) {q : Station} {past next : List Step}
    (there : (q, .steps past next) ∈ r.config.todo) {name : String} {value : Literal}
    (declared : .declare name value ∈ past) : r.log.Binds q.scope name :=
  r.settled.past q past next there name value declared

end Progress

end Tasklang.Execution
