import Tasklang.Proofs.Names

/-! # Evaluating placeholders

A placeholder is loaded as a function that returns its expression, whose names are looked up in a
scope. Where the expression calls nothing, the placeholder has the value that the expression has
there.
-/

namespace Tasklang.Lua

open Code

/-- What code gets for a name that is none of its variables, where it looks names up in a scope: a
value, or nothing when the name is unbound. The code has room for the calls that this takes. -/
def Machine.Reads (m : Machine) (s : Scope) (name : String) (r : Option Value) : Prop :=
  ∀ (env : Env) (n : Nat), env.cell? name = none →
    (env.globals : Code Value Value).exec m = .done (.table (m.seat s)) m →
    4 ≤ n → env.activation.levels + 4 < Site.levelLimit →
    ((env.value (within n) (.name name)).exec m).Answers m name r

/-- Below no more than two scopes, code reads what a name stands for. -/
theorem Machine.Chain.reads {m : Machine} {s : Scope} {ss : List Scope} (chain : m.Chain s ss)
    {name : String} (proper : ∀ t ∈ ss, m.Proper name t)
    (plain : m.meaning? name ss = none → m.PlainGlobals) (few : ss.length ≤ 2) :
    m.Reads s name (m.meaning? name ss) := by
  intro env n free globals steps levels
  simp only [Env.value, free, exec_bind, globals, Outcome.andThen_done]
  refine index_seat chain proper plain _ n 1999 (fun _ _ _ => rfl) (by omega) ?_
  show env.activation.levels + 2 * ss.length < Site.levelLimit
  omega

/-- The machine in which the code of a placeholder was loaded. -/
def Machine.loaded (m : Machine) (s : Scope) (source : String) (chunk : Chunk) : Machine :=
  { m with
    cells := m.cells.push (.table (m.seat s))
    closures := m.closures.push ⟨.mk [] true chunk, [(environmentName, m.cells.size)],
      ChunkName.shown (ChunkName.ofPlaceholder source)⟩ }

/-- What the code of a placeholder sees. -/
def placeholderEnv (m : Machine) (source : String) : Env where
  locals := [(environmentName, m.cells.size)]
  activation := {
    chunk := ChunkName.shown (ChunkName.ofPlaceholder source)
    levels := 1
    base := 1 }

theorem Machine.grows_loaded (m : Machine) (s : Scope) (source : String) (chunk : Chunk) :
    m.Grows (m.loaded s source chunk) :=
  (Machine.Grows.pushCell m _).trans (.pushClosure _ _)

/-- The code of a placeholder looks names up in the scope in which it is evaluated. -/
theorem placeholderEnv_globals (m : Machine) (s : Scope) (source : String) (chunk : Chunk) :
    ((placeholderEnv m source).globals : Code Value Value).exec (m.loaded s source chunk) =
      .done (.table (m.seat s)) (m.loaded s source chunk) := by
  simp [Env.globals, Env.cell?, placeholderEnv, Code.cell, Machine.loaded]

section Steps

variable {m : Machine} (apply : Apply)

/-- Entering a function without parameters. -/
theorem turn_enter {site : Site} {ref : Nat} {stats : List Stat} {captured : List (String × Nat)}
    {chunk : Bytes} (there : m.closures[ref]? = some ⟨.mk [] true stats, captured, chunk⟩)
    (room : site.top + 1 ≤ Site.stackLimit) :
    (turn apply (.running (.call site (.function (.closure ref)) []) [])).exec m =
      .done (.inl (.running
        (.exec (.block ⟨captured, 0, false, ⟨chunk, [], site.trace, site.levels, site.top + 1⟩⟩ stats))
        [.flow .body])) m := by
  have fits : ¬Site.stackLimit < site.top + 1 := by omega
  simp only [turn, step, Transition.call, Transition.resolve, Transition.enter, exec_branch,
    exec_bind, exec_pure, exec_get, Outcome.andThen_done, there]
  simp only [Body.params, Body.variadic, if_true, List.length_nil, Nat.add_zero, if_neg fits]
  rfl

/-- Returning an expression without calls. -/
theorem turn_return {env : Env} {e : Expr} (free : e.hasCall = false)
    (single : e.isMultiple = false) (k : List Frame) (unwinds : nextClosing k = none) :
    (turn apply (.running (.exec (.block env [.ret [e]])) k)).exec m =
      ((env.value apply e).exec m).andThen
        (fun v => .done (.inl (.running (.giveAll [v]) (.values .ret :: k)))) .failed := by
  have values : (env.values apply [e]).exec m =
      (env.value apply e >>= fun v => Pure.pure [v]).exec m := by
    cases e <;> first | rfl | cases single
  simp only [turn, step, Transition.exec, Rest.block, single, Bool.false_and, Transition.listFor,
    List.any_cons, List.any_nil, free, Bool.or_false, values, exec_branch, exec_bind,
    Bool.false_eq_true, if_false, unwinds]
  cases (env.value apply e).exec m <;> rfl

/-- The values that a function returns are the results of its call. -/
theorem repeat_returned (n : Nat) (vs : List Value) :
    repeatFrom (fun s => (turn apply s).exec) (n + 4)
      (.running (.giveAll vs) [.values .ret, .flow .body]) m = .done vs m := rfl

end Steps

section Evaluation

variable {s : Scope} {source : String} {m : Machine} {e : Expr} {n : Nat}

/-- Calling the code of a placeholder that calls nothing. -/
theorem run_loaded (free : e.hasCall = false) (single : e.isMultiple = false) :
    (run (n + 6) (.running (.call ⟨[], 1, 0, .unknown⟩
        (.function (.closure m.closures.size)) []) [])).exec (m.loaded s source [.ret [e]]) =
      (((placeholderEnv m source).value (within (n + 5)) e).exec
        (m.loaded s source [.ret [e]])).andThen (fun v => .done [v]) .failed := by
  have there : (m.loaded s source [.ret [e]]).closures[m.closures.size]? =
      some ⟨.mk [] true [.ret [e]], [(environmentName, m.cells.size)],
        ChunkName.shown (ChunkName.ofPlaceholder source)⟩ := by simp [Machine.loaded]
  rw [exec_run_succ, repeatFrom, turn_enter _ there (by decide)]
  show repeatFrom _ (n + 5) _ _ = _
  have returned := @turn_return (m.loaded s source [.ret [e]]) (within (n + 5))
    (placeholderEnv m source) e free single [.flow .body] rfl
  simp only [placeholderEnv] at returned ⊢
  rw [repeatFrom, returned]
  cases (Env.value _ (within (n + 5)) e).exec (m.loaded s source [.ret [e]]) with
  | done v m' => exact repeat_returned _ n [v]
  | failed v m' => rfl
  | exhausted => rfl

/-- A placeholder that calls nothing has the value that its expression has. -/
theorem eval_free (text : Text.has '\x00' source = false)
    (parsed : Chunk.parse 0 (returning (Bytes.ofString source)) = .ok [.ret [e]])
    (free : e.hasCall = false) (single : e.isMultiple = false) (budget : m.budget = n + 6) :
    s.eval source m =
      (((placeholderEnv m source).value (within (n + 5)) e).exec
        (m.loaded s source [.ret [e]])).andThen .done
          fun v m => .failed (.ofFault (m.faultOf v)) m := by
  have loads : (Code.loadChunk (ChunkName.ofPlaceholder source)
      (Chunk.parse 0 (returning (Bytes.ofString source))) (.table (m.seat s))).exec m =
      .done (.function (.closure m.closures.size)) (m.loaded s source [.ret [e]]) := by
    rw [parsed]
    rfl
  have invoked : (invoke (.function (.closure m.closures.size)) []).exec
      (m.loaded s source [.ret [e]]) =
      (run (n + 6) (.running (.call ⟨[], 1, 0, .unknown⟩
        (.function (.closure m.closures.size)) []) [])).exec (m.loaded s source [.ret [e]]) := by
    rw [← budget]
    rfl
  unfold Scope.eval
  rw [if_neg (by simp [text])]
  show Run.code _ m = _
  simp only [Run.code_apply, exec_explain, Scope.valueOf, exec_bind, Scope.table, Scope.record, exec_get,
    exec_pure, Outcome.andThen_done]
  rw [show (m.record s).table = m.seat s from rfl, loads]
  simp only [Outcome.andThen_done, exec_bind, invoked, run_loaded free single]
  cases ((placeholderEnv m source).value (within (n + 5)) e).exec (m.loaded s source [.ret [e]]) <;>
    rfl

/-- Whether a placeholder is a name and nothing else. -/
def IsName (source name : String) : Prop :=
  Text.has '\x00' source = false ∧ name ≠ environmentName ∧
    Chunk.parse 0 (returning (Bytes.ofString source)) = .ok [.ret [.name name]]

/-- An outcome of evaluating a name: a value, after which the machine is known, or nothing when the
name is unbound. -/
def Outcome.Yields (name : String) (m : Machine) (o : Outcome EvalError Value) :
    Option Value → Prop
  | some v => o = .done v m
  | none => ∃ m', o = .failed (.unbound name) m'

/-- A placeholder that is a name has the value that code reads for it. -/
theorem Machine.Reads.eval {name : String} {r : Option Value} (h : IsName source name)
    (reads : (m.loaded s source [.ret [.name name]]).Reads s name r) (budget : 6 ≤ m.budget) :
    (s.eval source m).Yields name (m.loaded s source [.ret [.name name]]) r := by
  obtain ⟨text, other, parsed⟩ := h
  obtain ⟨n, budget⟩ := Nat.exists_eq_add_of_le' budget
  have free : (placeholderEnv m source).cell? name = none := by
    simp [Env.cell?, placeholderEnv, List.lookup, beq_false_of_ne other]
  have answers := reads (placeholderEnv m source) (n + 5) free
    (placeholderEnv_globals m s source _) (by omega) (by decide : 1 + 4 < Site.levelLimit)
  rw [eval_free text parsed rfl rfl budget]
  cases r with
  | some v =>
    rw [answers.done]
    rfl
  | none =>
    obtain ⟨e, m', failed, meant, -⟩ := answers.unbound
    rw [failed, Outcome.andThen_failed, meant]
    exact ⟨_, rfl⟩

/-- Code and placeholders that are evaluated in a scope get a value for a name, or nothing when the
name is unbound. -/
structure Machine.Sees (m : Machine) (s : Scope) (name : String) (r : Option Value) : Prop where
  reads : m.Reads s name r
  evaluates : ∀ source, IsName source name →
    (s.eval source m).Yields name (m.loaded s source [.ret [.name name]]) r

end Evaluation

end Tasklang.Lua
