import Tasklang.Proofs.Expressions
import Tasklang.Proofs.Parsing

/-! # Evaluation that goes on

Evaluation that leads from one state to another goes on from the first as it does from the second. An
expression comes to values in a scope when evaluating it leads there, wherever it stands and whatever
a machine gained.
-/

namespace Tasklang.Lua

open Code

/-- Whether evaluation goes on from a state, after so many turns, as it does from another one. -/
def Leads (apply : Apply) (n : Nat) (s : State) (m : Machine) (s' : State) (m' : Machine) : Prop :=
  ∀ i, repeatFrom (fun s => (turn apply s).exec) (n + i) s m =
    repeatFrom (fun s => (turn apply s).exec) i s' m'

section Turns

variable {apply : Apply} {i j : Nat} {s s' s'' : State} {m m' m'' : Machine} {k : List Frame}
  {c : Control} {v : Value}

theorem Leads.refl (s : State) (m : Machine) : Leads apply 0 s m s m := fun i => by rw [Nat.zero_add]

theorem Leads.trans (h : Leads apply i s m s' m') (h' : Leads apply j s' m' s'' m'') :
    Leads apply (i + j) s m s'' m'' := fun n => by rw [Nat.add_assoc, h, h']

/-- A step leads from one state to the next. -/
theorem Leads.step (steps : (Lua.step apply c k).exec m = .done s' m') :
    Leads apply 1 (.running c k) m s' m' := by
  intro i
  rw [Nat.add_comm, repeatFrom]
  simp only [turn, exec_branch, steps, Outcome.andThen_done]
  rfl

/-- One value is given like the only one of several. -/
theorem step_giveAll (v : Value) (k : List Frame) :
    Lua.step apply (.giveAll [v]) k = Lua.step apply (.give v) k := by
  match k with
  | [] | .value f :: k | .values f :: k | .flow f :: k => rfl

theorem Leads.given (h : Leads apply i s m (.running (.giveAll [v]) k) m') :
    Leads apply i s m (.running (.give v) k) m' := by
  intro n
  rw [h]
  cases n with
  | zero => rfl
  | succ n => rw [repeatFrom, repeatFrom, turn, turn, step_giveAll]

end Turns

section Operands

variable {apply : Apply} {env : Env} {k : List Frame} {m m' : Machine} {v : Value} {e : Expr}

/-- An expression without calls has its value in one turn. -/
theorem leads_value (free : e.hasCall = false) (single : e.isMultiple = false)
    (value : (env.value apply e).exec m = .done v m') :
    Leads apply 1 (.running (.eval env e) k) m (.running (.give v) k) m' := by
  refine .step ?_
  have evaluated : (Transition.eval apply env e k) =
      (env.value apply e >>= fun v => Transition.go (.give v) k) := by
    unfold Transition.eval
    rw [free]
    cases e <;> first | rfl | cases single
  show (Transition.eval apply env e k).exec m = _
  rw [evaluated, exec_bind, value]
  rfl

/-- The left one of two joined operands waits for the right one. -/
theorem leads_left {line : Nat} {l r : Expr} (calls : (Expr.binary line .concat l r).hasCall = true) :
    Leads apply 1 (.running (.eval env (.binary line .concat l r)) k) m
      (.running (.eval env l) (.value (.leftOperand env line .concat r) :: k)) m := by
  refine .step ?_
  show (Transition.eval apply env _ k).exec m = _
  unfold Transition.eval
  rw [calls]
  rfl

theorem leads_right {line : Nat} {r : Expr} :
    Leads apply 1 (.running (.give v) (.value (.leftOperand env line .concat r) :: k)) m
      (.running (.eval env r) (.value (.rightOperand env line .concat (.value v)) :: k)) m :=
  .step rfl

theorem leads_joined {line : Nat} {x y : Bytes} :
    Leads apply 1
      (.running (.give (.str y)) (.value (.rightOperand env line .concat (.value (.str x))) :: k)) m
      (.running (.give (.str (x ++ y))) k) m :=
  .step rfl

/-- A call waits for its function. -/
theorem leads_callee {line : Nat} {f : Expr} {as : List Expr} :
    Leads apply 1 (.running (.eval env (.call line f as)) k) m
      (.running (.eval env f) (.value (.callee env line f.calleeName as false) :: k)) m :=
  .step rfl

/-- A function that returns a call waits for the function that is called. -/
theorem leads_tail {line : Nat} {f : Expr} {as : List Expr} (open_ : env.closing = false) :
    Leads apply 1 (.running (.exec (.block env [.ret [.call line f as]])) k) m
      (.running (.eval env f) (.value (.callee env line f.calleeName as true) :: k)) m := by
  refine .step ?_
  show (if Expr.isMultiple _ && Expr.hasCall _ && !env.closing then _ else _ : Code Value State).exec m = _
  rw [open_]
  rfl

/-- A function returns the value of an expression that is no call. -/
theorem leads_ret (single : e.isMultiple = false) (calls : e.hasCall = true) :
    Leads apply 2 (.running (.exec (.block env [.ret [e]])) k) m
      (.running (.eval env e) (.values .ret :: k)) m := by
  have entered : Leads apply 1 (.running (.exec (.block env [.ret [e]])) k) m
      (.running (.list env [] [e]) (.values .ret :: k)) m := by
    refine .step ?_
    show (if Expr.isMultiple _ && Expr.hasCall _ && !env.closing then _ else
      Transition.listFor apply env [e] .ret k : Code Value State).exec m = _
    rw [single]
    show (if (e.hasCall || false) then _ else _ : Code Value State).exec m = _
    rw [calls]
    rfl
  exact entered.trans (.step rfl)

/-- A function without calls returns a value. -/
theorem leads_ret_value (free : e.hasCall = false) (single : e.isMultiple = false)
    (value : (env.value apply e).exec m = .done v m') :
    Leads apply 1 (.running (.exec (.block env [.ret [e]])) [.flow .body]) m
      (.running (.giveAll [v]) [.values .ret, .flow .body]) m' := by
  intro i
  rw [Nat.add_comm, repeatFrom, turn_return apply free single _ rfl, value]
  rfl

/-- The values that a function returns are given to whoever called it. -/
theorem leads_returned {vs : List Value} :
    Leads apply 2 (.running (.giveAll vs) [.values .ret, .flow .body]) m
      (.running (.giveAll vs) []) m :=
  Leads.trans (i := 1) (j := 1) (.step rfl) (.step rfl)

theorem leads_given_returned :
    Leads apply 2 (.running (.give v) [.values .ret, .flow .body]) m
      (.running (.giveAll [v]) []) m :=
  Leads.trans (i := 1) (j := 1) (.step rfl) (.step rfl)

/-- A library function is called with the values that were waited for. -/
theorem leads_library {line : Nat} {name : CalleeName} {f : Function} {vs rs : List Value}
    (native : ∀ ref, f ≠ .closure ref)
    (called : ∀ c, (applyLibrary c f vs).exec m = .done rs m') :
    Leads apply 1 (.running (.giveAll vs) (.values (.arguments env line name (.function f) false) :: k)) m
      (.running (.giveAll rs) k) m' := by
  refine .step ?_
  have call : (Transition.callFrom apply env line name false (.function f) vs k).exec m =
      (applyLibrary ⟨env.site line name, apply⟩ f vs >>= fun vs =>
        Transition.go (.giveAll vs) k).exec m := by
    cases f with
    | closure ref => exact absurd rfl (native ref)
    | _ => rfl
  show (Transition.callFrom apply env line name false (.function f) vs k).exec m = _
  rw [call, exec_bind, called]
  rfl

/-- A function returns the results of a library function that it calls at its end. -/
theorem leads_library_tail {line : Nat} {name : CalleeName} {f : Function} {vs rs : List Value}
    (native : ∀ ref, f ≠ .closure ref)
    (called : ∀ c, (applyLibrary c f vs).exec m = .done rs m') :
    Leads apply 2
      (.running (.giveAll vs) [.values (.arguments env line name (.function f) true), .flow .body]) m
      (.running (.giveAll rs) []) m' := by
  have left : Leads apply 1
      (.running (.giveAll vs) [.values (.arguments env line name (.function f) true), .flow .body]) m
      (.running (.leave (.returned rs)) [.flow .body]) m' := by
    refine .step ?_
    have call : (Transition.callFrom apply env line name true (.function f) vs [.flow .body]).exec
        m = (applyLibrary ⟨env.site line name, apply⟩ f vs >>= fun vs =>
          Transition.go (.leave (.returned vs)) [.flow .body]).exec m := by
      cases f with
      | closure ref => exact absurd rfl (native ref)
      | _ => rfl
    show (Transition.callFrom apply env line name true (.function f) vs [.flow .body]).exec m = _
    rw [call, exec_bind, called]
    rfl
  exact left.trans (.step rfl)

end Operands

/-- Code keeps looking names up in a scope where a machine only gains. -/
theorem Env.Open.adds {env : Env} {m m' : Machine} {s : Scope} (opens : env.Open m s)
    (h : m.Adds m') : env.Open m' s where
  own := opens.own
  free := opens.free
  levels := opens.levels
  globals := by
    have found := opens.globals
    rw [h.seat]
    unfold Env.globals at found ⊢
    cases here : env.cell? environmentName with
    | none =>
      rw [here] at found
      cases found
    | some c =>
      rw [here] at found
      have held : m.cells.getD c .nil = .table (m.seat s) := (Outcome.done.inj found).1
      have there : c < m.cells.size := by
        refine Nat.lt_of_not_le fun out => ?_
        rw [Array.getD_eq_getD_getElem?, Array.getElem?_eq_none out] at held
        cases held
      show Outcome.done (m'.cells.getD c .nil) m' = _
      rw [h.cells c there, held]

/-- A placeholder has the first of the values to which its code comes. -/
theorem eval_returned {m m' : Machine} {s : Scope} {source : String} {e : Expr} {v : Value}
    {vs : List Value} {n j : Nat} (text : Text.has '\x00' source = false)
    (parsed : Chunk.parse 0 (returning (Bytes.ofString source)) = .ok [.ret [e]])
    (budget : m.budget = n + 1) (enough : j + 2 ≤ n)
    (leads : Leads (within n) j
      (.running (.exec (.block (placeholderEnv m source) [.ret [e]])) [.flow .body])
      (m.loaded s source [.ret [e]]) (.running (.giveAll (v :: vs)) []) m') :
    s.eval source m = .done v m' := by
  obtain ⟨i, rfl⟩ : ∃ i, n = j + (i + 2) := ⟨n - (j + 2), by omega⟩
  have loads : (Code.loadChunk (ChunkName.ofPlaceholder source)
      (Chunk.parse 0 (returning (Bytes.ofString source))) (.table (m.seat s))).exec m =
      .done (.function (.closure m.closures.size)) (m.loaded s source [.ret [e]]) := by
    rw [parsed]
    rfl
  have there : (m.loaded s source [.ret [e]]).closures[m.closures.size]? =
      some ⟨.mk [] true [.ret [e]], [(environmentName, m.cells.size)],
        ChunkName.shown (ChunkName.ofPlaceholder source)⟩ := by simp [Machine.loaded]
  have invoked : (invoke (.function (.closure m.closures.size)) []).exec
      (m.loaded s source [.ret [e]]) = .done (v :: vs) m' := by
    have starts : (invoke (.function (.closure m.closures.size)) []).exec
        (m.loaded s source [.ret [e]]) =
        (run (j + (i + 2) + 1) (.running (.call ⟨[], 1, 0, .unknown⟩
          (.function (.closure m.closures.size)) []) [])).exec (m.loaded s source [.ret [e]]) := by
      rw [← budget]
      rfl
    rw [starts, exec_run_succ, repeatFrom, turn_enter _ there (by decide)]
    exact (leads (i + 2)).trans rfl
  unfold Scope.eval
  rw [if_neg (by simp [text])]
  show Run.code _ m = _
  simp only [Run.code_apply, exec_explain, Scope.valueOf, exec_bind, Scope.table, Scope.record, exec_get,
    exec_pure, Outcome.andThen_done]
  rw [show (m.record s).table = m.seat s from rfl, loads]
  simp only [Outcome.andThen_done, exec_bind, invoked]
  rfl

end Tasklang.Lua
