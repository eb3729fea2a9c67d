import Tasklang.Lua.Machine

/-! # Outcomes of computations

How a computation that is put together from others ends, given how these end.
-/

namespace Tasklang.Lua

namespace Outcome

variable {ε ε' α β : Type}

/-- How a computation goes on after one that ended. -/
def andThen (o : Outcome ε α) (f : α → Machine → Outcome ε' β) (g : ε → Machine → Outcome ε' β) :
    Outcome ε' β :=
  match o with
  | .done a m => f a m
  | .failed e m => g e m
  | .exhausted => .exhausted

@[simp] theorem andThen_done (a : α) (m : Machine) (f : α → Machine → Outcome ε' β)
    (g : ε → Machine → Outcome ε' β) : (done a m : Outcome ε α).andThen f g = f a m := rfl

@[simp] theorem andThen_failed (e : ε) (m : Machine) (f : α → Machine → Outcome ε' β)
    (g : ε → Machine → Outcome ε' β) : (failed e m : Outcome ε α).andThen f g = g e m := rfl

@[simp] theorem andThen_exhausted (f : α → Machine → Outcome ε' β)
    (g : ε → Machine → Outcome ε' β) : (exhausted : Outcome ε α).andThen f g = exhausted := rfl

/-- Whether a computation comes to a value and a machine that pass a test. -/
def passes (o : Outcome ε α) (test : α → Machine → Bool) : Bool :=
  match o with
  | .done a m => test a m
  | _ => false

theorem passes_iff {o : Outcome ε α} {test : α → Machine → Bool} :
    o.passes test = true ↔ ∃ a m, o = .done a m ∧ test a m = true := by
  cases o with
  | done a m => exact ⟨fun passed => ⟨a, m, rfl, passed⟩, fun ⟨_, _, rfl, passed⟩ => passed⟩
  | _ => simp [passes]

end Outcome

namespace Code

variable {ε ε' α β : Type} (m : Machine)

@[simp] theorem exec_pure (a : α) : (Pure.pure a : Code ε α).exec m = .done a m := rfl

@[simp] theorem exec_codePure (a : α) : (Code.pure a : Code ε α).exec m = .done a m := rfl

@[simp] theorem exec_throw (e : ε) : (throw e : Code ε α).exec m = .failed e m := rfl

@[simp] theorem exec_exhaust : (exhaust : Code ε α).exec m = .exhausted := rfl

theorem exec_branch (x : Code ε α) (f : α → Code ε' β) (g : ε → Code ε' β) :
    (x.branch f g).exec m = (x.exec m).andThen (fun a => (f a).exec) fun e => (g e).exec := by
  cases h : x.exec m <;> simp only [branch, h, Outcome.andThen]

@[simp] theorem exec_bind (x : Code ε α) (f : α → Code ε β) :
    (x >>= f).exec m = (x.exec m).andThen (fun a => (f a).exec) .failed :=
  exec_branch m x f throw

@[simp] theorem exec_map (x : Code ε α) (f : α → β) :
    (f <$> x).exec m = (x.exec m).andThen (fun a => .done (f a)) .failed :=
  exec_branch m x (fun a => Pure.pure (f a)) throw

@[simp] theorem exec_catchError (x : Code ε α) (g : ε → Code ε' α) :
    (x.catchError g).exec m = (x.exec m).andThen .done fun e => (g e).exec :=
  exec_branch m x Code.pure g

@[simp] theorem exec_mapError (x : Code ε α) (f : ε → ε') :
    (x.mapError f).exec m = (x.exec m).andThen .done fun e => .failed (f e) :=
  exec_branch m x Code.pure fun e => throw (f e)

@[simp] theorem exec_get : (get : Code ε Machine).exec m = .done m m := rfl

@[simp] theorem exec_table (r : TableRef) :
    (table r : Code ε Table).exec m = .done (m.tables.getD r {}) m := rfl

@[simp] theorem exec_rethrow (v : Value) : (rethrow v : Code Value α).exec m =
    .failed (.fault m.faults.size) { m with faults := m.faults.push (m.faultOf v) } := rfl

@[simp] theorem exec_hosted (x : Code Value α) :
    (hosted x).exec m = (x.exec m).andThen .done fun v => (rethrow v).exec :=
  exec_catchError m x _

@[simp] theorem exec_explain (x : Code Value α) (f : Fault → ε') :
    (x.explain f).exec m = (x.exec m).andThen .done fun v m => .failed (f (m.faultOf v)) m :=
  exec_branch m x Code.pure fun v => get >>= fun m => throw (f (m.faultOf v))

/-- A sequence is done exactly when both parts are. -/
theorem bind_done {x : Code ε α} {f : α → Code ε β} {m m'' : Machine} {b : β} :
    (x >>= f).exec m = .done b m'' ↔
      ∃ a m', x.exec m = .done a m' ∧ (f a).exec m' = .done b m'' := by
  rw [exec_bind]
  cases x.exec m with
  | done a m' =>
    constructor
    · intro h
      exact ⟨a, m', rfl, h⟩
    · rintro ⟨a', m₁, h, h'⟩
      cases h
      exact h'
  | failed e m' => simp
  | exhausted => simp

end Code

namespace Run

variable {ε ε' α β : Type} (m : Machine)

theorem pure_apply (a : α) : (Pure.pure a : Run ε α) m = .done a m := rfl

theorem bind_apply (x : Run ε α) (f : α → Run ε β) :
    (x >>= f) m = (x m).andThen (fun a m => f a m) .failed := by
  show Run.bind x f m = _
  unfold Run.bind Outcome.andThen
  cases x m <;> rfl

theorem mapError_apply (x : Run ε α) (f : ε → ε') :
    x.mapError f m = (x m).andThen .done fun e => .failed (f e) := by
  unfold mapError catchError Outcome.andThen
  cases x m <;> rfl

theorem attempt_apply (x : Run ε α) :
    (x.attempt : Run ε' (Except ε α)) m =
      (x m).andThen (fun a => .done (.ok a)) fun e => .done (.error e) := by
  unfold attempt Outcome.andThen
  cases x m <;> rfl

theorem code_apply (x : Code ε α) : Run.code x m = x.exec m := rfl

/-- A sequence is done exactly when both parts are. -/
theorem bind_done {x : Run ε α} {f : α → Run ε β} {m m'' : Machine} {b : β} :
    (x >>= f) m = .done b m'' ↔ ∃ a m', x m = .done a m' ∧ f a m' = .done b m'' := by
  rw [bind_apply]
  cases x m with
  | done a m' =>
    constructor
    · intro h
      exact ⟨a, m', rfl, h⟩
    · rintro ⟨a', m₁, h, h'⟩
      cases h
      exact h'
  | failed e m' => simp [Outcome.andThen]
  | exhausted => simp [Outcome.andThen]

theorem pure_done {a b : α} {m m' : Machine} :
    (Pure.pure a : Run ε α) m = .done b m' ↔ a = b ∧ m = m' := by
  rw [pure_apply]
  simp

end Run

end Tasklang.Lua
