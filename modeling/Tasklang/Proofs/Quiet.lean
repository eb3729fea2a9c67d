import Mathlib
import Tasklang.Execution.Interpreter

/-! # Quiet computations

A computation is quiet when it lets a machine only grow, as code does: it makes no scopes and
declares no names. Everything that a run does between two bindings is quiet.
-/

namespace Tasklang.Lua.Run

variable {ε ε' α β : Type}

/-- A computation after which a machine has only grown. -/
def Quiet (x : Run ε α) : Prop := ∀ m, (x m).After m.Grows

namespace Quiet

theorem pure (a : α) : Quiet (Pure.pure a : Run ε α) := fun m => .refl m

theorem throw (e : ε) : Quiet (Run.throw e : Run ε α) := fun m => .refl m

theorem code (x : Code ε α) : Quiet (Run.code x) := x.grows

theorem bind {x : Run ε α} {f : α → Run ε β} (hx : Quiet x) (hf : ∀ a, Quiet (f a)) :
    Quiet (x >>= f) := by
  intro m
  have h := hx m
  show (Run.bind x f m).After m.Grows
  unfold Run.bind
  cases hr : x m with
  | done a m' =>
    rw [hr] at h
    exact (hf a m').imp fun _ h' => Machine.Grows.trans h h'
  | failed e m' =>
    rw [hr] at h
    exact h
  | exhausted => trivial

theorem catchError {x : Run ε α} {handle : ε → Run ε' α} (hx : Quiet x)
    (hf : ∀ e, Quiet (handle e)) : Quiet (x.catchError handle) := by
  intro m
  have h := hx m
  unfold Run.catchError
  cases hr : x m with
  | done a m' =>
    rw [hr] at h
    exact h
  | failed e m' =>
    rw [hr] at h
    exact (hf e m').imp fun _ h' => Machine.Grows.trans h h'
  | exhausted => trivial

theorem mapError (f : ε → ε') {x : Run ε α} (hx : Quiet x) : Quiet (x.mapError f) :=
  hx.catchError fun e => throw (f e)

theorem attempt {x : Run ε α} (hx : Quiet x) : Quiet (x.attempt : Run ε' (Except ε α)) := by
  intro m
  have h := hx m
  unfold Run.attempt
  cases hr : x m with
  | done a m' =>
    rw [hr] at h
    exact h
  | failed e m' =>
    rw [hr] at h
    exact h
  | exhausted => trivial

theorem ofExcept (r : Except ε α) : Quiet (Run.ofExcept r) := by
  cases r with
  | ok a => exact pure a
  | error e => exact throw e

end Quiet

end Tasklang.Lua.Run

namespace Tasklang

open Lua Lua.Run

variable {α : Type}

theorem lifted_quiet (x : Code Value α) : Quiet (lifted x) := .code _

theorem unlifted_quiet (x : Code Value α) : Quiet (unlifted x) := .code _

theorem callFunction_quiet (f : Value) (args : List Value) : Quiet (callFunction f args) :=
  .bind (unlifted_quiet _) fun _ => .pure _

theorem display_quiet (v : Value) : Quiet (display v) := by
  unfold display
  split
  · exact .pure _
  · refine .bind (unlifted_quiet _) fun f => ?_
    split
    · exact .bind (callFunction_quiet _ _) fun _ => .ofExcept _
    · exact .throw _

theorem eval_quiet (s : Scope) (source : String) : Quiet (s.eval source) := by
  unfold Scope.eval
  split
  · exact .throw _
  · exact lifted_quiet _

theorem get_quiet (s : Scope) (name : String) : Quiet (s.get name) := lifted_quiet _

theorem textIn_quiet (s : Scope) (segments : List Segment) :
    Quiet (Template.textIn s segments) := by
  induction segments with
  | nil => exact .pure _
  | cons x xs ih =>
    refine .bind ?_ fun _ => .bind ih fun _ => .pure _
    cases x with
    | text t => exact .pure _
    | expr source => exact .bind (eval_quiet s source) fun v => display_quiet v

namespace Execution

theorem evaluated_quiet {x : Run EvalError α} (h : Quiet x) : Quiet (evaluated x) := h.mapError _

theorem fieldOf_quiet (object : Value) (name : String) : Quiet (fieldOf object name) :=
  evaluated_quiet (unlifted_quiet _)

theorem importValue_quiet (s : Session) (source : ImportSource) :
    Quiet (importValue s source) := by
  unfold importValue
  split
  · exact .code _
  · refine .bind (.code _) fun v => ?_
    split
    · refine .bind (fieldOf_quiet _ _) fun v => ?_
      split
      · exact .throw _
      · exact .pure _
    · exact .throw _
  · refine .bind (fieldOf_quiet _ _) fun v => ?_
    split
    · exact fieldOf_quiet _ _
    · exact .throw _

mutual

theorem literalValue_quiet (scope : Scope) (l : Literal) : Quiet (literalValue scope l) := by
  cases l with
  | const v => exact .code _
  | expr source => exact evaluated_quiet (eval_quiet _ _)
  | deferred segments =>
    exact .bind (evaluated_quiet (textIn_quiet _ _)) fun _ => .pure _
  | seq items =>
    exact .bind (.code _) fun r => .bind (fillSequence_quiet scope r 1 items) fun _ => .pure _
  | map entries =>
    exact .bind (.code _) fun r => .bind (fillMapping_quiet scope r entries) fun _ => .pure _

theorem fillSequence_quiet (scope : Scope) (r : TableRef) (n : Nat) (ls : List Literal) :
    Quiet (fillSequence scope r n ls) := by
  cases ls with
  | nil => exact .pure _
  | cons l ls =>
    exact .bind (literalValue_quiet scope l) fun _ =>
      .bind (.code _) fun _ => fillSequence_quiet scope r (n + 1) ls

theorem fillMapping_quiet (scope : Scope) (r : TableRef) (es : List (String × Literal)) :
    Quiet (fillMapping scope r es) := by
  cases es with
  | nil => exact .pure _
  | cons e es =>
    exact .bind (literalValue_quiet scope e.2) fun _ =>
      .bind (.code _) fun _ => fillMapping_quiet scope r es

end

theorem argumentValues_quiet (scope : Scope) (ls : List Literal) :
    Quiet (argumentValues scope ls) := by
  induction ls with
  | nil => exact .pure _
  | cons l ls ih => exact .bind (literalValue_quiet scope l) fun _ => .bind ih fun _ => .pure _

theorem argumentTexts_quiet (scope : Scope) (ls : List Literal) :
    Quiet (argumentTexts scope ls) := by
  induction ls with
  | nil => exact .pure _
  | cons l ls ih =>
    exact .bind (literalValue_quiet scope l) fun v => .bind (evaluated_quiet (display_quiet v))
      fun _ => .bind ih fun _ => .pure _

theorem runProgram_quiet (directory program : String) (args : List String) :
    Quiet (runProgram directory program args) := by
  refine .bind (.code _) fun w => ?_
  split
  · exact .throw _
  · exact .bind (.code _) fun _ => .pure _

theorem follow_quiet (path : List String) (v : Value) : Quiet (follow path v) := by
  induction path generalizing v with
  | nil => exact .pure _
  | cons segment rest ih =>
    cases v with
    | table r => exact .bind (fieldOf_quiet _ _) fun v => ih v
    | _ => exact .pure _

theorem functionAt_quiet (target : String) (path : List String) (v : Value) :
    Quiet (functionAt target path v) := by
  refine .bind (follow_quiet _ _) fun v => ?_
  split
  · exact .pure _
  · exact .throw _

theorem callable_quiet (scope : Scope) (target : String) : Quiet (callable scope target) := by
  unfold callable
  split
  · exact .throw _
  · refine .bind (get_quiet _ _).attempt fun r => ?_
    split
    · exact .throw _
    · exact .throw _
    · exact functionAt_quiet _ _ _

end Execution

end Tasklang
