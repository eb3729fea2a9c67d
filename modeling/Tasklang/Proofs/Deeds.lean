import Mathlib
import Tasklang.Execution.Interpreter

/-! # The deeds of a run

A run told with what it does: which steps it takes up, which literals it works out, which functions
it calls, and which commands it brings to their end. A told run ends as the run itself does. A
command is always the last deed: whether it stands at the top or deep within blocks and loops, what
is told after it is only what prepares it, and once it has finished nothing more is told.
-/

namespace Tasklang.Execution

open Lua Lua.Run

/-- Something that a run does. -/
inductive Deed where
  /-- A step is taken up. -/
  | takes (step : Step) (scope : Scope)
  /-- A literal is worked out, alone or within another. -/
  | evaluates (l : Literal) (scope : Scope)
  | calls (f : Value) (args : List Value)
  /-- An external program has ended with an exit code, and left this machine. -/
  | finishes (program : String) (args : List String) (code : Nat) (after : Machine)

/-- A computation of a run that tells what it does, the first deed first. -/
def Told (α : Type) : Type := Machine → List Deed × Outcome RuntimeError α

namespace Told

variable {α β : Type}

/-- How a told computation goes on after another. -/
protected def bind (x : Told α) (f : α → Told β) : Told β := fun m =>
  match x m with
  | (deeds, .done a m') => match f a m' with
    | (deeds', o) => (deeds ++ deeds', o)
  | (deeds, .failed e m') => (deeds, .failed e m')
  | (deeds, .exhausted) => (deeds, .exhausted)

instance : Monad Told where
  pure a m := ([], .done a m)
  bind := Told.bind

/-- A computation that tells nothing. -/
def silent (x : Running α) : Told α := fun m => ([], x m)

/-- Tell a deed. -/
def tell (d : Deed) : Told Unit := fun m => ([d], .done () m)

/-- What is told when a computation starts in a machine. -/
def deeds (x : Told α) (m : Machine) : List Deed := (x m).1

/-- The computation without what it tells. -/
def untold (x : Told α) : Running α := fun m => (x m).2

@[simp] theorem untold_silent (x : Running α) : (silent x).untold = x := rfl

@[simp] theorem untold_tell (d : Deed) : (tell d).untold = Pure.pure () := rfl

@[simp] theorem untold_pure (a : α) : (Pure.pure a : Told α).untold = Pure.pure a := rfl

@[simp] theorem untold_bind (x : Told α) (f : α → Told β) :
    (x >>= f).untold = x.untold >>= fun a => (f a).untold := by
  funext m
  show (Told.bind x f m).2 = Run.bind x.untold (fun a => (f a).untold) m
  unfold Told.bind Run.bind untold
  rcases x m with ⟨deeds, _ | _ | _⟩ <;> rfl

theorem untold_bind_eq {x : Told α} {f : α → Told β} {y : Running α} {g : α → Running β}
    (h : x.untold = y) (h' : ∀ a, (f a).untold = g a) : (x >>= f).untold = y >>= g := by
  rw [untold_bind, h]
  exact congrArg (y >>= ·) (funext h')

end Told

open Told

mutual

/-- Work out a literal in a scope, and tell it. -/
def literalTold (scope : Scope) : Literal → Told Value
  | .const v => do
    tell (.evaluates (.const v) scope)
    silent (Value.ofJson .nil v)
  | .expr source => do
    tell (.evaluates (.expr source) scope)
    silent (evaluated (scope.eval source))
  | .deferred segments => do
    tell (.evaluates (.deferred segments) scope)
    return .ofString (← silent (evaluated (Template.textIn scope segments)))
  | .seq items => do
    tell (.evaluates (.seq items) scope)
    let r ← silent (Run.newTable {})
    sequenceTold scope r 1 items
    return .table r
  | .map entries => do
    tell (.evaluates (.map entries) scope)
    let r ← silent (Run.newTable {})
    mappingTold scope r entries
    return .table r

/-- Put the values of literals into a table, and tell how they are worked out. -/
def sequenceTold (scope : Scope) (r : TableRef) (n : Nat) : List Literal → Told Unit
  | [] => return ()
  | l :: ls => do
    let v ← literalTold scope l
    silent (Run.modifyTable r fun t => t.setItem n v)
    sequenceTold scope r (n + 1) ls

/-- Put the values of entries into a table, and tell how they are worked out. -/
def mappingTold (scope : Scope) (r : TableRef) : List (String × Literal) → Told Unit
  | [] => return ()
  | (k, l) :: es => do
    let v ← literalTold scope l
    silent (Run.modifyTable r fun t => t.setField k v)
    mappingTold scope r es

end

/-- Work out arguments in order, and tell it. -/
def argumentsTold (scope : Scope) : List Literal → Told (List Value)
  | [] => return []
  | l :: ls => do
    let v ← literalTold scope l
    return v :: (← argumentsTold scope ls)

/-- Work out the texts of arguments in order, and tell it. -/
def textsTold (scope : Scope) : List Literal → Told (List String)
  | [] => return []
  | l :: ls => do
    let v ← literalTold scope l
    let t ← silent (evaluated (display v))
    return t :: (← textsTold scope ls)

/-- Run a body once for every position of a table, and tell what it does. -/
def roundsTold (s : Session) (scope : Scope) (r : TableRef) (body : Scope → Told (Option Nat)) :
    List Nat → Told (Option Nat)
  | [] => return none
  | n :: ns => do
    let inner ← silent scope.child
    silent (inner.declare s.naming.item ((← silent (Run.table r)).item (n + 1)))
    silent (inner.declare s.naming.index (.int (Int64.ofNat n)))
    match ← body inner with
    | some code => return some code
    | none => roundsTold s scope r body ns

mutual

/-- Run a step, and tell what it does. -/
def stepTold (s : Session) : Step → Scope → Told (Option Nat)
  | .declare name value, scope => do
    tell (.takes (.declare name value) scope)
    silent (scope.declare name (← literalTold scope value))
    return none
  | .call target args, scope => do
    tell (.takes (.call target args) scope)
    let f ← silent (callable scope target)
    let vs ← argumentsTold scope args
    tell (.calls f vs)
    let result ← silent (evaluated (unlifted (invoke f vs)))
    silent (scope.assign s.naming.result (first result))
    return none
  | .command program args, scope => do
    tell (.takes (.command program args) scope)
    let texts ← textsTold scope args
    let code ← silent (runProgram s.base program texts)
    tell (.finishes program texts code (← silent Run.get))
    return some code
  | .loop source body, scope => do
    tell (.takes (.loop source body) scope)
    match ← literalTold scope source with
    | .table r =>
      let count := (← silent (Run.table r)).border
      roundsTold s scope r (fun inner => stepsTold s body inner) (List.range count)
    | v => silent (Run.throw (.invalidLoopSource v.kindName))
  | .block body, scope => do
    tell (.takes (.block body) scope)
    let inner ← silent scope.child
    stepsTold s body inner

/-- Run steps one after the other, and tell what they do. -/
def stepsTold (s : Session) : List Step → Scope → Told (Option Nat)
  | [], _ => return none
  | step :: rest, scope => do
    match ← stepTold s step scope with
    | some code => return some code
    | none => stepsTold s rest scope

end

/-- Run a program, and tell what its steps do. -/
def runTold (p : Program) (c : Capabilities) : Told RunOutcome := do
  let s ← silent (install p.naming c)
  let scope ← silent (startScope p.naming)
  silent (bindImports s scope p.imports)
  match ← stepsTold s p.steps scope with
  | some code => return .exited code
  | none => return .completed

section Untold

variable (s : Session) (scope : Scope)

mutual

/-- A told literal has the value that it has. -/
theorem literalTold_untold (l : Literal) : (literalTold scope l).untold = literalValue scope l := by
  cases l with
  | const v => rfl
  | expr source => rfl
  | deferred segments =>
    simp only [literalTold, literalValue, untold_bind, untold_tell, untold_silent, untold_pure]
    rfl
  | seq items =>
    simp only [literalTold, literalValue, untold_bind, untold_tell, untold_silent, untold_pure,
      sequenceTold_untold]
    rfl
  | map entries =>
    simp only [literalTold, literalValue, untold_bind, untold_tell, untold_silent, untold_pure,
      mappingTold_untold]
    rfl

theorem sequenceTold_untold (r : TableRef) (n : Nat) (ls : List Literal) :
    (sequenceTold scope r n ls).untold = fillSequence scope r n ls := by
  cases ls with
  | nil => rfl
  | cons l ls =>
    simp only [sequenceTold, fillSequence, untold_bind, untold_silent, literalTold_untold l,
      sequenceTold_untold r (n + 1) ls]

theorem mappingTold_untold (r : TableRef) (es : List (String × Literal)) :
    (mappingTold scope r es).untold = fillMapping scope r es := by
  cases es with
  | nil => rfl
  | cons e es =>
    obtain ⟨k, l⟩ := e
    simp only [mappingTold, fillMapping, untold_bind, untold_silent, literalTold_untold l,
      mappingTold_untold r es]

end

theorem argumentsTold_untold (ls : List Literal) :
    (argumentsTold scope ls).untold = argumentValues scope ls := by
  induction ls with
  | nil => rfl
  | cons l ls ih =>
    simp only [argumentsTold, argumentValues, untold_bind, untold_pure, literalTold_untold, ih]

theorem textsTold_untold (ls : List Literal) :
    (textsTold scope ls).untold = argumentTexts scope ls := by
  induction ls with
  | nil => rfl
  | cons l ls ih =>
    simp only [textsTold, argumentTexts, untold_bind, untold_pure, untold_silent,
      literalTold_untold, ih]

theorem roundsTold_untold {body : Scope → Running (Option Nat)} {told : Scope → Told (Option Nat)}
    (h : ∀ inner, (told inner).untold = body inner) (r : TableRef) (ns : List Nat) :
    (roundsTold s scope r told ns).untold = repeatFor s scope r body ns := by
  induction ns with
  | nil => rfl
  | cons n ns ih =>
    refine untold_bind_eq rfl fun inner => untold_bind_eq rfl fun t => untold_bind_eq rfl fun _ =>
      untold_bind_eq rfl fun _ => untold_bind_eq (h inner) fun code => ?_
    cases code with
    | some code => rfl
    | none => exact ih

mutual

/-- A told step does what the step does. -/
theorem stepTold_untold (step : Step) (scope : Scope) :
    (stepTold s step scope).untold = runStep s step scope := by
  cases step with
  | declare name value =>
    simp only [stepTold, runStep, untold_bind, untold_tell, untold_silent, untold_pure,
      literalTold_untold]
    rfl
  | call target args =>
    simp only [stepTold, runStep, untold_bind, untold_tell, untold_silent, untold_pure,
      argumentsTold_untold]
    rfl
  | command program args =>
    simp only [stepTold, runStep, untold_bind, untold_tell, untold_silent, untold_pure,
      textsTold_untold]
    rfl
  | loop source body =>
    refine untold_bind_eq (literalTold_untold scope source) fun v => ?_
    cases v with
    | table r =>
      exact untold_bind_eq rfl fun t =>
        roundsTold_untold s scope (stepsTold_untold body) r _
    | _ => rfl
  | block body =>
    simp only [stepTold, runStep, untold_bind, untold_tell, untold_silent,
      stepsTold_untold body]
    rfl

theorem stepsTold_untold (steps : List Step) (scope : Scope) :
    (stepsTold s steps scope).untold = runSteps s steps scope := by
  cases steps with
  | nil => rfl
  | cons step rest =>
    refine untold_bind_eq (stepTold_untold step scope) fun code => ?_
    cases code with
    | some code => rfl
    | none => exact stepsTold_untold rest scope

end

/-- A told run is the run. -/
theorem runTold_untold (p : Program) (c : Capabilities) : (runTold p c).untold = runIn p c := by
  refine untold_bind_eq rfl fun s => untold_bind_eq rfl fun scope => untold_bind_eq rfl fun _ =>
    untold_bind_eq (stepsTold_untold s p.steps scope) fun code => ?_
  cases code <;> rfl

end Untold

namespace Deed

/-- Whether a deed has to do with no command. -/
def Plain : Deed → Prop
  | takes (.command _ _) _ => False
  | finishes _ _ _ _ => False
  | _ => True

/-- Whether a deed takes up a command. -/
def takesCommand : Deed → Bool
  | takes (.command _ _) _ => true
  | _ => false

theorem Plain.takesCommand {d : Deed} (h : d.Plain) : d.takesCommand = false := by
  cases d with
  | takes step scope => cases step with
    | command program args => exact h.elim
    | _ => rfl
  | _ => rfl

end Deed

/-- Deeds that have to do with no command. -/
def Plainly (deeds : List Deed) : Prop := ∀ d ∈ deeds, d.Plain

namespace Plainly

variable {deeds deeds' : List Deed}

theorem nil : Plainly [] := fun _ h => nomatch h

theorem single {d : Deed} (h : d.Plain) : Plainly [d] := by
  intro d' mem
  rwa [List.mem_singleton.1 mem]

theorem append (h : Plainly deeds) (h' : Plainly deeds') : Plainly (deeds ++ deeds') := by
  intro d mem
  exact (List.mem_append.1 mem).elim (h d) (h' d)

theorem not_finishes (h : Plainly deeds) {program : String} {args : List String} {code : Nat}
    {m : Machine} : Deed.finishes program args code m ∉ deeds := fun mem => h _ mem

theorem countP_takesCommand (h : Plainly deeds) : deeds.countP Deed.takesCommand = 0 := by
  rw [List.countP_eq_zero]
  intro d mem
  rw [(h d mem).takesCommand]
  exact Bool.false_ne_true

end Plainly

/-- How something that may end a run is told: without a command, or with one that is taken up when
nothing but plain deeds came before. Once it has finished nothing more is told. -/
inductive Course : List Deed → Outcome RuntimeError (Option Nat) → Prop where
  | on {deeds m} (plain : Plainly deeds) : Course deeds (.done none m)
  | breaks {deeds o} (plain : Plainly deeds) (broken : ∀ code m, o ≠ .done code m) : Course deeds o
  | breaksIn {before program args scope inside o} (plain : Plainly before)
    (preparing : Plainly inside) (broken : ∀ code m, o ≠ .done code m) :
    Course (before ++ .takes (.command program args) scope :: inside) o
  | exits {before program args scope inside texts code m} (plain : Plainly before)
    (preparing : Plainly inside) :
    Course (before ++ .takes (.command program args) scope ::
      (inside ++ [.finishes program texts code m])) (.done (some code) m)

namespace Course

variable {deeds before after : List Deed} {o : Outcome RuntimeError (Option Nat)}

/-- Plain deeds before it do not change how something is told. -/
theorem preceded (h : Course deeds o) (plain : Plainly before) : Course (before ++ deeds) o := by
  cases h with
  | on plain' => exact .on (plain.append plain')
  | breaks plain' broken => exact .breaks (plain.append plain') broken
  | breaksIn plain' preparing broken =>
    rw [← List.append_assoc]
    exact .breaksIn (plain.append plain') preparing broken
  | exits plain' preparing =>
    rw [← List.append_assoc]
    exact .exits (plain.append plain') preparing

theorem plain_of_on {m : Machine} (h : Course deeds (.done none m)) : Plainly deeds := by
  generalize same : Outcome.done none m = o at h
  cases h with
  | on plain => exact plain
  | breaks _ broken | breaksIn _ _ broken => exact absurd same.symm (broken none m)
  | exits => cases same

/-- A command that has finished is the last deed, and ends the run with its code. -/
theorem finished (h : Course deeds o) {program : String} {args : List String} {code : Nat}
    {m : Machine} (split : deeds = before ++ .finishes program args code m :: after) :
    after = [] ∧ o = .done (some code) m := by
  have told : Deed.finishes program args code m ∈ deeds := by simp [split]
  cases h with
  | on plain => exact absurd told plain.not_finishes
  | breaks plain => exact absurd told plain.not_finishes
  | breaksIn plain preparing =>
    simp only [List.mem_append, List.mem_cons, reduceCtorEq, false_or] at told
    exact absurd told (not_or.2 ⟨plain.not_finishes, preparing.not_finishes⟩)
  | @exits before' program' args' scope inside texts code' m' plain preparing =>
    rcases List.eq_nil_or_concat after with rfl | ⟨middle, last, rfl⟩
    · rw [← List.cons_append, ← List.append_assoc] at split
      obtain ⟨-, same⟩ := List.append_inj' split rfl
      cases same
      exact ⟨rfl, rfl⟩
    · -- the deeds before the last one are all of another kind
      rw [← List.cons_append, ← List.append_assoc, List.concat_eq_append, ← List.cons_append,
        ← List.append_assoc] at split
      obtain ⟨front, -⟩ := List.append_inj' split rfl
      have earlier : Deed.finishes program args code m ∈
          before' ++ .takes (.command program' args') scope :: inside := by
        rw [front]
        simp
      simp only [List.mem_append, List.mem_cons, reduceCtorEq, false_or] at earlier
      exact absurd earlier (not_or.2 ⟨plain.not_finishes, preparing.not_finishes⟩)

theorem countP_le (h : Course deeds o) : deeds.countP Deed.takesCommand ≤ 1 := by
  cases h with
  | on plain | breaks plain => simp [plain.countP_takesCommand]
  | breaksIn plain preparing =>
    simp [List.countP_append, List.countP_cons, plain.countP_takesCommand,
      preparing.countP_takesCommand, Deed.takesCommand]
  | exits plain preparing =>
    simp [List.countP_append, List.countP_cons, plain.countP_takesCommand,
      preparing.countP_takesCommand, Deed.takesCommand]

/-- What is done goes on exactly when no command was taken up. -/
theorem on_iff {code : Option Nat} {m : Machine} (h : Course deeds (.done code m)) :
    code = none ↔ ∀ d ∈ deeds, d.takesCommand = false := by
  generalize same : Outcome.done code m = o at h
  cases h with
  | on plain =>
    cases same
    exact ⟨fun _ d mem => (plain d mem).takesCommand, fun _ => rfl⟩
  | breaks _ broken | breaksIn _ _ broken => exact absurd same.symm (broken code m)
  | @exits before' program args scope =>
    cases same
    refine ⟨nofun, fun none_taken => ?_⟩
    have := none_taken (.takes (.command program args) scope) (by simp)
    cases this

end Course

namespace Told

variable {α β : Type}

theorem deeds_bind (x : Told α) (f : α → Told β) (m : Machine) :
    (x >>= f).deeds m = match x.untold m with
      | .done a m' => x.deeds m ++ (f a).deeds m'
      | _ => x.deeds m := by
  show (Told.bind x f m).1 = _
  unfold Told.bind untold deeds
  rcases x m with ⟨deeds, _ | _ | _⟩ <;> rfl

@[simp] theorem deeds_pure (a : α) (m : Machine) : (Pure.pure a : Told α).deeds m = [] := rfl

@[simp] theorem deeds_silent (x : Running α) (m : Machine) : (silent x).deeds m = [] := rfl

@[simp] theorem deeds_tell (d : Deed) (m : Machine) : (tell d).deeds m = [d] := rfl

/-- A computation that has to do with no command. -/
def Tame (x : Told α) : Prop := ∀ m, Plainly (x.deeds m)

/-- A computation that may end a run, and tells nothing after a command. -/
def Courses (x : Told (Option Nat)) : Prop := ∀ m, Course (x.deeds m) (x.untold m)

theorem Tame.pure (a : α) : Tame (Pure.pure a) := fun _ => .nil

theorem Tame.silent (x : Running α) : Tame (silent x) := fun _ => .nil

theorem Tame.tell {d : Deed} (h : d.Plain) : Tame (tell d) := fun _ => .single h

theorem Tame.bind {x : Told α} {f : α → Told β} (h : Tame x) (h' : ∀ a, Tame (f a)) :
    Tame (x >>= f) := by
  intro m
  rw [deeds_bind]
  split
  · exact (h m).append (h' _ _)
  · exact h m

theorem Courses.none : Courses (Pure.pure none) := fun _ => .on .nil

/-- Something tame before it does not change how something is told. -/
theorem Courses.after {x : Told α} {f : α → Told (Option Nat)} (h : Tame x)
    (h' : ∀ a, Courses (f a)) : Courses (x >>= f) := by
  intro m
  rw [deeds_bind, untold_bind, bind_apply]
  cases x.untold m with
  | done a m' => exact (h' a m').preceded (h m)
  | failed e m' => exact .breaks (h m) nofun
  | exhausted => exact .breaks (h m) nofun

/-- Something goes on after something else only where no command was taken up. -/
theorem Courses.next {x y : Told (Option Nat)} {f : Option Nat → Told (Option Nat)}
    (h : Courses x) (h' : Courses y) (ends : ∀ code, f (some code) = Pure.pure (some code))
    (goes : f .none = y) : Courses (x >>= f) := by
  intro m
  have first := h m
  rw [deeds_bind, untold_bind, bind_apply]
  cases same : x.untold m with
  | done code m' =>
    rw [same] at first
    cases code with
    | none =>
      simp only [goes, Outcome.andThen_done]
      exact (h' m').preceded first.plain_of_on
    | some code =>
      simp only [ends, deeds_pure, untold_pure, pure_apply, List.append_nil, Outcome.andThen_done]
      exact first
  | failed e m' => rwa [same] at first
  | exhausted => rwa [same] at first

end Told

section Taming

variable (s : Session) (scope : Scope)

mutual

/-- Working out a literal has to do with no command. -/
theorem literalTold_tame (l : Literal) : Tame (literalTold scope l) := by
  cases l with
  | const v => exact .bind (.tell trivial) fun _ => .silent _
  | expr source => exact .bind (.tell trivial) fun _ => .silent _
  | deferred segments =>
    exact .bind (.tell trivial) fun _ => .bind (.silent _) fun _ => .pure _
  | seq items =>
    exact .bind (.tell trivial) fun _ => .bind (.silent _) fun r =>
      .bind (sequenceTold_tame r 1 items) fun _ => .pure _
  | map entries =>
    exact .bind (.tell trivial) fun _ => .bind (.silent _) fun r =>
      .bind (mappingTold_tame r entries) fun _ => .pure _

theorem sequenceTold_tame (r : TableRef) (n : Nat) (ls : List Literal) :
    Tame (sequenceTold scope r n ls) := by
  cases ls with
  | nil => exact .pure _
  | cons l ls =>
    exact .bind (literalTold_tame l) fun _ => .bind (.silent _) fun _ =>
      sequenceTold_tame r (n + 1) ls

theorem mappingTold_tame (r : TableRef) (es : List (String × Literal)) :
    Tame (mappingTold scope r es) := by
  cases es with
  | nil => exact .pure _
  | cons e es =>
    obtain ⟨k, l⟩ := e
    exact .bind (literalTold_tame l) fun _ => .bind (.silent _) fun _ => mappingTold_tame r es

end

theorem argumentsTold_tame (ls : List Literal) : Tame (argumentsTold scope ls) := by
  induction ls with
  | nil => exact .pure _
  | cons l ls ih => exact .bind (literalTold_tame scope l) fun _ => .bind ih fun _ => .pure _

theorem textsTold_tame (ls : List Literal) : Tame (textsTold scope ls) := by
  induction ls with
  | nil => exact .pure _
  | cons l ls ih =>
    exact .bind (literalTold_tame scope l) fun _ => .bind (.silent _) fun _ =>
      .bind ih fun _ => .pure _

/-- No round is begun after a command has ended the run. -/
theorem roundsTold_courses {told : Scope → Told (Option Nat)} (h : ∀ inner, Courses (told inner))
    (r : TableRef) (ns : List Nat) : Courses (roundsTold s scope r told ns) := by
  induction ns with
  | nil => exact .none
  | cons n ns ih =>
    exact .after (.silent _) fun inner => .after (.silent _) fun _ => .after (.silent _) fun _ =>
      .after (.silent _) fun _ => (h inner).next ih (fun _ => rfl) rfl

/-- A command that has finished is the last thing that is told of its step. -/
theorem command_courses (program : String) (args : List Literal) :
    Courses (stepTold s (.command program args) scope) := by
  intro m
  have preparing := textsTold_tame scope args m
  simp only [stepTold, deeds_bind, untold_bind, bind_apply, deeds_tell, untold_tell, deeds_silent,
    untold_silent, deeds_pure, untold_pure, pure_apply, Run.get, Outcome.andThen_done]
  cases (textsTold scope args).untold m with
  | done texts m₁ =>
    simp only [Outcome.andThen_done]
    cases runProgram s.base program texts m₁ with
    | done code m₂ => exact .exits .nil preparing
    | failed e m₂ => exact .breaksIn .nil (preparing.append .nil) nofun
    | exhausted => exact .breaksIn .nil (preparing.append .nil) nofun
  | failed e m₁ => exact .breaksIn .nil preparing nofun
  | exhausted => exact .breaksIn .nil preparing nofun

mutual

/-- A step tells nothing after a command that has finished in it. -/
theorem stepTold_courses (step : Step) (scope : Scope) : Courses (stepTold s step scope) := by
  cases step with
  | declare name value =>
    exact .after (.tell trivial) fun _ => .after (literalTold_tame scope value) fun _ =>
      .after (.silent _) fun _ => .none
  | call target args =>
    exact .after (.tell trivial) fun _ => .after (.silent _) fun _ =>
      .after (argumentsTold_tame scope args) fun _ => .after (.tell trivial) fun _ =>
        .after (.silent _) fun _ => .after (.silent _) fun _ => .none
  | command program args => exact command_courses s scope program args
  | loop source body =>
    -- only a sequence has rounds; any other value fails before one begins
    refine .after (.tell trivial) fun _ => .after (literalTold_tame scope source) fun v => ?_
    cases v with
    | table r =>
      exact .after (.silent _) fun _ =>
        roundsTold_courses s scope (stepsTold_courses body) r _
    | _ => exact fun _ => .breaks .nil nofun
  | block body =>
    exact .after (.tell trivial) fun _ => .after (.silent _) fun inner =>
      stepsTold_courses body inner

theorem stepsTold_courses (steps : List Step) (scope : Scope) :
    Courses (stepsTold s steps scope) := by
  cases steps with
  | nil => exact .none
  | cons step rest =>
    exact (stepTold_courses step scope).next (stepsTold_courses rest scope) (fun _ => rfl) rfl

end

end Taming

/-- How steps that are done end a run. -/
def ending : Option Nat → RunOutcome
  | some code => .exited code
  | none => .completed

namespace Told

variable {α : Type}

/-- A computation that ends as one that may end a run, and tells as much. -/
def Ends (x : Told RunOutcome) : Prop :=
  ∀ m, ∃ o, Course (x.deeds m) o ∧ x.untold m = o.andThen (fun code => .done (ending code)) .failed

theorem Ends.after {x : Running α} {f : α → Told RunOutcome} (h : ∀ a, Ends (f a)) :
    Ends (silent x >>= f) := by
  intro m
  rw [deeds_bind, untold_bind, bind_apply, untold_silent]
  cases x m with
  | done a m' => exact h a m'
  | failed e m' => exact ⟨.failed e m', .breaks .nil nofun, rfl⟩
  | exhausted => exact ⟨.exhausted, .breaks .nil nofun, rfl⟩

theorem Courses.ends {x : Told (Option Nat)} {f : Option Nat → Told RunOutcome} (h : Courses x)
    (ends : ∀ code, f code = Pure.pure (ending code)) : Ends (x >>= f) := by
  intro m
  refine ⟨x.untold m, ?_, ?_⟩
  · have told := h m
    rw [deeds_bind]
    cases same : x.untold m with
    | done code m' => simpa [same, ends] using told
    | failed e m' => rwa [same] at told
    | exhausted => rwa [same] at told
  · rw [untold_bind, bind_apply]
    exact congrArg (fun next => (x.untold m).andThen next .failed)
      (funext fun code => congrArg untold (ends code))

end Told

/-- A run ends as its steps do, and tells what they tell. -/
theorem runTold_ends (p : Program) (c : Capabilities) : Ends (runTold p c) :=
  .after fun s => .after fun scope => .after fun _ =>
    (stepsTold_courses s p.steps scope).ends fun code => by cases code <;> rfl

/-- A command ends a run, however deep in blocks and loops it stands. Once it has finished with a
code the run does nothing more, and it exits with that code in the machine that the command left. So
a run takes up at most one command, and one that ends without an error is completed exactly when it
took up none. -/
theorem command_ends_run (p : Program) (c : Capabilities) (m : Machine) :
    (runTold p c).untold m = runIn p c m ∧
      (∀ before after program args code m',
        (runTold p c).deeds m = before ++ .finishes program args code m' :: after →
          after = [] ∧ runIn p c m = .done (.exited code) m') ∧
      ((runTold p c).deeds m).countP Deed.takesCommand ≤ 1 ∧
      (∀ outcome m', runIn p c m = .done outcome m' →
        (outcome = .completed ↔ ∀ d ∈ (runTold p c).deeds m, d.takesCommand = false)) := by
  obtain ⟨o, course, ends⟩ := runTold_ends p c m
  rw [runTold_untold] at ends ⊢
  refine ⟨rfl, ?_, course.countP_le, ?_⟩
  · intro before after program args code m' split
    obtain ⟨last, rfl⟩ := course.finished split
    exact ⟨last, ends⟩
  · intro outcome m' done
    rw [ends] at done
    cases o with
    | done code m₁ =>
      cases done
      rw [← course.on_iff]
      cases code <;> simp [ending]
    | failed e m₁ => cases done
    | exhausted => cases done

namespace CommandInLoop

/-- A command in a loop in a block, with steps after it at every level. -/
def program : Program where
  naming := {}
  imports := []
  steps := [
    .block [
      .loop (.const (.arr [.int 1, .int 2])) [
        .declare "seen" (.expr "item"),
        .command "false" [.expr "seen"],
        .call "tostring" [.expr "seen"]],
      .declare "later" (.const .null)],
    .call "tostring" []]

set_option maxRecDepth 100000 in
theorem command_is_last :
    (((runTold program ⟨{}, "/"⟩).deeds (Machine.initial {})).getLast?.any fun d => match d with
      | .finishes name args code _ => name == "false" && args == ["1"] && code == 1
      | _ => false) = true := by
  -- whether a text has a zero byte is asked in a way that evaluates
  simp only [runTold, program, stepsTold, stepTold, runProgram, capture, String.contains_char_eq]
  decide +kernel

/-- The command ends the run in the first round. -/
theorem command_ends_run_at_once : ∃ before m,
    (runTold program ⟨{}, "/"⟩).deeds (Machine.initial {}) =
      before ++ [.finishes "false" ["1"] 1 m] ∧
    runIn program ⟨{}, "/"⟩ (Machine.initial {}) = .done (.exited 1) m := by
  have last := command_is_last
  rw [Option.any_eq_true] at last
  obtain ⟨d, found, same⟩ := last
  obtain ⟨before, split⟩ := List.getLast?_eq_some_iff.1 found
  cases d with
  | finishes name args code m =>
    simp only [Bool.and_eq_true, beq_iff_eq] at same
    obtain ⟨⟨rfl, rfl⟩, rfl⟩ := same
    exact ⟨before, m, split, ((command_ends_run _ _ _).2.1 before [] _ _ _ _ split).2⟩
  | _ => cases same

end CommandInLoop

end Tasklang.Execution
