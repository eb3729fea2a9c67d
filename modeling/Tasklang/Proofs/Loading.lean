import Tasklang.Proofs.Frames

/-! # Modules are loaded once

The imports of a run go on from one to the next as the machine writes them down. While the code of a
module runs, nothing is imported under its name unless the module imports itself. Without that, every
event tells what the earlier ones have led to: a value is given again exactly when it was loaded
before, and otherwise the file is looked for, also after imports under the same name that failed.
-/

namespace Tasklang

open Lua Lua.Run

namespace Lua

theorem Outcome.After.endsIn {ε α : Type} {P : Machine → Prop} {o : Outcome ε α} {m : Machine}
    (h : o.After P) (ended : o.EndsIn m) : P m := by
  cases o with
  | done | failed => exact ended ▸ h
  | exhausted => exact ended.elim

namespace ImportEvent

/-- The name that an event is about. -/
def name : ImportEvent → String
  | .missed name => name
  | .started name _ => name
  | .loaded name _ => name
  | .failed name => name
  | .reused name _ => name

/-- Whether an event is what an import begins with. -/
def begins : ImportEvent → Bool
  | .loaded _ _ => false
  | .failed _ => false
  | _ => true

/-- Whether an event tells what the earlier ones have led to. -/
def Fits : ImportEvent → List ImportEvent → Prop
  | .reused name v, earlier => ∃ returned, .loaded name returned ∈ earlier ∧ v = moduleValue returned
  | e, earlier => ∀ returned, .loaded e.name returned ∉ earlier

end ImportEvent

/-- The names whose code is running after the events of a history, the latest first. -/
def loading : List ImportEvent → List String
  | [] => []
  | .started name _ :: history => name :: loading history
  | .loaded _ _ :: history => (loading history).tail
  | .failed _ :: history => (loading history).tail
  | _ :: history => loading history

/-- Whether no module imports itself, be it through others: no import begins under a name whose code is
running. -/
def Acyclic : List ImportEvent → Prop
  | [] => True
  | e :: history => (e.begins = true → e.name ∉ loading history) ∧ Acyclic history

instance Acyclic.decidable : (history : List ImportEvent) → Decidable (Acyclic history)
  | [] => .isTrue trivial
  | e :: history =>
    have := Acyclic.decidable history
    inferInstanceAs (Decidable ((e.begins = true → e.name ∉ loading history) ∧ Acyclic history))

theorem Acyclic.earlier {later earlier : List ImportEvent} (h : Acyclic (later ++ earlier)) :
    Acyclic earlier := by
  induction later with
  | nil => exact h
  | cons e later ih => exact ih h.2

theorem moduleValue_ne_nil (returned : Value) : moduleValue returned ≠ .nil := by
  unfold moduleValue
  cases returned <;> nofun

namespace Modules

variable {k k' : Modules} {name : String}

theorem find?_keep (k : Modules) (name : String) (returned : Value) (other : String) :
    (k.keep name returned).find? other =
      if other = name then some (moduleValue returned) else k.find? other := by
  rw [find?, keep, List.lookup_cons]
  by_cases same : other = name
  · simp [same]
  · simp [same, beq_eq_false_iff_ne.2 same, find?]

namespace Evolves

/-- The events come after those that there were. -/
theorem history (h : Evolves k k') : k.history <:+ k'.history := by
  induction h with
  | refl => exact List.suffix_refl _
  | trans _ _ ih ih' => exact ih.trans ih'
  | reused | missed => exact List.suffix_cons _ _
  | loaded _ _ _ ih | failed _ _ ih => exact (List.suffix_cons _ _).trans (ih.trans (List.suffix_cons _ _))

theorem acyclic (h : Evolves k k') (acyclic : Acyclic k'.history) : Acyclic k.history := by
  obtain ⟨later, spelled⟩ := h.history
  rw [← spelled] at acyclic
  exact acyclic.earlier

/-- Code that has begun to run has come to its end. -/
theorem loading (h : Evolves k k') : loading k'.history = loading k.history := by
  induction h with
  | refl => rfl
  | trans _ _ ih ih' => exact ih'.trans ih
  | reused | missed => rfl
  | loaded _ _ _ ih | failed _ _ ih => exact congrArg List.tail ih

/-- A value that is kept stays. -/
theorem stays (h : Evolves k k') {v : Value} (kept : k.find? name = some v) :
    k'.find? name = some v := by
  induction h with
  | refl => exact kept
  | trans _ _ ih ih' => exact ih' (ih kept)
  | reused | missed => exact kept
  | loaded _ none _ ih =>
    rw [find?_keep, if_neg (fun same => by rw [same, none] at kept; cases kept)]
    exact ih kept
  | failed _ _ ih => exact ih kept

/-- While the code of a name runs, nothing is imported under the name. -/
theorem silent (h : Evolves k k') (acyclic : Acyclic k'.history) (running : name ∈ Lua.loading k.history) :
    k'.find? name = k.find? name ∧ ∀ e ∈ k'.history, e.name = name → e ∈ k.history := by
  induction h with
  | refl => exact ⟨rfl, fun _ there _ => there⟩
  | trans first rest ih ih' =>
    obtain ⟨kept, events⟩ := ih (rest.acyclic acyclic) running
    obtain ⟨kept', events'⟩ := ih' acyclic (first.loading ▸ running)
    exact ⟨kept'.trans kept, fun e there own => events e (events' e there own) own⟩
  | @reused k n v _ | @missed k n _ =>
    have other : n ≠ name := fun same => acyclic.1 rfl (same ▸ running)
    refine ⟨rfl, fun e there own => ?_⟩
    rcases List.mem_cons.1 there with rfl | there
    · exact absurd own other
    · exact there
  | @loaded k k' n path returned _ inner ih =>
    have other : n ≠ name := fun same => (inner.acyclic acyclic.2).1 rfl (same ▸ running)
    obtain ⟨kept, events⟩ := ih acyclic.2 (.tail _ running)
    refine ⟨by rw [find?_keep, if_neg (Ne.symm other), kept]; rfl, fun e there own => ?_⟩
    rcases List.mem_cons.1 there with rfl | there
    · exact absurd own other
    · exact (List.mem_cons.1 (events e there own)).resolve_left fun is_ => other (by rw [← own, is_]; rfl)
  | @failed k k' n path _ inner ih =>
    have other : n ≠ name := fun same => (inner.acyclic acyclic.2).1 rfl (same ▸ running)
    obtain ⟨kept, events⟩ := ih acyclic.2 (.tail _ running)
    refine ⟨kept, fun e there own => ?_⟩
    rcases List.mem_cons.1 there with rfl | there
    · exact absurd own other
    · exact (List.mem_cons.1 (events e there own)).resolve_left fun is_ => other (by rw [← own, is_]; rfl)

end Evolves

/-- Whether modules are loaded once: a value is kept exactly under the names that a module was loaded
under, and every event fits those before it. -/
structure Once (k : Modules) : Prop where
  kept : ∀ name v, k.find? name = some v ↔
    ∃ returned, .loaded name returned ∈ k.history ∧ v = moduleValue returned
  fits : ∀ later e earlier, k.history = later ++ e :: earlier → e.Fits earlier

namespace Once

theorem nothing : Once {} := ⟨by simp [find?], by simp⟩

theorem absent (h : Once k) (none : k.find? name = none) (returned : Value) :
    .loaded name returned ∉ k.history := fun there => by
  rw [(h.kept name _).2 ⟨returned, there, rfl⟩] at none
  cases none

/-- One more event that leaves the values as they are. -/
theorem tell (h : Once k) {e : ImportEvent} (other : ∀ name returned, e ≠ .loaded name returned)
    (fits : e.Fits k.history) : Once (k.tell e) := by
  constructor
  · intro name v
    refine (h.kept name v).trans (exists_congr fun returned => and_congr_left fun _ => ?_)
    exact ⟨.tail _, fun there => (List.mem_cons.1 there).resolve_left fun is_ => other _ _ is_.symm⟩
  · intro later e' earlier spelled
    cases later with
    | nil =>
      obtain ⟨rfl, rfl⟩ := List.cons.inj spelled
      exact fits
    | cons _ later => exact h.fits later e' earlier (List.cons.inj spelled).2

/-- A module that was loaded for the first time. -/
theorem keep (h : Once k) (new : ∀ returned, .loaded name returned ∉ k.history) (returned : Value) :
    Once (k.keep name returned) := by
  constructor
  · intro other v
    rw [find?_keep]
    by_cases same : other = name
    · subst same
      rw [if_pos rfl]
      constructor
      · rintro ⟨rfl⟩
        exact ⟨returned, .head _, rfl⟩
      · rintro ⟨returned', there, rfl⟩
        rcases List.mem_cons.1 there with is_ | there
        · cases is_
          rfl
        · exact absurd there (new returned')
    · rw [if_neg same, h.kept]
      refine exists_congr fun returned' => and_congr_left fun _ => ⟨.tail _, fun there => ?_⟩
      refine (List.mem_cons.1 there).resolve_left fun is_ => ?_
      cases is_
      exact same rfl
  · intro later e earlier spelled
    cases later with
    | nil =>
      obtain ⟨rfl, rfl⟩ := List.cons.inj spelled
      exact new
    | cons _ later => exact h.fits later e earlier (List.cons.inj spelled).2

/-- Imports keep modules loaded once. The induction is on how they go on: when the code of a module
has come to its end, no import under its name has begun in between. -/
theorem evolves (h : Evolves k k') (acyclic : Acyclic k'.history) (once : Once k) : Once k' := by
  induction h with
  | refl => exact once
  | trans first rest ih ih' => exact ih' acyclic (ih (rest.acyclic acyclic) once)
  | reused kept => exact once.tell nofun ((once.kept _ _).1 kept)
  | missed none => exact once.tell nofun (once.absent none)
  | @loaded k k' name path returned none inner ih =>
    have started : Once (k.tell (.started name path)) := once.tell nofun (once.absent none)
    have silent := (inner.silent acyclic.2 (.head _)).2
    refine (ih acyclic.2 started).keep (fun returned' there => ?_) returned
    exact (List.mem_cons.1 (silent _ there rfl)).elim nofun (once.absent none returned')
  | @failed k k' name path none inner ih =>
    have started : Once (k.tell (.started name path)) := once.tell nofun (once.absent none)
    have silent := (inner.silent acyclic.2 (.head _)).2
    refine (ih acyclic.2 started).tell nofun fun returned' there => ?_
    exact (List.mem_cons.1 (silent _ there rfl)).elim nofun (once.absent none returned')

/-- After a module was loaded, its value is given again whenever it is imported under its name, and
nothing else comes of that. -/
theorem later (h : Once k) {later earlier : List ImportEvent} {returned : Value}
    (spelled : k.history = later ++ .loaded name returned :: earlier) :
    ∀ e ∈ later, e.name = name → e = .reused name (moduleValue returned) := by
  intro e there own
  obtain ⟨after, before, rfl⟩ := List.append_of_mem there
  have first : .loaded name returned ∈ before ++ .loaded name returned :: earlier :=
    List.mem_append_right _ (.head _)
  have fits := h.fits after e _ (by rw [spelled, List.append_assoc]; rfl)
  cases e with
  | reused n v =>
    obtain rfl : n = name := own
    obtain ⟨returned', there', rfl⟩ := fits
    have within : ∀ e ∈ before ++ .loaded n returned :: earlier, e ∈ k.history := by
      intro e there
      rw [spelled, List.append_assoc]
      exact List.mem_append_right _ (.tail _ there)
    have same := ((h.kept n _).2 ⟨returned', within _ there', rfl⟩).symm.trans
      ((h.kept n _).2 ⟨returned, within _ first, rfl⟩)
    rw [Option.some.inj same]
  | missed | started | loaded | failed =>
    cases own
    exact absurd first (fits returned)

end Once

end Modules

/-! ## Imports -/

/-- What comes of one import. A value that is kept is given again, and nothing else happens. Otherwise
the value of the module is kept when its code comes to its end, and nothing is kept under its name when
the import fails. All that was kept before stays. -/
structure ImportOutcome (m : Machine) (from_ : String) (o : Outcome ImportError Value) : Prop where
  again : ∀ v, m.modules.find? from_ = some v → o = .done v (m.tell (.reused from_ v))
  loaded : m.modules.find? from_ = none → ∀ v m', o = .done v m' →
    ∃ returned history, m'.modules.history = .loaded from_ returned :: history ∧
      v = moduleValue returned ∧ m'.modules.find? from_ = some v
  failed : ∀ e m', o = .failed e m' → Acyclic m'.modules.history → m'.modules.find? from_ = none ∧
    ∃ history, m'.modules.history = .missed from_ :: history ∨
      m'.modules.history = .failed from_ :: history
  stays : o.After fun m' => ∀ name v, m.modules.find? name = some v → m'.modules.find? name = some v

theorem importing_outcome (m : Machine) (from_ : String)
    (source : World → Except ImportError (String × Code ImportError Value)) :
    ImportOutcome m from_ ((Code.importing from_ source).exec m) := by
  have stays : ((Code.importing from_ source).exec m).After fun m' =>
      ∀ name v, m.modules.find? name = some v → m'.modules.find? name = some v :=
    ((Code.importing from_ source).grows m).imp fun _ grows _ _ kept => grows.modules.stays kept
  cases kept : m.modules.find? from_ with
  | some v =>
    have exec : (Code.importing from_ source).exec m = .done v (m.tell (.reused from_ v)) := by
      simp only [Code.importing, kept]
    rw [exec] at stays ⊢
    exact {
      again v' kept' := by rw [Option.some.inj (kept.symm.trans kept')]
      loaded none := by cases kept.symm.trans none
      failed _ _ is_ := by cases is_
      stays }
  | none =>
    have absent : ∀ v, m.modules.find? from_ ≠ some v := fun v kept' => nomatch kept.symm.trans kept'
    cases found : source m.world with
    | error e =>
      have exec : (Code.importing from_ source).exec m = .failed e (m.tell (.missed from_)) := by
        simp only [Code.importing, kept, found]
      rw [exec] at stays ⊢
      exact {
        again v kept := absurd kept (absent v)
        loaded _ _ _ is_ := by cases is_
        failed _ _ is_ _ := by
          cases is_
          exact ⟨kept, _, .inl rfl⟩
        stays }
    | ok module =>
      have inner := module.2.grows (m.tell (.started from_ module.1))
      cases ran : module.2.exec (m.tell (.started from_ module.1)) with
      | done returned m' =>
        have exec : (Code.importing from_ source).exec m =
            .done (moduleValue returned) (m'.keep from_ returned) := by
          simp only [Code.importing, kept, found, ran]
        rw [exec] at stays ⊢
        exact {
          again v kept := absurd kept (absent v)
          loaded _ _ _ is_ := by
            cases is_
            refine ⟨returned, _, rfl, rfl, ?_⟩
            exact (m'.modules.find?_keep from_ returned from_).trans (if_pos rfl)
          failed _ _ is_ := by cases is_
          stays }
      | failed e m' =>
        have exec : (Code.importing from_ source).exec m = .failed e (m'.tell (.failed from_)) := by
          simp only [Code.importing, kept, found, ran]
        rw [ran] at inner
        rw [exec] at stays ⊢
        exact {
          again v kept := absurd kept (absent v)
          loaded _ _ _ is_ := by cases is_
          failed _ _ is_ acyclic := by
            cases is_
            -- the code of the module has not imported its own name, so it has kept nothing under it
            exact ⟨(inner.modules.silent acyclic.2 (.head _)).1.trans kept, _, .inr rfl⟩
          stays }
      | exhausted =>
        have exec : (Code.importing from_ source).exec m = .exhausted := by
          simp only [Code.importing, kept, found, ran]
        rw [exec]
        exact {
          again v kept := absurd kept (absent v)
          loaded _ _ _ is_ := by cases is_
          failed _ _ is_ := by cases is_
          stays := trivial }

end Lua

/-! ## Runs -/

namespace Execution

open Modules

/-- A computation whose imports go on from those before it. -/
def Imports {ε α : Type} (x : Run ε α) : Prop :=
  ∀ m, (x m).After fun m' => m.modules.Evolves m'.modules

namespace Imports

variable {ε α β : Type}

theorem quiet {x : Run ε α} (h : Quiet x) : Imports x := fun m => (h m).imp fun _ grows => grows.modules

theorem pure (a : α) : Imports (Pure.pure a : Run ε α) := .quiet (.pure a)

theorem throw (e : ε) : Imports (Run.throw e : Run ε α) := .quiet (.throw e)

theorem bind {x : Run ε α} {f : α → Run ε β} (hx : Imports x) (hf : ∀ a, Imports (f a)) :
    Imports (x >>= f) := by
  intro m
  have h := hx m
  rw [bind_apply]
  cases ended : x m with
  | done a m' =>
    rw [ended] at h
    exact (hf a m').imp fun _ => h.trans
  | failed e m' =>
    rw [ended] at h
    exact h
  | exhausted => trivial

theorem declare (scope : Scope) (name : String) (v : Value) :
    Imports (scope.declare name v : Run ε Unit) := fun m => .refl m.modules

theorem assign (scope : Scope) (name : String) (v : Value) :
    Imports (scope.assign name v : Run ε Unit) := by
  intro m
  rw [assign_eq, assigned]
  split <;> exact .refl m.modules

theorem new (outer : Option Scope) : Imports (Scope.new outer : Run ε Scope) :=
  fun m => .refl m.modules

end Imports

theorem bindImports_imports (s : Session) (scope : Scope) (imports : List Import) :
    Imports (bindImports s scope imports) := by
  induction imports with
  | nil => exact .pure ()
  | cons i rest ih =>
    rw [bindImports]
    refine .bind (.quiet (importValue_quiet s i.source)) fun v => ?_
    exact .bind (.declare scope i.binding v) fun _ => ih

theorem repeatFor_imports (s : Session) (scope : Scope) (r : TableRef)
    {body : Scope → Running (Option Nat)} (each : ∀ inner, Imports (body inner)) (ns : List Nat) :
    Imports (repeatFor s scope r body ns) := by
  induction ns with
  | nil => exact .pure none
  | cons n ns ih =>
    rw [repeatFor]
    refine .bind (.new _) fun inner => .bind (.quiet (.code _)) fun t => ?_
    refine .bind (.declare inner _ _) fun _ => .bind (.declare inner _ _) fun _ => ?_
    refine .bind (each inner) fun code => ?_
    cases code with
    | some code => exact .pure _
    | none => exact ih

mutual

theorem runStep_imports (s : Session) (step : Step) (scope : Scope) :
    Imports (runStep s step scope) := by
  cases step with
  | declare name value =>
    rw [runStep]
    refine .bind (.quiet (literalValue_quiet scope value)) fun v => ?_
    exact .bind (.declare scope name v) fun _ => .pure none
  | call target args =>
    rw [runStep]
    refine .bind (.quiet (callable_quiet scope target)) fun f => ?_
    refine .bind (.quiet (argumentValues_quiet scope args)) fun vs => ?_
    refine .bind (.quiet (evaluated_quiet (unlifted_quiet _))) fun results => ?_
    exact .bind (.assign scope _ _) fun _ => .pure none
  | command program args => exact .quiet (command_quiet s program args scope)
  | loop source body =>
    rw [runStep]
    refine .bind (.quiet (literalValue_quiet scope source)) fun v => ?_
    cases v with
    | table r =>
      exact .bind (.quiet (.code _)) fun t => repeatFor_imports s scope r (runSteps_imports s body) _
    | _ => exact .throw _
  | block body =>
    rw [runStep]
    exact .bind (.new scope) fun inner => runSteps_imports s body inner

theorem runSteps_imports (s : Session) (steps : List Step) (scope : Scope) :
    Imports (runSteps s steps scope) := by
  cases steps with
  | nil => exact .pure none
  | cons step rest =>
    rw [runSteps]
    refine .bind (runStep_imports s step scope) fun code => ?_
    cases code with
    | some code => exact .pure _
    | none => exact runSteps_imports s rest scope

end

theorem startScope_imports (naming : Naming) : Imports (startScope naming) := by
  unfold startScope
  refine .bind (.new none) fun scope => .bind (.declare scope _ _) fun _ => ?_
  refine .bind (.declare scope _ _) fun _ => .bind (.quiet (.code _)) fun r => ?_
  exact .bind (.declare scope _ _) fun _ => .pure scope

/-- The imports of a run go on from one to the next. -/
theorem runIn_imports (p : Program) (c : Capabilities) : Imports (runIn p c) := by
  unfold runIn
  refine .bind (.quiet (install_quiet p.naming c)) fun s => ?_
  refine .bind (startScope_imports p.naming) fun scope => ?_
  refine .bind (bindImports_imports s scope p.imports) fun _ => ?_
  refine .bind (runSteps_imports s p.steps scope) fun code => ?_
  cases code <;> exact .pure _

/-- In a run whose modules do not import themselves a module is loaded once: after a value was loaded under
a name, every import of the name gives that value and runs no code, be it of the program, of a call to
the importing function, or in the code of another module. A failed import keeps nothing under its name,
so that the next import of the name looks for the file again, and forgets nothing. -/
theorem modules_load_once (p : Program) (c : Capabilities) (w : World) :
    (∀ m, (runIn p c (Machine.initial w)).EndsIn m → Acyclic m.modules.history →
      m.modules.Once ∧
      ∀ name returned later earlier, m.modules.history = later ++ .loaded name returned :: earlier →
        ∀ e ∈ later, e.name = name → e = .reused name (moduleValue returned)) ∧
    ∀ caller base from_ m, ImportOutcome m from_ ((importModule caller base from_).exec m) := by
  refine ⟨fun m ended acyclic => ?_, fun caller base from_ m => importing_outcome m from_ _⟩
  have evolves := (runIn_imports p c (Machine.initial w)).endsIn ended
  have once := Once.nothing.evolves evolves acyclic
  exact ⟨once, fun name returned later earlier spelled => once.later spelled⟩

namespace Loaded

/-- A module that catches a failed import and then imports another module, which returns nothing. -/
def world : World where
  files := ⟨[
    (["outer.lua"], .file (Bytes.ofString
      "pcall(__capabilities.import, 'gone')\nreturn __capabilities.import('inner')")),
    (["inner.lua"], .file (Bytes.ofString ""))]⟩

/-- A program that imports modules. -/
def program (names : List String) : Program where
  imports := names.map fun name => ⟨name, .module name none⟩
  steps := []
  naming := {}

/-- Whether a program completes after imports of which this came, the first one first. -/
def imports (names : List String) (events : List ImportEvent) : Bool :=
  (runIn (program names) ⟨{}, ""⟩ (Machine.initial world)).passes fun _ m =>
    m.modules.history = events.reverse

theorem of_imports {names : List String} {events : List ImportEvent} (ran : imports names events = true) :
    ∃ outcome m, runIn (program names) ⟨{}, ""⟩ (Machine.initial world) = .done outcome m ∧
      m.modules.history = events.reverse := by
  obtain ⟨outcome, m, done, history⟩ := Outcome.passes_iff.1 ran
  exact ⟨outcome, m, done, of_decide_eq_true history⟩

theorem modules_load_once_nested : ∃ outcome m,
    runIn (program ["outer", "inner"]) ⟨{}, ""⟩ (Machine.initial world) = .done outcome m ∧
    m.modules.history = [.reused "inner" (.bool true), .loaded "outer" (.bool true),
      .loaded "inner" .nil, .started "inner" "inner.lua", .missed "gone",
      .started "outer" "outer.lua"] ∧
    Acyclic m.modules.history ∧ m.modules.Once ∧
    (importModule host "" "outer").exec m =
      .done (.bool true) (m.tell (.reused "outer" (.bool true))) := by
  have ran : imports ["outer", "inner"] [.started "outer" "outer.lua", .missed "gone",
      .started "inner" "inner.lua", .loaded "inner" .nil, .loaded "outer" (.bool true),
      .reused "inner" (.bool true)] = true := by decide +kernel
  obtain ⟨outcome, m, done, history⟩ := of_imports ran
  have acyclic : Acyclic m.modules.history := by
    rw [history]
    decide
  obtain ⟨all, each⟩ := modules_load_once (program ["outer", "inner"]) ⟨{}, ""⟩ world
  have once := (all m (by rw [done]; rfl) acyclic).1
  refine ⟨outcome, m, done, history, acyclic, once, (each host "" "outer" m).again _ ?_⟩
  exact (once.kept _ _).2 ⟨.bool true, by rw [history]; decide, rfl⟩

/-- Two spellings of a name are two modules of the same file. -/
theorem runs_twice : ¬ ∀ (p : Program) (c : Capabilities) (w : World) (m : Machine),
    (runIn p c (Machine.initial w)).EndsIn m → Acyclic m.modules.history →
      ∀ name path returned later earlier,
        m.modules.history = later ++ .loaded name returned :: earlier →
        .started name path ∈ earlier → ∀ other, .started other path ∉ later := by
  intro once
  have ran : imports ["inner", "inner.lua"] [.started "inner" "inner.lua", .loaded "inner" .nil,
      .started "inner.lua" "inner.lua", .loaded "inner.lua" .nil] = true := by decide +kernel
  obtain ⟨outcome, m, done, history⟩ := of_imports ran
  have acyclic : Acyclic m.modules.history := by
    rw [history]
    decide
  exact once (program ["inner", "inner.lua"]) ⟨{}, ""⟩ world m (by rw [done]; rfl) acyclic "inner"
    "inner.lua" .nil [.loaded "inner.lua" .nil, .started "inner.lua" "inner.lua"]
    [.started "inner" "inner.lua"] history (.head _) "inner.lua" (.tail _ (.head _))

end Loaded

end Execution

end Tasklang
