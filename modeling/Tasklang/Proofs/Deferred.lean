import Tasklang.Proofs.Earlier
import Tasklang.Proofs.Reading

/-! # What deferred placeholders see

A placeholder that is deferred is evaluated where the run is. It sees what the run bound there and
the globals, but not the values that were known while compiling: of these, only the element of an
unrolled loop and its position are bound again.
-/

namespace Tasklang.Execution

open Lua Lua.Run Compile

/-- The first two of some steps are done when two are. -/
theorem mem_of_done {past next inner : List Step} {a b : Step}
    (whole : past.reverse ++ next = a :: b :: inner) (two : 2 ≤ past.length) :
    a ∈ past ∧ b ∈ past := by
  rw [← List.length_reverse] at two
  rw [← List.mem_reverse, ← @List.mem_reverse _ b past]
  generalize past.reverse = done at whole two
  cases done with
  | nil => simp at two
  | cons first done =>
    cases done with
    | nil => simp at two
    | cons second done =>
      cases whole
      simp

section Compiled

variable {options : CompileOptions} {registry : Registry} {tasks : List Task} {m m' : Machine}
  {compiled : CompiledProgram} {known : List String} {parts : List Part} {p : Program}
  {c : Capabilities} {w : World} {name : String}

/-- A name that the program binds nowhere stands for a global. -/
theorem Progress.stands?_free {keeps : Machine → Machine → Prop} {steps : List (List Step)}
    (r : Progress keeps p steps c w) (free : ¬Binds p steps name) (m : Machine)
    (scopes : List Scope) : r.log.stands? m name scopes = m.meaning? name [] := by
  have unbound : ∀ e ∈ r.log, e.name ≠ name := by
    rintro e he rfl
    exact free (r.binds e he)
  rw [Log.stands?, Log.meaning?_none unbound]
  rfl

/-- A name that was declared in the scope at hand stands for a value. -/
theorem Progress.stands?_declared {keeps : Machine → Machine → Prop} {steps : List (List Step)}
    (r : Progress keeps p steps c w) {q : Station} {past next : List Step}
    (there : (q, .steps past next) ∈ r.config.todo) {value : Literal}
    (declared : .declare name value ∈ past) (m : Machine) :
    ∃ v, r.log.stands? m name q.scopes = some v := by
  obtain ⟨v, latest⟩ := (r.declared_within there declared).latest
  refine ⟨v, Log.stands?_bound ?_⟩
  rw [Station.scopes, Log.meaning?, latest]

/-- What a deferred placeholder sees of a name, wherever a run of a compiled program is: what the
run bound last in the scopes at hand, or else a global, and nothing else. In the block of an element
of an unrolled loop, the element and its position are bound before the task is invoked. A name that
the program binds nowhere, as those of the values that are known while compiling, is unbound unless
it is a global. Code that is run on the way is to leave the name alone. -/
theorem deferred_sees (done : compile options registry tasks m = .done compiled m') :
    ∃ parts, Parts options registry 0 (startNames options.naming) tasks m parts m' ∧
      compiled.program.imports = parts.flatMap (·.target.fragment.imports) ∧
      compiled.program.steps = (parts.map (·.steps)).flatten ∧
      ∀ {name : String} {c : Capabilities} {w : World}
        (r : Progress (Machine.Spares name) compiled.program (parts.map (·.steps)) c w)
        {f : Station × Activity}, f ∈ r.config.todo → ∀ {m₁ : Machine},
        r.config.machine.Grows m₁ → Machine.Spares name r.config.machine m₁ →
        (r.log.stands? m₁ name f.1.scopes = none → m₁.PlainGlobals) →
        m₁.Sees f.1.scope name (r.log.stands? m₁ name f.1.scopes) ∧
        (¬Binds compiled.program (parts.map (·.steps)) name → m₁.global name = .nil →
          m₁.Sees f.1.scope name none) ∧
        (∀ part past next, parts[f.1.task]? = some part → f.2 = .steps past next →
          ElementBlock options.naming part.target (.block (past.reverse ++ next)) →
          2 ≤ past.length → name ∈ [options.naming.item, options.naming.index] →
          ∃ v, m₁.Sees f.1.scope name (some v)) := by
  obtain ⟨parts, is_, naming, imports, steps⟩ := compile_done done
  refine ⟨parts, is_, imports, steps, fun {name c w} r {f} here {m₁} grows kept plain => ?_⟩
  have sees := r.sees is_ here grows kept plain
  refine ⟨sees, fun free nothing => ?_, fun part past next there now element two of => ?_⟩
  · have unbound : r.log.stands? m₁ name f.1.scopes = none := by
      rw [r.stands?_free free, Machine.meaning?, Machine.binding?, nothing]
    rwa [unbound] at sees
  · obtain ⟨q, activity⟩ := f
    cases now
    have declared : ∃ value, .declare name value ∈ past := by
      generalize whole : past.reverse ++ next = body at element
      cases element with
      | intro =>
        obtain ⟨first, second⟩ := mem_of_done whole two
        rcases List.mem_cons.1 of with rfl | of
        · exact ⟨_, first⟩
        · cases List.mem_singleton.1 of
          exact ⟨_, second⟩
    obtain ⟨value, declared⟩ := declared
    obtain ⟨v, stands⟩ := r.stands?_declared here declared m₁
    exact ⟨v, by rwa [stands] at sees⟩

end Compiled

/-! ## A known name next to one that is bound later

A task declares a name, and the next one reads it together with one that is known only while
compiling.
-/

namespace Mixed

/-- The tasks. -/
def tasks : List Task :=
  [{ use := some "setVars", args := [.obj [("port", .int 80)]] },
    { use := some "print", args := [.str "${build.env.HOST .. port}"] }]

/-- What is known while compiling. -/
def options : CompileOptions := { publicContext := { env := [("HOST", "db")] } }

/-- What the program is run with. -/
def capabilities : Capabilities := ⟨{}, ""⟩

section Runs

set_option maxRecDepth 100000

/-- The placeholder has a value when both names are bound, but the run finds one of them unbound. -/
theorem build_unbound :
    ((evaluate "build.env.HOST .. port" (("port", .int 80) :: options.publicContext.toBindings)
      (Machine.initial {})).passes fun v _ => v = .str "db80") = true ∧
    ((compile options {} tasks (Machine.initial {})).passes fun compiled _ =>
      match compiled.program.run capabilities {} with
      | some ⟨.error e, _⟩ => e = .evaluation (.unbound "build")
      | _ => false) = true := by
  decide +kernel

theorem compiles : (compile options {} tasks (Machine.initial {})).passes (fun compiled _ =>
    compiled.program.naming = {} ∧ compiled.program.imports = []) = true := by
  decide +kernel

theorem classifies : (classify (contextOf options {} 0 (startNames {}))
    { use := some "setVars", args := [.obj [("port", .int 80)]] } (Machine.initial {})).passes
      (fun target _ => target.kind = .declaration) = true := by
  decide +kernel

theorem begins : (install {} capabilities (Machine.initial {})).passes (fun _ m =>
    (startScope {} m).passes fun root m =>
      (m.bound root "port" (.int 80)).global "build" = .nil ∧
      ((m.bound root "port" (.int 80)).tables.getD globalsRef {}).metatable = none) = true := by
  decide +kernel

end Runs

/-- The first task becomes one declaration. -/
theorem first_part {m : Machine} {parts : List Part}
    (is_ : Parts options {} 0 (startNames {}) tasks (Machine.initial {}) parts m) :
    ∃ target rest, parts = ⟨target, [.declare "port" (.const (.int 80))]⟩ :: rest ∧ 0 < rest.length := by
  cases is_ with
  | @next _ _ _ _ _ target m₁ steps _ rest _ chosen made others =>
    obtain ⟨_, _, chosen', kind⟩ := Outcome.passes_iff.1 classifies
    cases chosen.symm.trans chosen'
    simp only [decide_eq_true_eq] at kind
    have valid : Lua.isIdentifier "port" = true := by decide
    simp only [taskSteps, invocationSteps, kind, declarations, valid, Folder.reconstruct] at made
    cases made
    cases others with
    | next => exact ⟨target, _, rfl, Nat.succ_pos _⟩

/-- The run comes to the second task when the first one has declared its name. Nothing that it does
meddles with any name. -/
theorem comes_to_second {compiled : CompiledProgram} {m m' : Machine} {parts : List Part}
    (done : compile options {} tasks (Machine.initial {}) = .done compiled m)
    (is_ : Parts options {} 0 (startNames {}) tasks (Machine.initial {}) parts m') (name : String) :
    ∃ (r : Progress (Machine.Spares name) compiled.program (parts.map (·.steps)) capabilities {})
      (f : Station × Activity) (rest : List (Station × Activity)),
      r.config.todo = f :: rest ∧ f.1 = ⟨1, r.root, []⟩ ∧
      r.log = ⟨r.root, "port", .int 80⟩ :: startLog {} r.installed r.root ∧
      r.config.machine.global "build" = .nil ∧ r.config.machine.PlainGlobals := by
  obtain ⟨_, _, done', program⟩ := Outcome.passes_iff.1 compiles
  cases done.symm.trans done'
  obtain ⟨s, m₁, installs, begun⟩ := Outcome.passes_iff.1 begins
  obtain ⟨root, m₂, starts, begun⟩ := Outcome.passes_iff.1 begun
  simp only [decide_eq_true_eq] at program begun
  obtain ⟨naming, imports⟩ := program
  obtain ⟨nothing, plain⟩ := begun
  obtain ⟨target, rest, rfl, more⟩ := first_part is_
  obtain ⟨second, others, rfl⟩ := List.exists_cons_of_length_pos more
  have imported : Imported s (Machine.Spares name) root m₂ compiled.program.imports [] m₂ := by
    rw [imports]
    exact .none
  have declared : Path s (Machine.Spares name)
      ⟨(⟨0, root, []⟩, .steps [] [.declare "port" (.const (.int 80))]) ::
        bodyFrom root 1 (second.steps :: others.map (·.steps)), m₂⟩
      ([] ++ ([⟨root, "port", .int 80⟩] ++ []))
      ⟨bodyFrom root 1 (second.steps :: others.map (·.steps)), m₂.bound root "port" (.int 80)⟩ :=
    (Path.start.move (.declare rfl fun _ _ => ⟨rfl, id⟩)).move .ended
  refine ⟨{
    session := s, installed := m₁, root := root, ready := m₂, imported := [], begun := m₂
    events := _, config := _
    installs := naming ▸ installs, starts := naming ▸ starts, imports := imported
    path := declared }, _, _, rfl, rfl, ?_, nothing, plain⟩
  exact congrArg (fun naming => _ :: startLog naming m₁ root) naming

/-- Where the second task is to be invoked, what is known while compiling is unbound. -/
theorem sees_no_build : ∃ compiled m,
    compile options {} tasks (Machine.initial {}) = .done compiled m ∧
    ∃ parts, ∃ r : Progress (Machine.Spares "build") compiled.program parts capabilities {},
      ∃ f rest, r.config.todo = f :: rest ∧ f.1.task = 1 ∧
        r.config.machine.Sees f.1.scope "build" none := by
  obtain ⟨compiled, m, done, -⟩ := Outcome.passes_iff.1 compiles
  obtain ⟨parts, is_, -, -, sees⟩ := deferred_sees done
  obtain ⟨r, f, rest, here, place, log, nothing, plain⟩ := comes_to_second done is_ "build"
  have free : r.log.stands? r.config.machine "build" f.1.scopes = none := by
    rw [Log.stands?, Log.meaning?_none (by simp [log, startLog]), nothing]
  have at_ : f ∈ r.config.todo := by
    rw [here]
    exact .head _
  have seen := (sees r at_ (.refl _) (fun _ _ => ⟨rfl, id⟩) fun _ => plain).1
  rw [free] at seen
  exact ⟨compiled, m, done, _, r, f, rest, here, by rw [place], seen⟩

end Mixed
end Tasklang.Execution
