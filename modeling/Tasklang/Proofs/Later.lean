import Tasklang.Proofs.Calls
import Tasklang.Proofs.Deferred
import Tasklang.Proofs.Knowledge

/-! # What later tasks see

What a task binds at the top level of a program is seen by the tasks after it, unless they bind the
name again in a scope of their own. That is so when their placeholders are evaluated as the program
runs; a placeholder is folded before that when its name is known while compiling or a global.
-/

namespace Tasklang.Execution

open Lua Lua.Run Compile

/-- Whether a task binds a name at the top level of its program. -/
def BindsAtTop (part : Part) (name : String) : Prop :=
  (∃ i, part.target.fragment.imports = [i] ∧ i.binding = name) ∨
    ∃ value, .declare name value ∈ part.steps

section Compiled

variable {options : CompileOptions} {registry : Registry} {tasks : List Task} {m m' : Machine}
  {compiled : CompiledProgram} {parts : List Part} {p : Program} {c : Capabilities} {w : World}
  {name : String}

/-- Where a run is at a task, the program has bound what the tasks before it bind at the top. -/
theorem Progress.bound_before {keeps : Machine → Machine → Prop}
    (r : Progress keeps p (parts.map (·.steps)) c w)
    (imports : p.imports = parts.flatMap (·.target.fragment.imports)) {f : Station × Activity}
    {rest : List (Station × Activity)} (here : r.config.todo = f :: rest) {k : Nat}
    (before : k < f.1.task) {part : Part} (there : parts[k]? = some part)
    (binds : BindsAtTop part name) : r.log.Binds r.root name := by
  rcases binds with ⟨i, own, rfl⟩ | ⟨value, declared⟩
  · obtain ⟨after, order⟩ := imports_at there own
    obtain ⟨v, later, bound⟩ := r.bound_at (imports.trans order)
    obtain ⟨earlier, order, -⟩ := bound.order
    refine ⟨⟨r.root, i.binding, v⟩, ?_, rfl, rfl⟩
    simp [Progress.log, order]
  · have mapped : (parts.map (·.steps))[k]? = some part.steps := by
      rw [List.getElem?_map, there]
      rfl
    exact r.declared_before here before mapped declared

/-- A name that no scope within that of the program binds stands for what is bound there. -/
theorem Log.meaning?_outermost {log : Log} {root : Scope} {scopes : List Scope} {v : Value}
    (last : scopes.getLast? = some root) (free : ∀ s ∈ scopes, s ≠ root → log.latest? s name = none)
    (bound : log.latest? root name = some v) : log.meaning? name scopes = some v := by
  induction scopes with
  | nil => cases last
  | cons s ss ih =>
    by_cases same : s = root
    · rw [Log.meaning?, same, bound]
    · rw [Log.meaning?, free s (.head _) same]
      cases ss with
      | nil =>
        cases last
        exact absurd rfl same
      | cons t ss => exact ih last fun s hs => free s (.tail _ hs)

/-- What a later task sees of a name that an earlier one binds at the top level of the program. When
the program runs, code and placeholders see the value that is bound there, unless a scope within
binds the name again. While compiling, a placeholder is folded when its name is known or a global,
and only else is it deferred until then. Code that is run on the way is to leave the name alone. -/
theorem later_sees (done : compile options registry tasks m = .done compiled m') :
    (∃ parts, Parts options registry 0 (startNames options.naming) tasks m parts m' ∧
      compiled.program.imports = parts.flatMap (·.target.fragment.imports) ∧
      compiled.program.steps = (parts.map (·.steps)).flatten ∧
      ∀ {name : String} {c : Capabilities} {w : World}
        (r : Progress (Machine.Spares name) compiled.program (parts.map (·.steps)) c w)
        {f rest}, r.config.todo = f :: rest →
        ∀ {k part}, k < f.1.task → parts[k]? = some part → BindsAtTop part name →
        (∀ s ∈ f.1.scopes, s ≠ r.root → r.log.latest? s name = none) →
        ∀ {m₁ : Machine}, r.config.machine.Grows m₁ →
        Machine.Spares name r.config.machine m₁ →
        ∃ v, r.log.latest? r.root name = some v ∧ m₁.Sees f.1.scope name (some v)) ∧
    ∀ {f : Folder} {source name : String} {m₁ m₂ : Machine} {found : Option Json},
      IsName source name → m₁.Ready → f.tryEval source m₁ = .done found m₂ →
      (found = none ↔ name ∉ f.bindings.names ∧ m₁.global name = .nil) := by
  obtain ⟨parts, is_, naming, imports, steps⟩ := compile_done done
  refine ⟨⟨parts, is_, imports, steps, ?_⟩, tryEval_name⟩
  intro name c w r f rest here k part before there binds free m₁ grows kept
  have at_ : f ∈ r.config.todo := by
    rw [here]
    exact .head _
  obtain ⟨v, latest⟩ := (r.bound_before imports here before there binds).latest
  have meaning := Log.meaning?_outermost (r.originates f at_).1 free latest
  have stands : r.log.stands? m₁ name f.1.scopes = some v := Log.stands?_bound meaning
  have sees := r.sees is_ at_ grows kept fun unbound => by
    rw [stands] at unbound
    cases unbound
  rw [stands] at sees
  exact ⟨v, latest, sees⟩

end Compiled

/-! ## A variable with the name of a global

A task declares a name that is that of a global too, and the next one reads it. The global is no
value that can be folded, so that it becomes null.
-/

namespace Shadowing

/-- The tasks. -/
def tasks : List Task :=
  [{ use := some "setVars", args := [.obj [("type", .str "service")]] },
    { use := some "print", args := [.str "type is ${type}"] }]

section Runs

set_option maxRecDepth 100000

/-- The placeholder was folded to the global. -/
theorem global_wins : (compile {} {} tasks (Machine.initial {})).passes (fun compiled _ =>
    (compiled.program.run ⟨{}, ""⟩ {}).map (·.world.out) =
      some (Bytes.ofString "type is null\n")) = true := by
  decide +kernel

/-- Two names that can be evaluated while compiling. -/
theorem answers : ∀ name ∈ ["type", "port"],
    ((⟨Mixed.options.publicContext.toBindings, none⟩ : Folder).tryEval name
      (Machine.initial {})).passes (fun _ _ => true) = true := by
  decide +kernel

theorem is_type : IsName "type" "type" := ⟨by decide, by decide, by cbv⟩

theorem is_port : IsName "port" "port" := ⟨by decide, by decide, by cbv⟩

theorem ready : (Machine.initial {}).Ready := ⟨rfl, by decide, by decide⟩

/-- Two names, of which one is a global. -/
theorem globals : (Machine.initial {}).global "type" ≠ .nil ∧
    (Machine.initial {}).global "port" = .nil := by
  decide +kernel

end Runs

/-- A name that is no global is deferred, and stands for what the task before bound. -/
theorem sees_port : ∃ compiled m,
    compile Mixed.options {} Mixed.tasks (Machine.initial {}) = .done compiled m ∧
    (∃ parts, ∃ r : Progress (Machine.Spares "port") compiled.program parts Mixed.capabilities {},
      ∃ f rest, r.config.todo = f :: rest ∧ f.1.task = 1 ∧
        r.config.machine.Sees f.1.scope "port" (some (.int 80))) ∧
    (∃ m', (⟨Mixed.options.publicContext.toBindings, none⟩ : Folder).tryEval "port"
      (Machine.initial {}) = .done none m') ∧
    ∃ v m', (⟨Mixed.options.publicContext.toBindings, none⟩ : Folder).tryEval "type"
      (Machine.initial {}) = .done (some v) m' := by
  obtain ⟨compiled, m, done, -⟩ := Outcome.passes_iff.1 Mixed.compiles
  obtain ⟨⟨parts, is_, -, -, sees⟩, folds_⟩ := later_sees done
  refine ⟨compiled, m, done, ?_, ?_, ?_⟩
  · obtain ⟨r, f, rest, here, place, log, -⟩ := Mixed.comes_to_second done is_ "port"
    obtain ⟨target, others, rfl, -⟩ := Mixed.first_part is_
    obtain ⟨v, latest, seen⟩ := sees r here (k := 0) (by rw [place]; exact Nat.one_pos) rfl
      (.inr ⟨_, .head _⟩) (by simp [place, Station.scopes]) (.refl _) fun _ _ => ⟨rfl, id⟩
    rw [log, Log.latest?_cons_same _ rfl rfl] at latest
    cases latest
    exact ⟨_, r, f, rest, here, by rw [place], seen⟩
  · obtain ⟨found, m', done', -⟩ := Outcome.passes_iff.1 (answers "port" (by decide))
    have none_ := (folds_ is_port ready done').2 ⟨by decide, globals.2⟩
    exact ⟨m', none_ ▸ done'⟩
  · obtain ⟨found, m', done', -⟩ := Outcome.passes_iff.1 (answers "type" (by decide))
    have folded := (folds_ is_type ready done').not.2 fun known => globals.1 known.2
    cases found with
    | none => exact absurd rfl folded
    | some v => exact ⟨v, m', done'⟩

end Shadowing

end Tasklang.Execution
