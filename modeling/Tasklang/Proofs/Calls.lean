import Tasklang.Proofs.Parts

/-! # What a call invokes

The target of a call is looked up by name when the call is made. The import of its task bound that
name in the scope of the program, before all steps; whatever bound the name again since then, be it
the import of another task, a declaration or a loop, takes the place of the import.
-/

namespace Tasklang.Execution

open Lua Lua.Run Compile

/-- The segments of a dotted name after the first. -/
def innerPath (target : String) : List String := (Text.split '.' target).tail

theorem split_eq (target : String) :
    Text.split '.' target = rootSegment target :: innerPath target := by
  rw [rootSegment, innerPath]
  cases pieces : Text.split '.' target with
  | nil =>
    exfalso
    rw [Text.split, List.map_eq_nil_iff] at pieces
    cases chars : target.toList with
    | nil => simp [chars, Text.splitChars] at pieces
    | cons c cs =>
      simp only [chars, Text.splitChars] at pieces
      split at pieces <;> cases pieces
  | cons root rest => rfl

/-- What a call invokes is found from the value of the first segment of its target. -/
theorem callable_of_get {scope : Scope} {target : String} {v : Value} {m : Machine}
    (h : scope.get (rootSegment target) m = .done v m) :
    callable scope target m = functionAt target (innerPath target) v m := by
  simp only [callable, split_eq, bind_apply, attempt_apply, h, Outcome.andThen_done]

section Rebinding

/-- Scopes that enclose each other, the outermost of which is the scope of the program. -/
inductive Rooted (root : Scope) : List Scope → Prop where
  | outermost : Rooted root [root]
  | inside {s ss} : s ≠ root → Rooted root ss → Rooted root (s :: ss)

theorem rooted_of_chain {m : Machine} {root s : Scope} {ss : List Scope} (chain : m.Chain s ss)
    (last : ss.getLast? = some root) : Rooted root ss := by
  induction chain with
  | outermost _ _ =>
    cases last
    exact .outermost
  | @inside s o ss _ next chain ih =>
    have last' : ss.getLast? = some root := by cases chain <;> exact last
    refine .inside ?_ (ih last')
    rintro rfl
    rw [chain.outer_of_last last'] at next
    cases next

variable {root : Scope} {ss : List Scope} {name : String} {v : Value} {later earlier : Log}

/-- A name that was bound in the scope of the program stands for that value, unless it was bound
again later in one of the scopes at hand. -/
theorem meaning?_rebound (rooted : Rooted root ss) (older : ∀ e ∈ earlier, e.scope = root) :
    Log.meaning? (later ++ ⟨root, name, v⟩ :: earlier) name ss =
      some ((Log.meaning? later name ss).getD v) := by
  induction rooted with
  | outermost =>
    simp only [Log.meaning?, Log.latest?, List.find?_append]
    cases later.find? fun e => e.scope = root ∧ e.name = name with
    | some e => rfl
    | none => simp
  | @inside s ss other rooted ih =>
    have before : Log.latest? (⟨root, name, v⟩ :: earlier) s name = none := by
      refine Log.latest?_none fun e he hs => absurd hs ?_
      rcases List.mem_cons.1 he with rfl | he
      · exact fun same => other same.symm
      · rw [older e he]
        exact fun same => other same.symm
    have here : Log.latest? (later ++ ⟨root, name, v⟩ :: earlier) s name =
        Log.latest? later s name := by
      rw [Log.latest?] at before
      simp only [Log.latest?, List.find?_append]
      cases later.find? fun e => e.scope = s ∧ e.name = name with
      | some e => rfl
      | none => simpa using before
    rw [Log.meaning?, Log.meaning?, here]
    cases Log.latest? later s name with
    | some w => rfl
    | none => exact ih

end Rebinding

namespace Progress

variable {keeps : Machine → Machine → Prop} {p : Program} {parts : List (List Step)}
  {c : Capabilities} {w : World}

/-- The import at a position was bound to a value; `later` is what the imports after it bound. -/
structure Bound (r : Progress keeps p parts c w) (n : Nat) (i : Import) (v : Value) (later : Log) :
    Prop where
  had : ∃ m m', importValue r.session i.source m = .done v m'
  order : ∃ earlier, r.imported = later ++ ⟨r.root, i.binding, v⟩ :: earlier ∧ earlier.length = n

theorem imported_root {s : Session} {root : Scope} {m m' : Machine} {imports : List Import}
    {log : Log} (h : Imported s keeps root m imports log m') : ∀ e ∈ log, e.scope = root := by
  induction h with
  | none => nofun
  | next _ _ _ ih =>
    intro e he
    rcases List.mem_append.1 he with he | he
    · exact ih e he
    · cases List.mem_singleton.1 he
      rfl

/-- A run that came to its steps has bound every import. -/
theorem bound_at (r : Progress keeps p parts c w) {before after : List Import} {i : Import}
    (there : p.imports = before ++ i :: after) :
    ∃ v later, r.Bound before.length i v later := by
  have imports := r.imports
  rw [there] at imports
  obtain ⟨early, late, mid, log, length, -, rest⟩ := imports.split
  cases rest with
  | @next _ _ _ v m₁ later _ had kept rest =>
    refine ⟨v, later, ⟨mid, m₁, had⟩, early, ?_, length⟩
    rw [log, List.append_assoc]
    rfl

/-- The name of an import stands for what was imported, unless it was bound again. -/
theorem meaning?_import {r : Progress keeps p parts c w} {n : Nat} {i : Import} {v : Value}
    {later : Log} (bound : r.Bound n i v later) {ss : List Scope} (rooted : Rooted r.root ss) :
    r.log.meaning? i.binding ss =
      some ((Log.meaning? (r.events ++ later) i.binding ss).getD v) := by
  obtain ⟨earlier, order, -⟩ := bound.order
  have older : ∀ e ∈ earlier ++ startLog p.naming r.installed r.root, e.scope = r.root := by
    intro e he
    rcases List.mem_append.1 he with he | he
    · refine imported_root r.imports e ?_
      rw [order]
      exact List.mem_append_right _ (.tail _ he)
    · simp only [startLog, List.mem_cons, List.not_mem_nil, or_false] at he
      rcases he with rfl | rfl | rfl <;> rfl
  have whole : r.log = (r.events ++ later) ++
      ⟨r.root, i.binding, v⟩ :: (earlier ++ startLog p.naming r.installed r.root) := by
    simp [log, order]
  rw [whole]
  exact meaning?_rebound rooted older

end Progress

section Compiled

variable {options : CompileOptions} {registry : Registry} {tasks : List Task} {m m' : Machine}
  {compiled : CompiledProgram}

/-- The import of a task stands in the program after those of the tasks before it. -/
theorem imports_at {parts : List Part} {k : Nat} {part : Part} (there : parts[k]? = some part)
    {i : Import} (own : part.target.fragment.imports = [i]) :
    ∃ after, parts.flatMap (·.target.fragment.imports) =
      (parts.take k).flatMap (·.target.fragment.imports) ++ i :: after := by
  obtain ⟨hk, rfl⟩ := List.getElem?_eq_some_iff.1 there
  refine ⟨(parts.drop (k + 1)).flatMap (·.target.fragment.imports), ?_⟩
  conv_lhs => rw [← List.take_append_drop k parts, List.drop_eq_getElem_cons hk]
  rw [List.flatMap_append, List.flatMap_cons, own]
  rfl

/-- What a call of a task invokes, wherever a run of a compiled program comes to it. The task chose
its target when it was classified. The call finds the function from the value that the import of
the task bound, except where something bound the first segment of the target again since then in
one of the scopes at hand; where the task has no import, from what the run bound under that name,
and else from the global. Code that is run on the way is to leave the name alone. -/
theorem call_invokes (done : compile options registry tasks m = .done compiled m') :
    ∃ parts, Parts options registry 0 (startNames options.naming) tasks m parts m' ∧
      compiled.program.imports = parts.flatMap (·.target.fragment.imports) ∧
      compiled.program.steps = (parts.map (·.steps)).flatten ∧
      ∀ {name : String} {c : Capabilities} {w : World}
        (r : Progress (Machine.Spares name) compiled.program (parts.map (·.steps)) c w)
        {p past target args next todo},
        r.config.todo = (p, .steps past (.call target args :: next)) :: todo →
        rootSegment target = name →
        ∃ part task known, parts[p.task]? = some part ∧ tasks[p.task]? = some task ∧
          target = part.target.name ∧
          Chosen (contextOf options registry p.task known) task part.target ∧
          (∀ i, part.target.fragment.imports = [i] → i.binding = name →
            ∃ v later,
              r.Bound ((parts.take p.task).flatMap (·.target.fragment.imports)).length i v later ∧
              callable p.scope target r.config.machine =
                functionAt target (innerPath target)
                  ((Log.meaning? (r.events ++ later) name p.scopes).getD v) r.config.machine) ∧
          (part.target.fragment.imports = [] →
            (r.log.meaning? name p.scopes = none → r.config.machine.global name ≠ .nil) →
            callable p.scope target r.config.machine =
              functionAt target (innerPath target)
                ((r.log.meaning? name p.scopes).getD (r.config.machine.global name))
                r.config.machine) := by
  obtain ⟨parts, is_, naming, imports, steps⟩ := compile_done done
  refine ⟨parts, is_, imports, steps, fun {name c w} r {p past target args next todo} here root => ?_⟩
  have sound : Sound name 2 r.log r.config := is_.sound r (by decide) (by decide)
  have at_ : (p, .steps past (.call target args :: next)) ∈ r.config.todo := by
    rw [here]
    exact .head _
  obtain ⟨last, body, there, within⟩ := r.originates _ at_
  rw [List.getElem?_map, Option.map_eq_some_iff] at there
  obtain ⟨part, there, rfl⟩ := there
  obtain ⟨task, known, _, m₁, m₂, m₃, task_at, chosen, made⟩ := is_.at_ there
  rw [Nat.zero_add] at chosen
  obtain ⟨kind, rfl⟩ := (taskSteps_done made).call within (mem_body past next _)
  have rooted := rooted_of_chain (sound.seated _ at_).1 last
  have same (m : Machine) : m.Grows m ∧ Machine.Spares name m m :=
    ⟨.refl m, fun _ _ => ⟨rfl, id⟩⟩
  have bound {v : Value} (h : r.log.meaning? name p.scopes = some v) :
      callable p.scope part.target.name r.config.machine =
        functionAt part.target.name (innerPath part.target.name) v r.config.machine := by
    refine callable_of_get ?_
    have found := sound.get_bound (by decide) at_ (same r.config.machine).1 (same _).2 h
    rwa [root]
  refine ⟨part, task, known, there, task_at, rfl, (classify_done chosen).2 kind, ?_, ?_⟩
  · intro i own binding
    obtain ⟨after, order⟩ := imports_at there own
    obtain ⟨v, later, first⟩ := r.bound_at (imports.trans order)
    refine ⟨v, later, first, bound ?_⟩
    have meaning := r.meaning?_import first rooted
    rwa [binding] at meaning
  · intro _ global
    cases meaning : r.log.meaning? name p.scopes with
    | some v => exact bound meaning
    | none =>
      rw [Option.getD_none]
      refine callable_of_get ?_
      have found := sound.get_global (by decide) at_ (same r.config.machine).1 (same _).2 meaning
        (global meaning)
      rwa [root]

end Compiled

/-! ## Two functions of one name

Two tasks use a function `f`, each from a module of its own.
-/

namespace Homonyms

/-- The tasks. -/
def tasks : List Task :=
  [{ from_ := some "a.lua", use := some "f" }, { from_ := some "b.lua", use := some "f" }]

/-- The modules, whose functions print where they are from. -/
def world : World where
  files := ⟨[(["a.lua"], .file (Bytes.ofString "return \x7b f = function() print('a') end \x7d")),
    (["b.lua"], .file (Bytes.ofString "return \x7b f = function() print('b') end \x7d"))]⟩

/-- What the program is run with. -/
def capabilities : Capabilities := ⟨{}, ""⟩

/-- The import of the first task. -/
def first : Import := ⟨"f", .module "a.lua" (some "f")⟩

/-- The import of the second task. -/
def second : Import := ⟨"f", .module "b.lua" (some "f")⟩

section Runs

set_option maxRecDepth 100000

/-- Both calls invoke the function of the second task. -/
theorem second_wins : (compile {} {} tasks (Machine.initial {})).passes (fun compiled _ =>
    (compiled.program.run capabilities world).map (·.world.out) =
      some (Bytes.ofString "b\nb\n")) = true := by
  decide +kernel

theorem compiles : (compile {} {} tasks (Machine.initial {})).passes (fun compiled _ =>
    compiled.program.naming = {} ∧ compiled.program.imports = [first, second]) = true := by
  decide +kernel

theorem classifies : (classify (contextOf {} {} 0 (startNames {})) { from_ := some "a.lua", use := some "f" }
    (Machine.initial {})).passes (fun target _ =>
      target.kind = .function ∧ target.name = "f" ∧ target.fragment.imports = [first]) = true := by
  decide +kernel

/-- Whether the scope of a program with no other scopes is as it was. -/
def keepsRoot (name : String) (m m' : Machine) : Bool :=
  m.scopes.size = 1 ∧ m'.held ⟨0⟩ name = m.held ⟨0⟩ name ∧
    (m'.tables.getD (m'.seat ⟨0⟩) {}).metatable = some (m'.seat ⟨0⟩ - 1) ∧
    (m'.tables.getD (m'.seat ⟨0⟩ - 1) {}).field "__index" = .function (.scopeLookup 0)

theorem spares_of_keepsRoot {name : String} {m m' : Machine} (h : keepsRoot name m m' = true) :
    Machine.Spares name m m' := by
  simp only [keepsRoot, decide_eq_true_eq] at h
  obtain ⟨one, held, wired⟩ := h
  rintro ⟨id⟩ hs
  obtain rfl : id = 0 := by
    simp only at hs
    omega
  exact ⟨held, fun _ => wired⟩

theorem begins : (install {} capabilities (Machine.initial world)).passes (fun s m =>
    (startScope {} m).passes fun root m => root = ⟨0⟩ ∧
      (importValue s first.source m).passes fun ours m₁ => keepsRoot "f" m m₁ ∧
        (importValue s second.source (m₁.bound ⟨0⟩ "f" ours)).passes fun theirs m₂ =>
          keepsRoot "f" (m₁.bound ⟨0⟩ "f" ours) m₂ ∧ ours ≠ theirs) = true := by
  decide +kernel

end Runs

/-- The first task becomes one call of the function that it imports. -/
theorem first_part {m : Machine} {parts : List Part}
    (is_ : Parts {} {} 0 (startNames {}) tasks (Machine.initial {}) parts m) :
    ∃ part rest, parts = part :: rest ∧ part.target.fragment.imports = [first] ∧
      part.steps = [.call "f" []] := by
  cases is_ with
  | @next _ _ _ _ _ target m₁ steps _ rest _ chosen made _ =>
    obtain ⟨_, _, chosen', facts⟩ := Outcome.passes_iff.1 classifies
    cases chosen.symm.trans chosen'
    simp only [decide_eq_true_eq] at facts
    obtain ⟨kind, name, imports⟩ := facts
    refine ⟨⟨target, steps⟩, rest, rfl, imports, ?_⟩
    simp only [taskSteps, invocationSteps, kind, Context.reconstructArgs, Folder.reconstructAll,
      bind_done, pure_done, name] at made
    obtain ⟨_, _, ⟨rfl, rfl⟩, rfl, rfl⟩ := made
    rfl

/-- The run comes to the call of the first task, which invokes the function of the second. -/
theorem call_invokes_second : ∃ compiled m,
    compile {} {} tasks (Machine.initial {}) = .done compiled m ∧
    ∃ parts, ∃ r : Progress (Machine.Spares "f") compiled.program parts capabilities world,
      ∃ p past next todo, r.config.todo = (p, .steps past (.call "f" [] :: next)) :: todo ∧
        p.task = 0 ∧ ∃ ours theirs later, r.Bound 0 first ours later ∧ ours ≠ theirs ∧
          callable p.scope "f" r.config.machine = functionAt "f" [] theirs r.config.machine := by
  obtain ⟨compiled, m, done, program⟩ := Outcome.passes_iff.1 compiles
  obtain ⟨s, m₁, installs, begun⟩ := Outcome.passes_iff.1 begins
  obtain ⟨root, m₂, starts, begun⟩ := Outcome.passes_iff.1 begun
  simp only [Bool.decide_and, Bool.and_eq_true, decide_eq_true_eq] at program begun
  obtain ⟨naming, imports⟩ := program
  obtain ⟨rfl, begun⟩ := begun
  obtain ⟨ours, m₃, first_had, begun⟩ := Outcome.passes_iff.1 begun
  simp only [Bool.and_eq_true, decide_eq_true_eq] at begun
  obtain ⟨first_keeps, begun⟩ := begun
  obtain ⟨theirs, m₄, second_had, begun⟩ := Outcome.passes_iff.1 begun
  simp only [Bool.and_eq_true, decide_eq_true_eq] at begun
  obtain ⟨second_keeps, apart⟩ := begun
  obtain ⟨parts, is_, -, -, invokes⟩ := call_invokes done
  obtain ⟨part, rest, rfl, own, steps⟩ := first_part is_
  have imported : Imported s (Machine.Spares "f") ⟨0⟩ m₂ compiled.program.imports
      [⟨⟨0⟩, "f", theirs⟩, ⟨⟨0⟩, "f", ours⟩] (m₄.bound ⟨0⟩ "f" theirs) := by
    rw [imports]
    exact .next first_had (spares_of_keepsRoot first_keeps)
      (@Imported.next _ _ _ _ _ _ _ _ [] _ second_had (spares_of_keepsRoot second_keeps) .none)
  let r : Progress (Machine.Spares "f") compiled.program ((part :: rest).map (·.steps))
      capabilities world :=
    { session := s, installed := m₁, root := ⟨0⟩, ready := m₂
      imported := [⟨⟨0⟩, "f", theirs⟩, ⟨⟨0⟩, "f", ours⟩], begun := m₄.bound ⟨0⟩ "f" theirs
      events := [], config := ⟨bodyFrom ⟨0⟩ 0 ((part :: rest).map (·.steps)), _⟩
      installs := naming ▸ installs, starts := naming ▸ starts, imports := imported, path := .start }
  have here : r.config.todo = (⟨0, ⟨0⟩, []⟩, .steps [] [.call "f" []]) ::
      bodyFrom ⟨0⟩ 1 (rest.map (·.steps)) := by
    show bodyFrom ⟨0⟩ 0 ((part :: rest).map (·.steps)) = _
    rw [List.map_cons, steps]
    rfl
  obtain ⟨part', task, known, there, -, -, -, by_import, -⟩ := invokes r here rfl
  cases there
  obtain ⟨v, later, bound, found⟩ := by_import first own rfl
  obtain ⟨earlier, order, length⟩ := bound.order
  obtain rfl := List.eq_nil_of_length_eq_zero length
  obtain ⟨rfl, rfl⟩ : later = [⟨⟨0⟩, "f", theirs⟩] ∧ v = ours := by
    have order : [(⟨⟨0⟩, "f", theirs⟩ : Event), ⟨⟨0⟩, "f", ours⟩] = later ++ [⟨⟨0⟩, "f", v⟩] := order
    obtain ⟨same, last⟩ := List.append_inj' (show [_] ++ [_] = later ++ [_] from order) rfl
    cases last
    exact ⟨same.symm, rfl⟩
  exact ⟨compiled, m, done, _, r, _, _, _, _, here, rfl, v, theirs, _, bound, apart, found⟩

end Homonyms

end Tasklang.Execution
