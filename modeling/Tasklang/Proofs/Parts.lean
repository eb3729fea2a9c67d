import Tasklang.Compile.TaskList
import Tasklang.Proofs.Starting

/-! # Parts of a compiled program

Every task has a part in the program of its list: the target that it chose, with its import, and its
steps. The parts follow each other as the tasks do. What a task becomes has one of three shapes: its
invocation, a loop around it, or a block for every element of a sequence.
-/

namespace Tasklang

open Lua Lua.Run

/-- Whether a step has a body of other steps, as a loop or a block has. -/
inductive Step.Wraps : Step → List Step → Prop where
  | block {body} : Wraps (.block body) body
  | loop {source body} : Wraps (.loop source body) body

namespace Execution

/-- Steps that are run in one scope on behalf of others: these themselves, or the body of a loop or
of a block among them. -/
inductive Within : List Step → List Step → Prop where
  | here {ss} : Within ss ss
  | block {ss body inner} : Within ss inner → .block body ∈ inner → Within ss body
  | loop {ss source body inner} : Within ss inner → .loop source body ∈ inner → Within ss body

namespace Within

variable {step : Step} {steps body inner : List Step}

theorem trans (h : Within steps body) (h' : Within body inner) : Within steps inner := by
  induction h' with
  | here => exact h
  | block _ there ih => exact .block ih there
  | loop _ there ih => exact .loop ih there

theorem of_wraps (wraps : step.Wraps body) (there : step ∈ steps) : Within steps body := by
  cases wraps with
  | block => exact .block .here there
  | loop => exact .loop .here there

/-- Seen from the outside: what is run in one scope is all of the steps, or it is run for the body
of one of them. -/
theorem outside (h : Within steps body) :
    body = steps ∨ ∃ step ∈ steps, ∃ own, step.Wraps own ∧ Within own body := by
  induction h with
  | here => exact .inl rfl
  | block _ there ih =>
    rcases ih with rfl | ⟨step, mem, own, wraps, within⟩
    · exact .inr ⟨_, there, _, .block, .here⟩
    · exact .inr ⟨step, mem, own, wraps, within.block there⟩
  | loop _ there ih =>
    rcases ih with rfl | ⟨step, mem, own, wraps, within⟩
    · exact .inr ⟨_, there, _, .loop, .here⟩
    · exact .inr ⟨step, mem, own, wraps, within.loop there⟩

end Within

/-- All steps of an activity that are run in its scope. -/
def Activity.body : Activity → List Step
  | .steps past next => past.reverse ++ next
  | .rounds _ body _ => body

/-- All that is to be done is done on behalf of the steps of a task, within the scope of the
program. -/
def Originates (root : Scope) (parts : List (List Step)) (todo : List (Station × Activity)) :
    Prop :=
  ∀ f ∈ todo, f.1.scopes.getLast? = some root ∧
    ∃ part, parts[f.1.task]? = some part ∧ Within part f.2.body

section Origins

variable {s : Session} {keeps : Machine → Machine → Prop} {root : Scope}
  {parts : List (List Step)} {c c' : Config} {events : Log}

theorem body_advance (past next : List Step) (step : Step) :
    (Activity.steps (step :: past) next).body = (Activity.steps past (step :: next)).body := by
  simp [Activity.body]

theorem mem_body (past next : List Step) (step : Step) :
    step ∈ (Activity.steps past (step :: next)).body := by
  simp [Activity.body]

theorem Move.originates (moved : Move s keeps c events c') (h : Originates root parts c.todo) :
    Originates root parts c'.todo := by
  have advance {p : Station} {past next : List Step} {step : Step} {todo : List (Station × Activity)}
      (h : Originates root parts ((p, .steps past (step :: next)) :: todo)) :
      Originates root parts ((p, .steps (step :: past) next) :: todo) := by
    intro f hf
    rcases List.mem_cons.1 hf with rfl | hf
    · have := h _ (.head _)
      rwa [← body_advance] at this
    · exact h f (.tail _ hf)
  have after {f : Station × Activity} {todo : List (Station × Activity)}
      (h : Originates root parts (f :: todo)) : Originates root parts todo :=
    fun f hf => h f (.tail _ hf)
  have inner {p : Station} {s : Scope} (h : p.scopes.getLast? = some root) :
      (p.inside s).scopes.getLast? = some root := by
    simpa only [Station.inside, Station.scopes, List.getLast?_cons_cons] using h
  cases moved with
  | declare found kept => exact advance h
  | call found given ended kept => exact advance h
  | @loop p past next source body todo m m' r found kept =>
    intro f hf
    rcases List.mem_cons.1 hf with rfl | hf
    · obtain ⟨inside, part, at_, within⟩ := h _ (.head _)
      exact ⟨inside, part, at_, .loop within (mem_body past next _)⟩
    · exact advance h f hf
  | @round p r body n ns todo m v item =>
    intro f hf
    obtain ⟨inside, part, at_, within⟩ := h _ (.head _)
    rcases List.mem_cons.1 hf with rfl | hf
    · exact ⟨inner inside, part, at_, within⟩
    · rcases List.mem_cons.1 hf with rfl | hf
      · exact ⟨inside, part, at_, within⟩
      · exact h f (.tail _ hf)
  | @block p past next body todo m =>
    intro f hf
    rcases List.mem_cons.1 hf with rfl | hf
    · obtain ⟨inside, part, at_, within⟩ := h _ (.head _)
      exact ⟨inner inside, part, at_, .block within (mem_body past next _)⟩
    · exact advance h f hf
  | looped => exact after h
  | ended => exact after h

theorem Path.originates (path : Path s keeps c events c')
    (h : Originates root parts c.todo) : Originates root parts c'.todo := by
  induction path with
  | start => exact h
  | move _ moved ih => exact moved.originates ih

theorem bodyFrom_mem (root : Scope) (k : Nat) (parts : List (List Step)) :
    ∀ f ∈ bodyFrom root k parts, ∃ n part, parts[n]? = some part ∧
      f = (⟨k + n, root, []⟩, .steps [] part) := by
  induction parts generalizing k with
  | nil => nofun
  | cons part parts ih =>
    intro f hf
    rcases List.mem_cons.1 hf with rfl | hf
    · exact ⟨0, part, rfl, rfl⟩
    · obtain ⟨n, part, there, rfl⟩ := ih (k + 1) f hf
      exact ⟨n + 1, part, there, by rw [show k + 1 + n = k + (n + 1) by omega]⟩

theorem originates_start (root : Scope) (parts : List (List Step)) :
    Originates root parts (bodyFrom root 0 parts) := by
  intro f hf
  obtain ⟨n, part, there, rfl⟩ := bodyFrom_mem root 0 parts f hf
  refine ⟨rfl, part, ?_, .here⟩
  simpa using there

/-- What a run does anywhere comes from the steps of the task that it is at. -/
theorem Progress.originates {p : Program} {c : Capabilities} {w : World}
    (r : Progress keeps p parts c w) : Originates r.root parts r.config.todo :=
  r.path.originates (originates_start r.root parts)

end Origins

end Execution

namespace Compile

open Execution (stepDepth stepsDepth Within)

/-- What a task becomes. -/
structure Part where
  target : Target
  steps : List Step

/-- The fragment of a part. -/
def Part.fragment (options : CompileOptions) (part : Part) : Fragment :=
  part.target.fragment ++ .ofSteps part.steps options.naming (options.indent + 2)

/-- Tasks from a position on become parts, one after the other. -/
inductive Parts (options : CompileOptions) (registry : Registry) :
    Nat → List String → List Task → Machine → List Part → Machine → Prop where
  | none {k known m} : Parts options registry k known [] m [] m
  | next {k known task tasks m target m₁ steps m₂ parts m'} :
    classify (contextOf options registry k known) task m = .done target m₁ →
    taskSteps (contextOf options registry k (known ++ target.fragment.boundNames)) target task m₁ =
      .done steps m₂ →
    Parts options registry (k + 1)
      (known ++ ((⟨target, steps⟩ : Part).fragment options).boundNames) tasks m₂ parts m' →
    Parts options registry k known (task :: tasks) m (⟨target, steps⟩ :: parts) m'

variable {options : CompileOptions} {registry : Registry}

/-- The fragment of tasks is made of their parts. -/
theorem tasksFragment_done {k : Nat} {known : List String} {tasks : List Task} {m m' : Machine}
    {f : Fragment} (h : tasksFragment options registry k known tasks m = .done f m') :
    ∃ parts, Parts options registry k known tasks m parts m' ∧
      f.imports = parts.flatMap (·.target.fragment.imports) ∧
      f.steps = (parts.map fun part => part.target.fragment.steps ++ part.steps).flatten := by
  induction tasks generalizing k known m f with
  | nil =>
    cases h
    exact ⟨[], .none, rfl, rfl⟩
  | cons task tasks ih =>
    simp only [tasksFragment, taskFragment, taskBody, bind_done, pure_done] at h
    obtain ⟨_, m₂, ⟨target, m₁, chosen, _, _, ⟨steps, _, made, rfl, rfl⟩, rfl, rfl⟩,
      others, m₃, rest, rfl, rfl⟩ := h
    obtain ⟨parts, rest, imports, steps'⟩ := ih rest
    refine ⟨⟨target, steps⟩ :: parts, .next chosen made rest, ?_, ?_⟩
    · show (target.fragment.imports ++ []) ++ others.imports = _
      rw [imports, List.append_nil, List.flatMap_cons]
    · show (target.fragment.steps ++ steps) ++ others.steps = _
      rw [steps', List.map_cons, List.flatten_cons]

/-- The steps of an invocation of a target. -/
def Invocation (target : Target) (steps : List Step) : Prop :=
  ∀ step ∈ steps,
    match step with
    | .declare _ _ => target.kind = .declaration
    | .command program _ => target.kind = .command ∧ program = target.name
    | .call name _ => target.kind = .function ∧ name = target.name
    | _ => False

/-- The block of one element of a sequence: it binds the element and its position and invokes the
target. -/
inductive ElementBlock (naming : Naming) (target : Target) : Step → Prop where
  | intro {item index steps} : Invocation target steps →
    ElementBlock naming target
      (.block (.declare naming.item item :: .declare naming.index (.const (.int index)) :: steps))

/-- What a task with a target becomes. -/
inductive Shape (naming : Naming) (target : Target) : List Step → Prop where
  | once {steps} : Invocation target steps → Shape naming target steps
  | repeated {source body} : Invocation target body → Shape naming target [.loop source body]
  | unrolled {blocks} : (∀ step ∈ blocks, ElementBlock naming target step) →
    Shape naming target blocks

/-- How variables are declared: each under a Lua name, one after the other. -/
inductive Declared (c : Context) :
    List (String × Json) → Machine → List Step → Machine → Prop where
  | none {m} : Declared c [] m [] m
  | next {e rest m value m₁ steps m'} : Lua.isIdentifier e.1 = true →
    c.folder.reconstruct e.2 m = .done value m₁ → Declared c rest m₁ steps m' →
    Declared c (e :: rest) m (.declare e.1 value :: steps) m'

/-- How a target is invoked with arguments, by its kind. -/
inductive Invoked (c : Context) (target : Target) :
    List Json → Machine → List Step → Machine → Prop where
  | declaration {entries m steps m'} : target.kind = .declaration →
    Declared c entries m steps m' → Invoked c target [.obj entries] m steps m'
  | command {args m ls m'} : target.kind = .command →
    c.reconstructArgs args m = .done ls m' →
    Invoked c target args m [.command target.name ls] m'
  | function {args m ls m'} : target.kind = .function →
    c.reconstructArgs args m = .done ls m' →
    Invoked c target args m [.call target.name ls] m'

/-- How the elements of a sequence become blocks, from a position on. -/
inductive Unrolls (c : Context) (target : Target) (args : List Json) :
    Nat → List Json → Machine → List Step → Machine → Prop where
  | none {index m} : Unrolls c target args index [] m [] m
  | next {index item items m l m₁ steps m₂ blocks m'} :
    c.folder.reconstruct item m = .done l m₁ →
    Invoked { c with bindings := elementBindings c index l } target args m₁ steps m₂ →
    Unrolls c target args (index + 1) items m₂ blocks m' →
    Unrolls c target args index (item :: items) m
      (.block (.declare c.naming.item l :: .declare c.naming.index (.const (.int index)) :: steps)
        :: blocks) m'

/-- How a task gets its steps: once, in a loop, or in a block for each element of a sequence. -/
inductive Becomes (c : Context) (target : Target) (task : Task) (m : Machine) :
    List Step → Machine → Prop where
  | once {steps m'} : task.loop = none → Invoked c target task.args m steps m' →
    Becomes c target task m steps m'
  | repeated {text source m₁ body m'} : task.loop = some (.str text) →
    c.folder.foldExpression text m = .done source m₁ →
    Invoked c target task.args m₁ body m' → Becomes c target task m [.loop source body] m'
  | unrolled {items blocks m'} : task.loop = some (.arr items) →
    Unrolls c target task.args 0 items m blocks m' → Becomes c target task m blocks m'

section Shapes

variable {c : Context} {target : Target} {task : Task} {args : List Json} {steps : List Step}
  {m m' : Machine}

theorem declarations_cases {entries : List (String × Json)}
    (h : declarations c entries m = .done steps m') : Declared c entries m steps m' := by
  induction entries generalizing steps m with
  | nil =>
    cases h
    exact .none
  | cons e rest ih =>
    unfold declarations at h
    split at h
    · obtain ⟨_, _, thrown, -⟩ := bind_done.1 h
      cases thrown
    · rename_i valid
      simp only [bind_done, pure_done] at h
      obtain ⟨value, m₁, made, others, m₂, rest, rfl, rfl⟩ := h
      exact .next (by simpa using valid) made (ih rest)

theorem invocationSteps_cases (h : invocationSteps c target args m = .done steps m') :
    Invoked c target args m steps m' := by
  unfold invocationSteps at h
  cases kind : target.kind with
  | declaration =>
    simp only [kind] at h
    split at h
    · exact .declaration kind (declarations_cases h)
    · cases h
  | command =>
    simp only [kind, bind_done, pure_done] at h
    obtain ⟨ls, m₁, made, rfl, rfl⟩ := h
    exact .command kind made
  | function =>
    simp only [kind, bind_done, pure_done] at h
    obtain ⟨ls, m₁, made, rfl, rfl⟩ := h
    exact .function kind made

theorem elementBlocks_cases {index : Nat} {items : List Json}
    (h : elementBlocks c target args index items m = .done steps m') :
    Unrolls c target args index items m steps m' := by
  induction items generalizing index steps m with
  | nil =>
    cases h
    exact .none
  | cons item items ih =>
    simp only [elementBlocks, elementBlock, bind_done, pure_done] at h
    obtain ⟨_, m₁, ⟨l, m₂, made, steps, m₃, invoked, rfl, rfl⟩, others, m₄, rest, rfl, rfl⟩ := h
    exact .next made (invocationSteps_cases invoked) (ih rest)

theorem taskSteps_cases (h : taskSteps c target task m = .done steps m') :
    Becomes c target task m steps m' := by
  unfold taskSteps at h
  cases loop : task.loop with
  | none =>
    simp only [loop] at h
    exact .once loop (invocationSteps_cases h)
  | some source =>
    simp only [loop, loopSteps] at h
    cases source with
    | str text =>
      simp only at h
      split at h
      · simp only [bind_done, pure_done] at h
        obtain ⟨source, m₁, folds, body, m₂, invoked, rfl, rfl⟩ := h
        exact .repeated loop folds (invocationSteps_cases invoked)
      · split at h <;> cases h
    | arr items => exact .unrolled loop (elementBlocks_cases h)
    | _ => cases h

theorem Invoked.invocation (h : Invoked c target args m steps m') : Invocation target steps := by
  cases h with
  | declaration kind declared =>
    induction declared with
    | none => nofun
    | next _ _ _ ih => exact List.forall_mem_cons.2 ⟨kind, ih⟩
  | command kind | function kind => exact List.forall_mem_singleton.2 ⟨kind, rfl⟩

theorem Unrolls.elements {index : Nat} {items : List Json}
    (h : Unrolls c target args index items m steps m') :
    ∀ step ∈ steps, ElementBlock c.naming target step := by
  induction h with
  | none => nofun
  | next _ invoked _ ih => exact List.forall_mem_cons.2 ⟨.intro invoked.invocation, ih⟩

theorem taskSteps_done (h : taskSteps c target task m = .done steps m') :
    Shape c.naming target steps := by
  cases taskSteps_cases h with
  | once _ invoked => exact .once invoked.invocation
  | repeated _ _ invoked => exact .repeated invoked.invocation
  | unrolled _ unrolls => exact .unrolled unrolls.elements

end Shapes

section Nesting

variable {naming : Naming} {target : Target} {steps body : List Step}

theorem Invocation.plain {step : Step} (h : Invocation target steps) (there : step ∈ steps) :
    ¬step.Wraps body := by
  intro wraps
  cases wraps with
  | block | loop => exact h _ there

theorem Invocation.within (h : Invocation target steps) (within : Within steps body) :
    body = steps := by
  rcases within.outside with same | ⟨step, there, own, wraps, -⟩
  · exact same
  · exact absurd wraps (h.plain there)

theorem ElementBlock.within (h : ElementBlock naming target (.block steps))
    (within : Within steps body) : body = steps := by
  cases h with
  | intro invocation =>
    rcases within.outside with same | ⟨step, there, own, wraps, -⟩
    · exact same
    · simp only [List.mem_cons] at there
      rcases there with rfl | rfl | there
      · cases wraps
      · cases wraps
      · exact absurd wraps (invocation.plain there)

theorem Invocation.depth (h : Invocation target steps) : stepsDepth steps = 0 := by
  induction steps with
  | nil => rfl
  | cons step steps ih =>
    have others := ih fun step hstep => h step (.tail _ hstep)
    have first := h step (.head _)
    cases step with
    | loop source body => exact first.elim
    | block body => exact first.elim
    | _ => simp [stepsDepth, stepDepth, others]

/-- Loops and blocks of a task have no others in them. -/
theorem Shape.depth (h : Shape naming target steps) : stepsDepth steps ≤ 1 := by
  cases h with
  | once invocation => simp [invocation.depth]
  | repeated invocation => simp [stepsDepth, stepDepth, invocation.depth]
  | unrolled blocks =>
    induction steps with
    | nil => simp [stepsDepth]
    | cons step steps ih =>
      have others := ih fun step hstep => blocks step (.tail _ hstep)
      cases blocks step (.head _) with
      | intro invocation =>
        simp only [stepsDepth, stepDepth, invocation.depth]
        omega

/-- What is run in one scope for a task: all of it, the body of its loop, or one of its blocks. -/
theorem Shape.within (h : Shape naming target steps) (within : Within steps body) :
    body = steps ∨ (∃ source, steps = [.loop source body] ∧ Invocation target body) ∨
      .block body ∈ steps ∧ ElementBlock naming target (.block body) := by
  rcases within.outside with same | ⟨step, there, own, wraps, inside⟩
  · exact .inl same
  · cases h with
    | once invocation => exact absurd wraps (invocation.plain there)
    | repeated invocation =>
      cases List.mem_singleton.1 there
      cases wraps
      rw [invocation.within inside]
      exact .inr (.inl ⟨_, rfl, invocation⟩)
    | unrolled blocks =>
      have element := blocks step there
      cases wraps with
      | block =>
        rw [element.within inside]
        exact .inr (.inr ⟨there, element⟩)
      | loop => cases element

theorem Invocation.call {name : String} {args : List Literal} (h : Invocation target steps)
    (there : .call name args ∈ steps) : target.kind = .function ∧ name = target.name :=
  h _ there

/-- Every call of a task is one of its target. -/
theorem Shape.call (h : Shape naming target steps) (within : Within steps body) {name : String}
    {args : List Literal} (there : .call name args ∈ body) :
    target.kind = .function ∧ name = target.name := by
  rcases h.within within with rfl | ⟨source, rfl, invocation⟩ | ⟨-, element⟩
  · cases h with
    | once invocation => exact invocation.call there
    | repeated invocation => simp at there
    | unrolled blocks => cases blocks _ there
  · exact invocation.call there
  · cases element with
    | intro invocation =>
      simp only [List.mem_cons, reduceCtorEq, false_or] at there
      exact invocation.call there

end Nesting

/-- What a task with a function for a target chose: a whole module, what a module exports, a
built-in function, or a global. -/
inductive Chosen (c : Context) (task : Task) (target : Target) : Prop where
  | whole {from_ m m'} : moduleName? c task m = .done (some from_) m' →
    target.name = c.naming.defaultUse ++ "_" ++ Nat.repr c.taskIndex →
    target.fragment.imports = [⟨target.name, .module from_ none⟩] → Chosen c task target
  | exported {from_ m m'} : moduleName? c task m = .done (some from_) m' →
    target.fragment.imports =
      [⟨rootSegment target.name, .module from_ (some (rootSegment target.name))⟩] →
    Chosen c task target
  | builtin {m m'} : moduleName? c task m = .done none m' → c.registry.contains target.name →
    target.fragment.imports = [⟨rootSegment target.name, .builtin (rootSegment target.name)⟩] →
    Chosen c task target
  | global {m m' m''} : moduleName? c task m = .done none m' →
    evaluated (isGlobalFunction target.name) m' = .done true m'' →
    target.fragment.imports = [] → Chosen c task target

section Classification

variable {c : Context} {task : Task} {target : Target} {m m' : Machine}

/-- The decisions by which the target of a task with a name is found: the word that declares
variables, a command, a whole module, what a module exports, a built-in function, or a global. -/
inductive Classified (c : Context) (task : Task) (name : String) (m : Machine) :
    Target → Machine → Prop where
  | declaration : name = c.naming.setVars → Classified c task name m ⟨.declaration, name, none, {}⟩ m
  | command {program} : commandProgram? c.naming name = some program →
    Classified c task name m
      ⟨.command, program, none, .ofDiagnostic ("run " ++ c.highlight program)⟩ m
  | whole {from_ binding note m'} : moduleName? c task m = .done (some from_) m' →
    name = c.naming.defaultUse → binding = c.naming.defaultUse ++ "_" ++ Nat.repr c.taskIndex →
    Classified c task name m
      ⟨.function, binding, some from_,
        .ofImport ⟨binding, .module from_ none⟩ c.naming ++ .ofDiagnostic note⟩ m'
  | exported {from_ root note m'} : moduleName? c task m = .done (some from_) m' →
    root = rootSegment name → Lua.isIdentifier root = true →
    Classified c task name m
      ⟨.function, name, some from_,
        .ofImport ⟨root, .module from_ (some root)⟩ c.naming ++ .ofDiagnostic note⟩ m'
  | builtin {root note m'} : moduleName? c task m = .done none m' → c.registry.contains name →
    root = rootSegment name → Lua.isIdentifier root = true →
    Classified c task name m
      ⟨.function, name, none, .ofImport ⟨root, .builtin root⟩ c.naming ++ .ofDiagnostic note⟩ m'
  | global {m₁ m'} : moduleName? c task m = .done none m₁ →
    evaluated (isGlobalFunction name) m₁ = .done true m' →
    Classified c task name m ⟨.function, name, none, {}⟩ m'

theorem rootBinding_done {name root : String} :
    rootBinding name m = .done root m' ↔
      root = rootSegment name ∧ Lua.isIdentifier root = true ∧ m' = m := by
  unfold rootBinding
  constructor
  · intro h
    split at h
    · rename_i valid
      cases h
      exact ⟨rfl, valid, rfl⟩
    · cases h
  · rintro ⟨rfl, valid, rfl⟩
    rw [if_pos valid]
    rfl

/-- Classifying a task gives its target a name and then takes the decisions. -/
theorem classify_cases (h : classify c task m = .done target m') :
    ∃ name m₁, targetName c task m = .done name m₁ ∧ Classified c task name m₁ target m' := by
  simp only [classify, bind_done] at h
  obtain ⟨name, m₁, named, h⟩ := h
  refine ⟨name, m₁, named, ?_⟩
  split at h
  · rename_i reserved
    cases h
    exact .declaration reserved
  · cases program : commandProgram? c.naming name with
    | some program' =>
      simp only [program] at h
      cases h
      exact .command program
    | none =>
      simp only [program, bind_done] at h
      obtain ⟨given, m₂, module_, h⟩ := h
      cases given with
      | some from_ =>
        simp only [moduleTarget] at h
        split at h
        · rename_i default
          cases h
          exact .whole module_ default rfl
        · simp only [bind_done, pure_done, rootBinding_done] at h
          obtain ⟨root, _, ⟨same, valid, rfl⟩, rfl, rfl⟩ := h
          exact .exported module_ same valid
      | none =>
        simp only at h
        split at h
        · rename_i registered
          simp only [builtinTarget, bind_done, pure_done, rootBinding_done] at h
          obtain ⟨root, _, ⟨same, valid, rfl⟩, rfl, rfl⟩ := h
          exact .builtin module_ registered same valid
        · simp only [bind_done] at h
          obtain ⟨is_, m₃, asked, h⟩ := h
          cases is_ with
          | true =>
            cases h
            exact .global module_ asked
          | false => cases h

/-- What classifying a task gives has no steps of its own, and when it is a function, it was chosen
in one of four ways. -/
theorem classify_done (h : classify c task m = .done target m') :
    target.fragment.steps = [] ∧ (target.kind = .function → Chosen c task target) := by
  obtain ⟨name, m₁, -, decided⟩ := classify_cases h
  cases decided with
  | declaration => exact ⟨rfl, nofun⟩
  | command => exact ⟨rfl, nofun⟩
  | whole module_ _ binding => exact ⟨rfl, fun _ => .whole module_ binding rfl⟩
  | exported module_ root =>
    subst root
    exact ⟨rfl, fun _ => .exported module_ rfl⟩
  | builtin module_ registered root =>
    subst root
    exact ⟨rfl, fun _ => .builtin module_ registered rfl⟩
  | global module_ asked => exact ⟨rfl, fun _ => .global module_ asked rfl⟩

end Classification

/-- The part of a task is what classifying and compiling the task gave, once the tasks before it had
theirs. -/
theorem Parts.before {k : Nat} {known : List String} {tasks : List Task} {m m' : Machine}
    {parts : List Part} (h : Parts options registry k known tasks m parts m') {n : Nat}
    {part : Part} (there : parts[n]? = some part) :
    ∃ task known₁ known₂ m₁ m₂ m₃, tasks[n]? = some task ∧
      Parts options registry k known (tasks.take n) m (parts.take n) m₁ ∧
      classify (contextOf options registry (k + n) known₁) task m₁ = .done part.target m₂ ∧
      taskSteps (contextOf options registry (k + n) known₂) part.target task m₂ =
        .done part.steps m₃ := by
  induction h generalizing n with
  | none => simp at there
  | @next k known task tasks m target m₁ steps m₂ parts m' chosen made rest ih =>
    cases n with
    | zero =>
      cases there
      exact ⟨task, known, _, m, m₁, m₂, rfl, .none, chosen, made⟩
    | succ n =>
      obtain ⟨task', known₁, known₂, m₃, m₄, m₅, at_, earlier, chosen', made'⟩ := ih there
      rw [Nat.add_right_comm] at chosen' made'
      exact ⟨task', known₁, known₂, m₃, m₄, m₅, at_, .next chosen made earlier, chosen', made'⟩

theorem Parts.at_ {k : Nat} {known : List String} {tasks : List Task} {m m' : Machine}
    {parts : List Part} (h : Parts options registry k known tasks m parts m') {n : Nat}
    {part : Part} (there : parts[n]? = some part) :
    ∃ task known₁ known₂ m₁ m₂ m₃, tasks[n]? = some task ∧
      classify (contextOf options registry (k + n) known₁) task m₁ = .done part.target m₂ ∧
      taskSteps (contextOf options registry (k + n) known₂) part.target task m₂ =
        .done part.steps m₃ := by
  obtain ⟨task, known₁, known₂, m₁, m₂, m₃, at_, -, chosen, made⟩ := h.before there
  exact ⟨task, known₁, known₂, m₁, m₂, m₃, at_, chosen, made⟩

theorem Parts.shape {k : Nat} {known : List String} {tasks : List Task} {m m' : Machine}
    {parts : List Part} (h : Parts options registry k known tasks m parts m') {part : Part}
    (there : part ∈ parts) : Shape options.naming part.target part.steps := by
  obtain ⟨n, there⟩ := List.mem_iff_getElem?.1 there
  obtain ⟨task, known₁, known₂, m₁, m₂, m₃, -, -, made⟩ := h.at_ there
  exact taskSteps_done made

/-- Loops and blocks of parts have no others in them. -/
theorem Parts.shallow {k : Nat} {known : List String} {tasks : List Task} {m m' : Machine}
    {parts : List Part} (h : Parts options registry k known tasks m parts m') {depth : Nat}
    (two : 2 ≤ depth) : ∀ steps ∈ parts.map (·.steps), stepsDepth steps + 1 ≤ depth := by
  intro steps mapped
  obtain ⟨part, there, rfl⟩ := List.mem_map.1 mapped
  have := (h.shape there).depth
  omega

/-- Runs of compiled programs never have more than one scope within that of the program. -/
theorem Parts.sound {known : List String} {tasks : List Task} {m m' : Machine} {parts : List Part}
    (is_ : Parts options registry 0 known tasks m parts m') {p : Program} {c : Capabilities}
    {w : World} {name : String}
    (r : Execution.Progress (Machine.Spares name) p (parts.map (·.steps)) c w) {depth : Nat}
    (two : 2 ≤ depth) (few : depth + 2 ≤ 10000000000) :
    Execution.Sound name depth r.log r.config :=
  r.sound (is_.shallow two) few

end Compile

open Compile in
/-- A compiled program is made of the parts of its tasks. -/
theorem compile_done {options : CompileOptions} {registry : Registry} {tasks : List Task}
    {m m' : Machine} {compiled : CompiledProgram}
    (h : compile options registry tasks m = .done compiled m') :
    ∃ parts, Parts options registry 0 (startNames options.naming) tasks m parts m' ∧
      compiled.program.naming = options.naming ∧
      compiled.program.imports = parts.flatMap (·.target.fragment.imports) ∧
      compiled.program.steps = (parts.map (·.steps)).flatten := by
  simp only [compile, bind_done, pure_done] at h
  obtain ⟨f, m₁, made, rfl, rfl⟩ := h
  obtain ⟨parts, is_, imports, steps⟩ := tasksFragment_done made
  refine ⟨parts, is_, rfl, imports, ?_⟩
  have bare : ∀ part ∈ parts, part.target.fragment.steps ++ part.steps = part.steps := by
    intro part there
    obtain ⟨n, there⟩ := List.mem_iff_getElem?.1 there
    obtain ⟨task, known₁, known₂, m₁, m₂, m₃, -, chosen, -⟩ := is_.at_ there
    rw [(classify_done chosen).1, List.nil_append]
  show f.steps = _
  rw [steps, List.map_congr_left bare]

end Tasklang
