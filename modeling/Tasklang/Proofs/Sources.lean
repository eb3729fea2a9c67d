import Tasklang.Proofs.Knowledge
import Tasklang.Proofs.Strict

/-! # Where expressions come from

Every text that is written in a task is parsed once. What a placeholder of it gives stands in the
literal as it is, as a value or as text beside other text, whatever characters it has; only what was
written as an expression stays one. This holds also where a value is known only within the block of
an element, so that no data becomes code.
-/

namespace Tasklang

open Lua Lua.Run

/-- A value that is another one or stands in it at any depth. -/
inductive Json.Contains (v : Json) : Json → Prop where
  | here : Contains v v
  | arr {w items} : w ∈ items → Contains v w → Contains v (.arr items)
  | obj {e : String × Json} {entries} : e ∈ entries → Contains v e.2 → Contains v (.obj entries)

theorem Json.Contains.trans {u v w : Json} (h : u.Contains v) (h' : v.Contains w) :
    u.Contains w := by
  induction h' with
  | here => exact h
  | arr there _ ih => exact .arr there ih
  | obj there _ ih => exact .obj there ih

/-- A value with a text in which parsing finds a placeholder. -/
def Json.HasPlaceholder (v : Json) (source : String) : Prop :=
  ∃ text segments, (Json.str text).Contains v ∧ Template.parse text = .ok segments ∧
    .expr source ∈ segments

theorem Json.HasPlaceholder.within {source : String} {v w : Json}
    (h : v.HasPlaceholder source) (there : v.Contains w) : w.HasPlaceholder source := by
  obtain ⟨text, segments, inside, parsed, left⟩ := h
  exact ⟨text, segments, inside.trans there, parsed, left⟩

/-- Values that are written in the arguments of a task or in what it is repeated for. -/
def Task.Writes (task : Task) (v : Json) : Prop :=
  ∃ w, (w ∈ task.args ∨ task.loop = some w) ∧ v.Contains w

namespace Compile

open Execution (Evaluates Within)

/-- A value that some evaluation of a placeholder gave. -/
def Gives (bindings : Bindings) (source : String) (v : Json) : Prop :=
  ∃ m m', evaluate source bindings m = .done v m'

/-- Segments in which some placeholders stand for values that they gave, as text. -/
inductive Spliced (bindings : Bindings) : List Segment → List Segment → Prop where
  | nil : Spliced bindings [] []
  | text {segments spliced} (t : String) : Spliced bindings segments spliced →
    Spliced bindings (.text t :: segments) (Folder.joinText t spliced)
  | value {source v segments spliced} : Gives bindings source v →
    Spliced bindings segments spliced →
    Spliced bindings (.expr source :: segments) (Folder.joinText v.stringify spliced)
  | kept {segments spliced} (source : String) : Spliced bindings segments spliced →
    Spliced bindings (.expr source :: segments) (.expr source :: spliced)

mutual

/-- A literal made of a written value: a text is parsed, and all that its placeholders gave is
spliced in, or is the whole of the literal. -/
inductive MadeOf (bindings : Bindings) : Json → Literal → Prop where
  | atom {v} : (∀ text, v ≠ .str text) → MadeOf bindings v (.const v)
  | value {text source v} : Template.parse text = .ok [.expr source] → Gives bindings source v →
    MadeOf bindings (.str text) (.const v)
  | text {text segments spliced} : Template.parse text = .ok segments →
    Spliced bindings segments spliced → MadeOf bindings (.str text) (Folder.literalOf spliced)
  | expr {text segments source} : Template.parse text = .ok segments →
    Spliced bindings segments [.expr source] → MadeOf bindings (.str text) (.expr source)
  | seq {items ls} : AllMadeOf bindings items ls → MadeOf bindings (.arr items) (.seq ls)
  | map {entries es} : EntriesMadeOf bindings entries es →
    MadeOf bindings (.obj entries) (.map es)

/-- Literals made of the elements of a sequence. -/
inductive AllMadeOf (bindings : Bindings) : List Json → List Literal → Prop where
  | nil : AllMadeOf bindings [] []
  | cons {v l vs ls} : MadeOf bindings v l → AllMadeOf bindings vs ls →
    AllMadeOf bindings (v :: vs) (l :: ls)

/-- Literals made of the entries of a mapping, under the same keys. -/
inductive EntriesMadeOf (bindings : Bindings) :
    List (String × Json) → List (String × Literal) → Prop where
  | nil : EntriesMadeOf bindings [] []
  | cons {k v l es ls} : MadeOf bindings v l → EntriesMadeOf bindings es ls →
    EntriesMadeOf bindings ((k, v) :: es) ((k, l) :: ls)

end

section Expressions

variable {bindings : Bindings} {source : String}

theorem Spliced.subset {segments spliced : List Segment} (h : Spliced bindings segments spliced)
    (left : .expr source ∈ spliced) : .expr source ∈ segments := by
  induction h with
  | nil => exact left
  | text t _ ih => exact .tail _ (ih (mem_joinText.1 left))
  | value _ _ ih => exact .tail _ (ih (mem_joinText.1 left))
  | kept source' _ ih =>
    rcases List.mem_cons.1 left with same | left
    · cases same
      exact .head _
    · exact .tail _ (ih left)

theorem literalOf_deferred {spliced segments : List Segment}
    (h : Folder.literalOf spliced = .deferred segments) : spliced = segments := by
  unfold Folder.literalOf at h
  split at h
  · cases h
  · cases h
    rfl

theorem MadeOf.deferred {text : String} {segments : List Segment}
    (h : MadeOf bindings (.str text) (.deferred segments)) :
    ∃ parsed, Template.parse text = .ok parsed ∧ Spliced bindings parsed segments := by
  generalize made : Literal.deferred segments = l at h
  cases h with
  | @text _ parsed spliced is_ joined => exact ⟨parsed, is_, literalOf_deferred made.symm ▸ joined⟩
  | _ => cases made

mutual

/-- What is left to be evaluated of a literal was written as an expression in what it is made of. -/
theorem MadeOf.placeholder {v : Json} {l : Literal} (h : MadeOf bindings v l)
    (holds : l.Holds source) : v.HasPlaceholder source := by
  cases h with
  | atom | value => cases holds
  | @text text segments spliced parsed joined =>
    exact ⟨text, segments, .here, parsed, joined.subset (literalOf_holds.1 holds)⟩
  | @expr text segments source' parsed joined =>
    cases holds
    exact ⟨text, segments, .here, parsed, joined.subset (.head _)⟩
  | seq all =>
    cases holds with
    | seq there holds =>
      obtain ⟨v, inside, has⟩ := all.placeholder there holds
      exact has.within (.arr inside .here)
  | map all =>
    cases holds with
    | map there holds =>
      obtain ⟨e, inside, has⟩ := all.placeholder there holds
      exact has.within (.obj inside .here)

theorem AllMadeOf.placeholder {vs : List Json} {ls : List Literal} {l : Literal}
    (h : AllMadeOf bindings vs ls) (there : l ∈ ls) (holds : l.Holds source) :
    ∃ v ∈ vs, v.HasPlaceholder source := by
  cases h with
  | nil => cases there
  | cons first others =>
    rcases List.mem_cons.1 there with rfl | there
    · exact ⟨_, .head _, first.placeholder holds⟩
    · obtain ⟨v, inside, has⟩ := others.placeholder there holds
      exact ⟨v, .tail _ inside, has⟩

theorem EntriesMadeOf.placeholder {es : List (String × Json)} {ls : List (String × Literal)}
    {e : String × Literal} (h : EntriesMadeOf bindings es ls) (there : e ∈ ls)
    (holds : e.2.Holds source) : ∃ e ∈ es, e.2.HasPlaceholder source := by
  cases h with
  | nil => cases there
  | cons first others =>
    rcases List.mem_cons.1 there with rfl | there
    · exact ⟨_, .head _, first.placeholder holds⟩
    · obtain ⟨e, inside, has⟩ := others.placeholder there holds
      exact ⟨e, .tail _ inside, has⟩

end

end Expressions

section Folding

variable {f : Folder} {m m' : Machine}

theorem foldSegments_spliced {segments spliced : List Segment}
    (done : f.foldSegments segments m = .done spliced m') :
    Spliced f.bindings segments spliced := by
  induction segments generalizing m spliced with
  | nil =>
    cases done
    exact .nil
  | cons s rest ih =>
    cases s with
    | text t =>
      simp only [Folder.foldSegments, bind_done, pure_done] at done
      obtain ⟨others, m₁, made, rfl, rfl⟩ := done
      exact .text t (ih made)
    | expr source =>
      simp only [Folder.foldSegments, bind_done] at done
      obtain ⟨found, m₁, tried, done⟩ := done
      cases found with
      | some v =>
        simp only [bind_done, pure_done] at done
        obtain ⟨others, m₂, made, rfl, rfl⟩ := done
        exact .value ⟨_, _, tryEval_done.1 tried⟩ (ih made)
      | none =>
        simp only [bind_done, pure_done] at done
        obtain ⟨others, m₂, made, rfl, rfl⟩ := done
        exact .kept source (ih made)

theorem parsed_done {α : Type} {r : Except TemplateError α} {a : α} :
    parsed r m = .done a m' ↔ r = .ok a ∧ m' = m := by
  cases r with
  | ok b =>
    show Outcome.done b m = .done a m' ↔ _
    simp only [Outcome.done.injEq, Except.ok.injEq, eq_comm]
  | error e =>
    constructor
    · nofun
    · rintro ⟨same, -⟩
      cases same

theorem fold_madeOf {text : String} {l : Literal} (done : f.fold text m = .done l m') :
    MadeOf f.bindings (.str text) l := by
  simp only [Folder.fold, bind_done, parsed_done] at done
  obtain ⟨segments, _, ⟨parsed, rfl⟩, done⟩ := done
  split at done
  · rename_i source
    simp only [bind_done] at done
    obtain ⟨found, m₁, tried, done⟩ := done
    cases found with
    | some v =>
      cases done
      exact .value parsed ⟨_, _, tryEval_done.1 tried⟩
    | none =>
      cases done
      exact .text parsed (.kept source .nil)
  · simp only [bind_done, pure_done] at done
    obtain ⟨spliced, m₁, made, rfl, rfl⟩ := done
    exact .text parsed (foldSegments_spliced made)

/-- A single placeholder that is left keeps the type of its value. -/
theorem foldExpression_madeOf {text : String} {l : Literal}
    (done : f.foldExpression text m = .done l m') : MadeOf f.bindings (.str text) l := by
  simp only [Folder.foldExpression, bind_done] at done
  obtain ⟨folded, m₁, folds, done⟩ := done
  have made := fold_madeOf folds
  split at done
  · rename_i source
    cases done
    obtain ⟨segments, parsed, spliced⟩ := made.deferred
    exact .expr parsed spliced
  · cases done
    exact made

mutual

theorem reconstruct_madeOf {m m' : Machine} {v : Json} {l : Literal}
    (done : f.reconstruct v m = .done l m') : MadeOf f.bindings v l := by
  cases v with
  | str text => exact fold_madeOf done
  | arr items =>
    simp only [Folder.reconstruct, bind_done, pure_done] at done
    obtain ⟨ls, m₁, made, rfl, rfl⟩ := done
    exact .seq (reconstructAll_madeOf made)
  | obj entries =>
    simp only [Folder.reconstruct, bind_done, pure_done] at done
    obtain ⟨es, m₁, made, rfl, rfl⟩ := done
    exact .map (reconstructEntries_madeOf made)
  | _ =>
    cases done
    exact .atom nofun

theorem reconstructAll_madeOf {m m' : Machine} {vs : List Json} {ls : List Literal}
    (done : f.reconstructAll vs m = .done ls m') : AllMadeOf f.bindings vs ls := by
  cases vs with
  | nil =>
    cases done
    exact .nil
  | cons v vs =>
    simp only [Folder.reconstructAll, bind_done, pure_done] at done
    obtain ⟨l, m₁, first, ls, m₂, others, rfl, rfl⟩ := done
    exact .cons (reconstruct_madeOf first) (reconstructAll_madeOf others)

theorem reconstructEntries_madeOf {m m' : Machine} {es : List (String × Json)}
    {ls : List (String × Literal)}
    (done : f.reconstructEntries es m = .done ls m') : EntriesMadeOf f.bindings es ls := by
  cases es with
  | nil =>
    cases done
    exact .nil
  | cons e es =>
    simp only [Folder.reconstructEntries, bind_done, pure_done] at done
    obtain ⟨l, m₁, first, ls, m₂, others, rfl, rfl⟩ := done
    exact .cons (reconstruct_madeOf first) (reconstructEntries_madeOf others)

end

end Folding

section Steps

/-- Steps that have a property, with all steps in their loops and blocks. -/
def Throughout (P : Step → Prop) (steps : List Step) : Prop :=
  ∀ body, Within steps body → ∀ step ∈ body, P step

namespace Throughout

variable {P : Step → Prop} {step : Step} {steps : List Step}

/-- The induction over steps: each has the property, and so have those in its body. -/
theorem iff_forall : Throughout P steps ↔
    ∀ step ∈ steps, P step ∧ ∀ body, step.Wraps body → Throughout P body := by
  constructor
  · intro h step there
    refine ⟨h steps .here step there, fun body wraps inner within => ?_⟩
    exact h inner ((Within.of_wraps wraps there).trans within)
  · intro h body within step there
    rcases within.outside with rfl | ⟨step', mem, own, wraps, within⟩
    · exact (h step there).1
    · exact (h step' mem).2 own wraps body within step there

theorem nil : Throughout P [] := iff_forall.2 nofun

theorem cons (own : P step) (inner : ∀ body, step.Wraps body → Throughout P body)
    (others : Throughout P steps) : Throughout P (step :: steps) :=
  iff_forall.2 (List.forall_mem_cons.2 ⟨⟨own, inner⟩, iff_forall.1 others⟩)

theorem imp {P' : Step → Prop} (h : Throughout P steps) (weaker : ∀ step, P step → P' step) :
    Throughout P' steps :=
  fun body within step there => weaker step (h body within step there)

theorem flatten {parts : List (List Step)} (all : ∀ part ∈ parts, Throughout P part) :
    Throughout P parts.flatten := by
  refine iff_forall.2 fun step there => ?_
  obtain ⟨part, mem, there⟩ := List.mem_flatten.1 there
  exact iff_forall.1 (all part mem) step there

theorem of_invocation {target : Target} (invocation : Invocation target steps)
    (all : ∀ step ∈ steps, P step) : Throughout P steps :=
  iff_forall.2 fun step there =>
    ⟨all step there, fun _ wraps => absurd wraps (invocation.plain there)⟩

theorem declare {name : String} {value : Literal} (own : P (.declare name value))
    (others : Throughout P steps) : Throughout P (.declare name value :: steps) :=
  cons own nofun others

theorem block {body : List Step} (own : P (.block body)) (inner : Throughout P body)
    (others : Throughout P steps) : Throughout P (.block body :: steps) :=
  cons own (fun _ wraps => by cases wraps; exact inner) others

theorem loop {list : Literal} {body : List Step} (own : P (.loop list body))
    (inner : Throughout P body) : Throughout P [.loop list body] :=
  cons own (fun _ wraps => by cases wraps; exact inner) nil

end Throughout

/-- How a step of a task is made: it declares a variable with a Lua name, the element or its position;
it invokes the target of the task; or it repeats other steps. `Made` holds of the literals that come
from what is written in the task. -/
inductive Formed (naming : Naming) (target : Target) (Made : Literal → Prop) : Step → Prop where
  | declared {name value} : target.kind = .declaration → Lua.isIdentifier name = true → Made value →
    Formed naming target Made (.declare name value)
  | item {value} : Made value → Formed naming target Made (.declare naming.item value)
  | index (n : Nat) : Formed naming target Made (.declare naming.index (.const (.int n)))
  | call {args} : target.kind = .function → (∀ l ∈ args, Made l) →
    Formed naming target Made (.call target.name args)
  | command {args} : target.kind = .command → (∀ l ∈ args, Made l) →
    Formed naming target Made (.command target.name args)
  | loop {source body} : Made source → Formed naming target Made (.loop source body)
  | block {body} : Formed naming target Made (.block body)

theorem Formed.literals {naming : Naming} {target : Target} {Made : Literal → Prop} {step : Step}
    (h : Formed naming target Made step) {l : Literal} (there : l ∈ step.literals) :
    (∃ n : Nat, l = .const (.int n)) ∨ Made l := by
  cases h with
  | declared _ _ made | item made | loop made => exact .inr (List.mem_singleton.1 there ▸ made)
  | index n => exact .inl ⟨n, List.mem_singleton.1 there⟩
  | call _ made | command _ made => exact .inr (made l there)
  | block => cases there

variable {Made : Literal → Prop} {c : Context} {target : Target} {m m' : Machine}

/-- Every literal made of what stands in some values has a property. -/
def Covers (Made : Literal → Prop) (bindings : Bindings) (values : List Json) : Prop :=
  ∀ w ∈ values, ∀ v l, v.Contains w → MadeOf bindings v l → Made l

theorem AllMadeOf.covered {bindings : Bindings} {vs : List Json} {ls : List Literal}
    (h : AllMadeOf bindings vs ls) (covers : Covers Made bindings vs) : ∀ l ∈ ls, Made l := by
  induction vs generalizing ls with
  | nil =>
    cases h
    nofun
  | cons v vs ih =>
    cases h with
    | cons first others =>
      intro l there
      rcases List.mem_cons.1 there with rfl | there
      · exact covers v (.head _) v l .here first
      · exact ih others (fun w hw => covers w (.tail _ hw)) l there

theorem Declared.formed {entries : List (String × Json)} {steps : List Step}
    (h : Declared c entries m steps m') (kind : target.kind = .declaration)
    (covers : Covers Made c.bindings (entries.map (·.2))) :
    ∀ step ∈ steps, Formed c.naming target Made step := by
  induction h with
  | none => nofun
  | next valid made _ ih =>
    have own := covers _ (.head _) _ _ .here (reconstruct_madeOf made)
    exact List.forall_mem_cons.2
      ⟨.declared kind valid own, ih fun w hw => covers w (.tail _ hw)⟩

theorem Invoked.formed {args : List Json} {steps : List Step}
    (h : Invoked c target args m steps m') (covers : Covers Made c.bindings args) :
    Throughout (Formed c.naming target Made) steps := by
  refine .of_invocation h.invocation ?_
  cases h with
  | declaration kind declared =>
    refine declared.formed kind fun w hw v l inside made => ?_
    obtain ⟨e, there, rfl⟩ := List.mem_map.1 hw
    exact covers _ (.head _) v l (inside.trans (.obj there .here)) made
  | command kind made =>
    exact List.forall_mem_singleton.2 (.command kind ((reconstructAll_madeOf made).covered covers))
  | function kind made =>
    exact List.forall_mem_singleton.2 (.call kind ((reconstructAll_madeOf made).covered covers))

theorem Unrolls.formed {args items : List Json} {index : Nat} {blocks : List Step}
    (h : Unrolls c target args index items m blocks m') (element : Covers Made c.bindings items)
    (inner : ∀ index item, Covers Made (elementBindings c index item) args) :
    Throughout (Formed c.naming target Made) blocks := by
  induction h with
  | none => exact .nil
  | @next index item items m l _ _ _ _ _ made invoked _ ih =>
    have own : Made l := element item (.head _) item l .here (reconstruct_madeOf made)
    exact .block .block
      (.declare (.item own) (.declare (.index index) (invoked.formed (inner index l))))
      (ih fun w hw => element w (.tail _ hw))

/-- The steps of a task, at any nesting, are made of what is written in the task. -/
theorem Becomes.formed {task : Task} {steps : List Step} (h : Becomes c target task m steps m')
    (known : ∀ v l, task.Writes v → MadeOf c.bindings v l → Made l)
    (inner : ∀ index item v l, task.Writes v → MadeOf (elementBindings c index item) v l →
      Made l) : Throughout (Formed c.naming target Made) steps := by
  have args : Covers Made c.bindings task.args := fun w hw v l inside =>
    known v l ⟨w, .inl hw, inside⟩
  cases h with
  | once _ invoked => exact invoked.formed args
  | repeated loop folds invoked =>
    have list := known _ _ ⟨_, .inr loop, .here⟩ (foldExpression_madeOf folds)
    exact .loop (.loop list) (invoked.formed args)
  | unrolled loop unrolls =>
    refine unrolls.formed (fun w hw v l inside => ?_) fun index item w hw v l inside => ?_
    · exact known v l ⟨_, .inr loop, inside.trans (.arr hw .here)⟩
    · exact inner index item v l ⟨w, .inl hw, inside⟩

end Steps

/-- Whether a literal is made of a value that is written in a task. -/
def Sourced (options : CompileOptions) (task : Task) (l : Literal) : Prop :=
  ∃ v bindings, task.Writes v ∧ Folds options bindings ∧ MadeOf bindings v l

/-- An expression of a literal was written in the task that the literal comes from. -/
theorem Sourced.placeholder {options : CompileOptions} {task : Task} {l : Literal} {source : String}
    (h : Sourced options task l) (holds : l.Holds source) :
    ∃ text segments, task.Writes (.str text) ∧ Template.parse text = .ok segments ∧
      .expr source ∈ segments := by
  obtain ⟨v, bindings, ⟨w, written, inside⟩, -, made⟩ := h
  obtain ⟨text, segments, there, parsed, left⟩ := made.placeholder holds
  exact ⟨text, segments, ⟨w, written, there.trans inside⟩, parsed, left⟩

theorem contextOf_formed {options : CompileOptions} {registry : Registry} {k : Nat}
    {known : List String} {target : Target} {task : Task} {steps : List Step} {m m' : Machine}
    (done : taskSteps (contextOf options registry k known) target task m = .done steps m') :
    Throughout (Formed options.naming target (Sourced options task)) steps :=
  (taskSteps_cases done).formed (fun v _ written made => ⟨v, _, written, .inl rfl, made⟩)
    fun index item v _ written made => ⟨v, _, written, .inr ⟨index, item, rfl⟩, made⟩

end Compile

namespace Hostile

open Compile Execution

/-- A task for a name that the environment gives, and for a text with a marker that is escaped. -/
def task : Task where
  use := some "print"
  loop := some (.arr [.str "${build.env.NAME}", .str "\\${result}"])
  args := [.str "${item} ${result}"]

/-- The name in the environment is itself a placeholder. -/
def options : CompileOptions := { publicContext := { env := [("NAME", "${os.exit()}")] } }

/-- Placeholders among the elements stay text, also where the elements are put into arguments. -/
def source : String :=
  "do\n" ++
  "  local item = \"${os.exit()}\"\n" ++
  "  local index = 0\n" ++
  "  result = print(\"${os.exit()} \" .. tostring(result))\n" ++
  "end\n" ++
  "do\n" ++
  "  local item = \"${result}\"\n" ++
  "  local index = 1\n" ++
  "  result = print(\"${result} \" .. tostring(result))\n" ++
  "end\n"

theorem compiles : (compile options .defaults [task] (Machine.initial {})).passes (fun compiled _ =>
    stepsSource {} 0 compiled.program.steps = source) = true := by
  decide +kernel

end Hostile

end Tasklang
