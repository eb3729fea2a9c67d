import Tasklang.Proofs.Globals
import Tasklang.Proofs.Sources
import Tasklang.Proofs.Unrolling

/-! # Compiling task by task

A compiler has one state of Lua for all tasks of a list, and for all lists that it is given. While
evaluating placeholders does not change this state, it does not show: a task gives the same fragment,
or fails with the same error, after whatever else was compiled, and a list gives what its tasks give
on their own, one after the other.
-/

namespace Tasklang

open Lua Lua.Run

/-! ## States that count as one -/

namespace Lua

variable {ε ε' α β : Type}

/-- What a computation that ends comes to, whatever machine it leaves. -/
def Outcome.answer : Outcome ε α → Option (Except ε α)
  | .done a _ => some (.ok a)
  | .failed e _ => some (.error e)
  | .exhausted => none

@[simp] theorem Outcome.answer_done {o : Outcome ε α} {a : α} :
    o.answer = some (.ok a) ↔ ∃ m, o = .done a m := by
  cases o <;> simp [answer]

@[simp] theorem Outcome.answer_failed {o : Outcome ε α} {e : ε} :
    o.answer = some (.error e) ↔ ∃ m, o = .failed e m := by
  cases o <;> simp [answer]

@[simp] theorem Outcome.answer_exhausted {o : Outcome ε α} :
    o.answer = none ↔ o = .exhausted := by
  cases o <;> simp [answer]

/-- Whether some machines count as one state for a computation: it comes to the same in all of them,
and leaves the state unchanged. -/
def Run.Steady (same : Machine → Prop) (x : Run ε α) : Prop :=
  ∀ m, same m → (x m).After same ∧ ∀ m', same m' → (x m').answer = (x m).answer

namespace Run.Steady

variable {same : Machine → Prop}

theorem done {x : Run ε α} (h : Steady same x) {m m' m₁ : Machine} (hm : same m) (hm' : same m')
    {a : α} (first : x m = .done a m₁) : same m₁ ∧ ∃ m₂, x m' = .done a m₂ ∧ same m₂ := by
  obtain ⟨ends, alike⟩ := h m hm
  have answered := alike m' hm'
  rw [first] at ends answered
  obtain ⟨m₂, second⟩ := Outcome.answer_done.1 answered
  have ends' := (h m' hm').1
  rw [second] at ends'
  exact ⟨ends, m₂, second, ends'⟩

theorem failed {x : Run ε α} (h : Steady same x) {m m' m₁ : Machine} (hm : same m) (hm' : same m')
    {e : ε} (first : x m = .failed e m₁) : same m₁ ∧ ∃ m₂, x m' = .failed e m₂ ∧ same m₂ := by
  obtain ⟨ends, alike⟩ := h m hm
  have answered := alike m' hm'
  rw [first] at ends answered
  obtain ⟨m₂, second⟩ := Outcome.answer_failed.1 answered
  have ends' := (h m' hm').1
  rw [second] at ends'
  exact ⟨ends, m₂, second, ends'⟩

theorem exhausted {x : Run ε α} (h : Steady same x) {m m' : Machine} (hm : same m)
    (hm' : same m') (first : x m = .exhausted) : x m' = .exhausted := by
  have answered := (h m hm).2 m' hm'
  rw [first] at answered
  exact Outcome.answer_exhausted.1 answered

theorem pure (a : α) : Steady same (Pure.pure a : Run ε α) := fun _ hm => ⟨hm, fun _ _ => rfl⟩

theorem throw (e : ε) : Steady same (Run.throw e : Run ε α) := fun _ hm => ⟨hm, fun _ _ => rfl⟩

theorem ofExcept (r : Except ε α) : Steady same (Run.ofExcept r) := by
  cases r with
  | ok a => exact pure a
  | error e => exact throw e

/-- A computation that goes on after another one, be it done or failed. What follows has to be steady
for the values only that there can be. -/
theorem branch {x : Run ε α} {y : Run ε' β} {f : α → Run ε' β} {g : ε → Run ε' β}
    (goes : ∀ m, y m = (x m).andThen (fun a => f a) fun e => g e) (hx : Steady same x)
    (hf : ∀ a, (∃ m m', same m ∧ x m = .done a m') → Steady same (f a))
    (hg : ∀ e, Steady same (g e)) : Steady same y := by
  intro m hm
  rw [goes]
  cases first : x m with
  | done a m₁ =>
    obtain ⟨ends, alike⟩ := hf a ⟨m, m₁, hm, first⟩ m₁ (hx.done hm hm first).1
    refine ⟨ends, fun m' hm' => ?_⟩
    obtain ⟨-, m₂, second, same₂⟩ := hx.done hm hm' first
    rw [goes, second]
    exact alike m₂ same₂
  | failed e m₁ =>
    obtain ⟨ends, alike⟩ := hg e m₁ (hx.failed hm hm first).1
    refine ⟨ends, fun m' hm' => ?_⟩
    obtain ⟨-, m₂, second, same₂⟩ := hx.failed hm hm' first
    rw [goes, second]
    exact alike m₂ same₂
  | exhausted =>
    refine ⟨trivial, fun m' hm' => ?_⟩
    rw [goes, hx.exhausted hm hm' first]

theorem bind {x : Run ε α} {f : α → Run ε β} (hx : Steady same x)
    (hf : ∀ a, (∃ m m', same m ∧ x m = .done a m') → Steady same (f a)) :
    Steady same (x >>= f) :=
  .branch (fun m => bind_apply m x f) hx hf .throw

theorem attempt {x : Run ε α} (hx : Steady same x) :
    Steady same (x.attempt : Run ε' (Except ε α)) :=
  .branch (fun m => attempt_apply m x) hx (fun _ _ => .pure _) fun _ => .pure _

theorem mapError (f : ε → ε') {x : Run ε α} (hx : Steady same x) : Steady same (x.mapError f) :=
  .branch (fun m => mapError_apply m x f) hx (fun _ _ => .pure _) fun _ => .throw _

end Run.Steady

end Lua

/-- Where the segments of a name lead from the library depends on the library only. The induction is
on the segments; the value of each is no table, or another table of the library. -/
theorem leadsToFunction_pristine (segments : List String) {v : Value} (initial : v.isInitial = true) :
    ∃ leads, ∀ m : Machine, m.Pristine → leadsToFunction segments v m = .done leads m := by
  induction segments generalizing v with
  | nil => cases v <;> exact ⟨_, fun _ _ => rfl⟩
  | cons segment rest ih =>
    cases v with
    | table r =>
      have low : r < initialTables.length := of_decide_eq_true initial
      have within : ((initialTables.getD r {}).field segment).isInitial = true := by
        by_cases there : (initialTables.getD r {}).field segment = .nil
        · rw [there]
          rfl
        · exact (initial_named there).2
      obtain ⟨leads, onwards⟩ := ih within
      refine ⟨leads, fun m h => ?_⟩
      simp only [leadsToFunction, bind_apply, attempt_apply, lifted, code_apply, Code.exec_explain,
        h.indexed low, Outcome.andThen_done]
      exact onwards m h
    | _ => exact ⟨_, fun _ _ => rfl⟩

theorem isGlobalFunction_steady {same : Machine → Prop} (pristine : ∀ m, same m → m.Pristine)
    (path : String) : Steady same (isGlobalFunction path) := by
  obtain ⟨leads, found⟩ := leadsToFunction_pristine (Text.split '.' path) (v := .table globalsRef)
    (by decide)
  have found' (m : Machine) (hm : same m) : isGlobalFunction path m = .done leads m :=
    found m (pristine m hm)
  intro m hm
  refine ⟨?_, fun m' hm' => ?_⟩
  · rw [found' m hm]
    exact hm
  · rw [found' m hm, found' m' hm']
    rfl

/-- A placeholder that only reads names takes all machines for one that have the library as it was at
the start, when it comes to a value or to an unbound name. -/
theorem Describes.steady {depth : Nat} {source : String} {t : Reading Plain} {bindings : Bindings}
    (describes : Describes depth source t) (clear : bindings.Clear) (positive : 1 ≤ depth)
    (comes : t.run bindings.sight ≠ .stops) :
    Steady Machine.Pristine (evaluate source bindings) := by
  have evaluated (m : Machine) (h : m.Pristine) :=
    evaluate_describes clear h.toFresh positive describes
  cases came : t.run bindings.sight with
  | gives p =>
    simp only [came] at evaluated
    intro m h
    obtain ⟨m₁, first, retains⟩ := evaluated m h
    rw [first]
    refine ⟨h.kept retains, fun m' h' => ?_⟩
    obtain ⟨m₂, second, -⟩ := evaluated m' h'
    rw [second]
    rfl
  | unbound name =>
    simp only [came] at evaluated
    intro m h
    obtain ⟨m₁, first, retains⟩ := evaluated m h
    rw [first]
    refine ⟨h.kept retains, fun m' h' => ?_⟩
    obtain ⟨m₂, second, -⟩ := evaluated m' h'
    rw [second]
    rfl
  | stops => exact absurd came comes
  | unknown =>
    refine absurd came (Reading.run_known (fun name => ?_) t)
    unfold Bindings.sight
    split <;> nofun

/-- A name that is none of the library is such a placeholder, unless it is known and stands for data
that is not plain. -/
theorem IsName.steady {source name : String} {bindings : Bindings} (is_ : IsName source name)
    (new : name ∉ libraryNames) (clear : bindings.Clear)
    (plain : ∀ j, bindings.sight name = .data j → j.plain? ≠ none) :
    Steady Machine.Pristine (evaluate source bindings) := by
  have describes : Describes 1 source (.ofName name) := is_.describes new (by decide)
  refine describes.steady clear (Nat.le_refl 1) ?_
  rw [Reading.ofName, Reading.run]
  cases sight : bindings.sight name with
  | unbound => simp
  | other => simp
  | data j =>
    cases shown : j.plain? with
    | none => exact absurd shown (plain j sight)
    | some p => simp [shown, Reading.run]

/-! ## Folding -/

namespace Folder

variable {same : Machine → Prop} {f : Folder}

theorem tryEval_steady {source : String} (placeholder : Steady same (evaluate source f.bindings)) :
    Steady same (f.tryEval source) := by
  refine .bind placeholder.attempt fun r _ => ?_
  split
  · exact .pure _
  · split
    · exact .pure _
    · exact .throw _
  · exact .throw _

theorem foldSegments_steady {segments : List Segment}
    (placeholders : ∀ source, .expr source ∈ segments → Steady same (evaluate source f.bindings)) :
    Steady same (f.foldSegments segments) := by
  induction segments with
  | nil => exact .pure _
  | cons segment rest ih =>
    have others := ih fun source there => placeholders source (.tail _ there)
    cases segment with
    | text t => exact .bind others fun _ _ => .pure _
    | expr source =>
      refine .bind (tryEval_steady (placeholders source (.head _))) fun found _ => ?_
      cases found <;> exact .bind others fun _ _ => .pure _

/-- What is folded against bindings, when evaluating every placeholder of it is steady. -/
def Calm (same : Machine → Prop) (f : Folder) (v : Json) : Prop :=
  ∀ source, v.HasPlaceholder source → Steady same (evaluate source f.bindings)

theorem Calm.within {v w : Json} (calm : f.Calm same w) (there : v.Contains w) : f.Calm same v :=
  fun source has => calm source (has.within there)

theorem fold_steady {text : String} (calm : f.Calm same (.str text)) :
    Steady same (f.fold text) := by
  refine .bind (.ofExcept _) fun segments ⟨m, m', _, parsed⟩ => ?_
  have placeholders (source : String) (there : .expr source ∈ segments) :=
    calm source ⟨text, segments, .here, (Compile.parsed_done.1 parsed).1, there⟩
  split
  · refine .bind (tryEval_steady (placeholders _ (.head _))) fun found _ => ?_
    cases found <;> exact .pure _
  · exact .bind (foldSegments_steady placeholders) fun _ _ => .pure _

theorem foldExpression_steady {text : String} (calm : f.Calm same (.str text)) :
    Steady same (f.foldExpression text) := by
  refine .bind (fold_steady calm) fun l _ => ?_
  split <;> exact .pure _

mutual

theorem reconstruct_steady {v : Json} (calm : f.Calm same v) : Steady same (f.reconstruct v) := by
  cases v with
  | str s => exact fold_steady calm
  | arr items =>
    exact .bind (reconstructAll_steady fun w there => calm.within (.arr there .here)) fun _ _ =>
      .pure _
  | obj entries =>
    exact .bind (reconstructEntries_steady fun e there => calm.within (.obj there .here)) fun _ _ =>
      .pure _
  | _ => exact .pure _

theorem reconstructAll_steady {vs : List Json} (calm : ∀ v ∈ vs, f.Calm same v) :
    Steady same (f.reconstructAll vs) := by
  cases vs with
  | nil => exact .pure _
  | cons v vs =>
    exact .bind (reconstruct_steady (calm v (.head _))) fun _ _ =>
      .bind (reconstructAll_steady fun w there => calm w (.tail _ there)) fun _ _ => .pure _

theorem reconstructEntries_steady {es : List (String × Json)} (calm : ∀ e ∈ es, f.Calm same e.2) :
    Steady same (f.reconstructEntries es) := by
  cases es with
  | nil => exact .pure _
  | cons e es =>
    exact .bind (reconstruct_steady (calm e (.head _))) fun _ _ =>
      .bind (reconstructEntries_steady fun w there => calm w (.tail _ there)) fun _ _ => .pure _

end

end Folder

/-! ## Tasks -/

namespace Compile

section Steps

variable {same : Machine → Prop} {c : Context} {target : Target} {args : List Json}

theorem declarations_steady {entries : List (String × Json)}
    (calm : ∀ e ∈ entries, c.folder.Calm same e.2) : Steady same (declarations c entries) := by
  induction entries with
  | nil => exact .pure _
  | cons e rest ih =>
    have others := ih fun e' there => calm e' (.tail _ there)
    have value := Folder.reconstruct_steady (calm e (.head _))
    unfold declarations
    split
    · exact .bind (.throw _) fun _ _ => .bind value fun _ _ => .bind others fun _ _ => .pure _
    · exact .bind value fun _ _ => .bind others fun _ _ => .pure _

theorem invocationSteps_steady (calm : ∀ arg ∈ args, c.folder.Calm same arg) :
    Steady same (invocationSteps c target args) := by
  unfold invocationSteps
  split
  · split
    · exact declarations_steady fun e there =>
        (calm _ (.head _)).within (.obj there .here)
    · exact .throw _
  · exact .bind (Folder.reconstructAll_steady calm) fun _ _ => .pure _
  · exact .bind (Folder.reconstructAll_steady calm) fun _ _ => .pure _

/-- The blocks of elements are steady when the arguments are in the block of each. -/
theorem elementBlocks_steady {index : Nat} {items : List Json}
    (calm : ∀ item ∈ items, c.folder.Calm same item)
    (inner : ∀ n item l m m', items[n]? = some item → same m →
      c.folder.reconstruct item m = .done l m' → ∀ arg ∈ args,
        (⟨elementBindings c (index + n) l, c.runtimeNames⟩ : Folder).Calm same arg) :
    Steady same (elementBlocks c target args index items) := by
  induction items generalizing index with
  | nil => exact .pure _
  | cons item rest ih =>
    have block : Steady same (elementBlock c target args index item) :=
      .bind (Folder.reconstruct_steady (calm item (.head _))) fun l ⟨m, m', hm, made⟩ =>
        .bind (invocationSteps_steady (inner 0 item l m m' rfl hm made)) fun _ _ => .pure _
    refine .bind block fun _ _ => .bind (ih (fun w there => calm w (.tail _ there)) ?_) fun _ _ =>
      .pure _
    intro n item l m m' there hm made
    rw [Nat.add_right_comm, Nat.add_assoc]
    exact inner (n + 1) item l m m' there hm made

end Steps

section Tasks

variable {options : CompileOptions} {registry : Registry} {same : Machine → Prop} {start : Machine}

/-- The bindings that placeholders of a task are folded against: what is known while compiling, and
in the block of an element also the element and its position. -/
inductive FoldedAgainst (options : CompileOptions) (same : Machine → Prop) (task : Task) :
    Bindings → Prop where
  | known : FoldedAgainst options same task options.publicContext.toBindings
  | element {items : List Json} {index : Nat} {item : Json} {l : Literal} {m m' : Machine} :
    task.loop = some (.arr items) → items[index]? = some item → same m →
    (⟨options.publicContext.toBindings, none⟩ : Folder).reconstruct item m = .done l m' →
    FoldedAgainst options same task (elementBindings (contextOf options {} 0 []) index l)

/-- Whether evaluating the placeholders of a task leaves the state of Lua unchanged: those of its
target and its module, and those of its arguments and of what it is repeated for. -/
structure Harmless (options : CompileOptions) (same : Machine → Prop) (task : Task) : Prop where
  rendered : ∀ text t, filled? task.use = some text ∨ filled? task.from_ = some text →
    Template.isTemplated text = true →
    Template.ofText text options.publicContext.toBindings.names = .ok t →
    Steady same (t.render options.publicContext.toBindings)
  folded : ∀ v source bindings, (v ∈ task.args ∨ task.loop = some v) → v.HasPlaceholder source →
    FoldedAgainst options same task bindings → Steady same (evaluate source bindings)

theorem renderPublic_steady {c : Context} {text : String}
    (rendered : ∀ t, Template.isTemplated text = true →
      Template.ofText text c.publicBindings.names = .ok t →
      Steady same (t.render c.publicBindings)) : Steady same (renderPublic c text) := by
  unfold renderPublic
  split
  · rename_i templated
    exact .bind (.ofExcept _) fun t ⟨m, m', _, parsed⟩ =>
      .mapError _ (rendered t templated (parsed_done.1 parsed).1)
  · exact .bind (.ofExcept _) fun _ _ => .pure _

theorem classify_steady (pristine : ∀ m, same m → m.Pristine) {k : Nat} {known : List String}
    {task : Task} (harmless : Harmless options same task) :
    Steady same (classify (contextOf options registry k known) task) := by
  have named : Steady same (targetName (contextOf options registry k known) task) := by
    unfold targetName
    split
    · rename_i text there
      exact .bind (renderPublic_steady fun t => harmless.rendered text t (.inl there)) fun _ _ =>
        .pure _
    · exact .pure _
  have sourced : Steady same (moduleName? (contextOf options registry k known) task) := by
    unfold moduleName?
    split
    · exact .pure _
    · rename_i text there
      exact .bind (renderPublic_steady fun t => harmless.rendered text t (.inr there)) fun _ _ =>
        .pure _
  have rooted (name : String) : Steady same (rootBinding name) := by
    unfold rootBinding
    dsimp only
    split
    · exact .pure _
    · exact .throw _
  refine .bind named fun name _ => ?_
  split
  · exact .pure _
  split
  · exact .pure _
  refine .bind sourced fun from_ _ => ?_
  cases from_ with
  | some from_ =>
    show Steady same (moduleTarget _ name from_)
    unfold moduleTarget
    dsimp only
    split
    · exact .pure _
    · exact .bind (rooted name) fun _ _ => .pure _
  | none =>
    show Steady same (if registry.contains name then _ else _)
    split
    · exact .bind (rooted name) fun _ _ => .pure _
    · refine .bind (.mapError _ (isGlobalFunction_steady pristine name)) fun is_ _ => ?_
      cases is_
      · exact .throw _
      · exact .pure _

theorem taskSteps_steady (lenient : options.strictNames = false) {k : Nat} {known : List String}
    {target : Target} {task : Task} (harmless : Harmless options same task) :
    Steady same (taskSteps (contextOf options registry k known) target task) := by
  have folder : (contextOf options registry k known).folder =
      ⟨options.publicContext.toBindings, none⟩ := by
    simp [Context.folder, contextOf, lenient]
  have calm (v : Json) (there : v ∈ task.args ∨ task.loop = some v) :
      (contextOf options registry k known).folder.Calm same v :=
    fun source has => harmless.folded v source _ there has .known
  have invocation : Steady same
      (invocationSteps (contextOf options registry k known) target task.args) :=
    invocationSteps_steady fun arg there => calm arg (.inl there)
  unfold taskSteps
  cases repeated : task.loop with
  | none => exact invocation
  | some source =>
    simp only
    unfold loopSteps
    split
    · rename_i text
      split
      · exact .bind (Folder.foldExpression_steady (calm _ (.inr repeated))) fun _ _ =>
          .bind invocation fun _ _ => .pure _
      · split <;> exact .throw _
    · rename_i items
      refine elementBlocks_steady (fun item there =>
        (calm _ (.inr repeated)).within (.arr there .here)) ?_
      intro n item l m m' there hm made arg mem source has
      rw [folder] at made
      rw [Nat.zero_add]
      exact harmless.folded arg source _ (.inl mem) has (.element repeated there hm made)
    · exact .throw _

theorem taskFragment_steady (lenient : options.strictNames = false)
    (pristine : ∀ m, same m → m.Pristine) (k : Nat) (known : List String) {task : Task}
    (harmless : Harmless options same task) :
    Steady same (taskFragment options registry k known task) :=
  .bind (classify_steady pristine harmless) fun _ _ =>
    .bind (.bind (taskSteps_steady lenient harmless) fun _ _ => .pure _) fun _ _ => .pure _

/-- Where all names may be unbound, it does not matter which ones are known. -/
theorem taskFragment_known (lenient : options.strictNames = false) (k : Nat)
    (known known' : List String) (task : Task) :
    taskFragment options registry k known task = taskFragment options registry k known' task := by
  have same_ (a b : List String) :
      contextOf options registry k a = contextOf options registry k b := by
    simp only [contextOf, lenient, Bool.false_eq_true, if_false]
  unfold taskFragment
  rw [same_ known known']
  refine congrArg _ (funext fun target => ?_)
  dsimp only
  rw [same_ (known ++ _) (known' ++ _)]

end Tasks

end Compile

/-! ## Lists -/

namespace Fragment

theorem append_assoc (f g h : Fragment) : f ++ g ++ h = f ++ (g ++ h) := by
  show append (append f g) h = append f (append g h)
  simp only [append, String.append_assoc, List.append_assoc]

theorem append_empty (f : Fragment) : f ++ {} = f := by
  show append f {} = f
  simp only [append, String.append_empty, List.append_nil]

/-- Fragments that are put together from the front are the same put together from the back. -/
theorem foldl_append (f : Fragment) (fragments : List Fragment) :
    fragments.foldl (· ++ ·) f = f ++ fragments.foldr (· ++ ·) {} := by
  induction fragments generalizing f with
  | nil => exact (append_empty f).symm
  | cons g rest ih => rw [List.foldl_cons, ih, List.foldr_cons, append_assoc]

/-- What comes after a fragment leaves its sections in front. -/
theorem prefix_append (f g : Fragment) : f.imports <+: (f ++ g).imports ∧
    f.steps <+: (f ++ g).steps ∧ f.diagnostics.toList <+: (f ++ g).diagnostics.toList := by
  refine ⟨List.prefix_append _ _, List.prefix_append _ _, ?_⟩
  show _ <+: (f.diagnostics ++ g.diagnostics).toList
  rw [String.toList_append]
  exact List.prefix_append _ _

end Fragment

namespace Compile

/-- One fragment after the other, or what is in the place of the first that is missing. -/
def joined : List (Option (Except CompileError Fragment)) → Option (Except CompileError Fragment)
  | [] => some (.ok {})
  | some (.ok f) :: rest => (joined rest).map fun r => r.map (f ++ ·)
  | first :: _ => first

theorem joined_ok {answers : List (Option (Except CompileError Fragment))} {f : Fragment} :
    joined answers = some (.ok f) ↔ ∃ fragments : List Fragment,
      answers = fragments.map (fun f => some (.ok f)) ∧ f = fragments.foldr (· ++ ·) {} := by
  induction answers generalizing f with
  | nil =>
    constructor
    · intro h
      cases h
      exact ⟨[], rfl, rfl⟩
    · rintro ⟨fragments, none, rfl⟩
      rw [List.map_eq_nil_iff.1 none.symm]
      rfl
  | cons answer rest ih =>
    constructor
    · intro h
      match answer with
      | none => cases h
      | some (.error e) => cases h
      | some (.ok g) =>
        simp only [joined, Option.map_eq_some_iff] at h
        obtain ⟨r, others, appended⟩ := h
        cases r with
        | error e => cases appended
        | ok f' =>
          cases appended
          obtain ⟨fragments, rfl, rfl⟩ := ih.1 others
          exact ⟨g :: fragments, rfl, rfl⟩
    · rintro ⟨fragments, all, rfl⟩
      cases fragments with
      | nil => cases all
      | cons g fragments =>
        cases all
        rw [joined, ih.2 ⟨fragments, rfl, rfl⟩]
        rfl

theorem joined_error {answers : List (Option (Except CompileError Fragment))} {e : CompileError} :
    joined answers = some (.error e) ↔ ∃ (fragments : List Fragment) (rest : _),
      answers = fragments.map (fun f => some (.ok f)) ++ some (.error e) :: rest := by
  induction answers with
  | nil => simp [joined]
  | cons answer rest ih =>
    constructor
    · intro h
      match answer with
      | none => cases h
      | some (.error e') =>
        cases h
        exact ⟨[], rest, rfl⟩
      | some (.ok g) =>
        simp only [joined, Option.map_eq_some_iff] at h
        obtain ⟨r, others, appended⟩ := h
        cases r with
        | ok f' => cases appended
        | error e' =>
          cases appended
          obtain ⟨fragments, rest, rfl⟩ := ih.1 others
          exact ⟨g :: fragments, rest, rfl⟩
    · rintro ⟨fragments, rest', all⟩
      cases fragments with
      | nil =>
        cases all
        rfl
      | cons g fragments =>
        cases all
        rw [joined, ih.2 ⟨fragments, rest', rfl⟩]
        rfl

/-- What a task comes to on its own, at a position, with a new compiler. -/
def alone (options : CompileOptions) (registry : Registry) (start : Machine) (k : Nat)
    (task : Task) : Option (Except CompileError Fragment) :=
  (taskFragment options registry k (startNames options.naming) task start).answer

/-- The program that is assembled from fragments, one after the other. -/
def assembly (options : CompileOptions) (fragments : List Fragment) : CompiledProgram :=
  (fragments.foldl (· ++ ·) (Fragment.start options.naming (options.indent + 2))).assemble
    options.naming

/-- One list compiled after the other, whether or not those before it could be compiled. -/
def compileEach (options : CompileOptions) (registry : Registry) :
    List (List Task) → Compiling (List (Except CompileError CompiledProgram))
  | [] => return []
  | tasks :: rest => do
    let answer ← (compile options registry tasks).attempt
    return answer :: (← compileEach options registry rest)

section Lists

variable {options : CompileOptions} {registry : Registry} {same : Machine → Prop} {start : Machine}
  (lenient : options.strictNames = false) (pristine : ∀ m, same m → m.Pristine)

include lenient pristine

theorem tasksFragment_steady (k : Nat) (known : List String) {tasks : List Task}
    (harmless : ∀ task ∈ tasks, Harmless options same task) :
    Steady same (tasksFragment options registry k known tasks) := by
  induction tasks generalizing k known with
  | nil => exact .pure _
  | cons task rest ih =>
    obtain ⟨first, others⟩ := List.forall_mem_cons.1 harmless
    exact .bind (taskFragment_steady lenient pristine k known first) fun _ _ =>
      .bind (ih _ _ others) fun _ _ => .pure _

/-- A list comes to what its tasks come to on their own. -/
theorem tasksFragment_answer (new : same start) (k : Nat) (known : List String) {tasks : List Task}
    (harmless : ∀ task ∈ tasks, Harmless options same task) {m : Machine} (hm : same m) :
    (tasksFragment options registry k known tasks m).answer =
      joined (tasks.mapIdx fun n task => alone options registry start (k + n) task) := by
  induction tasks generalizing k known m with
  | nil => rfl
  | cons task rest ih =>
    obtain ⟨first, others⟩ := List.forall_mem_cons.1 harmless
    have steady : Steady same (taskFragment options registry k known task) :=
      taskFragment_steady lenient pristine k known first
    have own : alone options registry start k task =
        (taskFragment options registry k known task m).answer := by
      rw [alone, taskFragment_known lenient k _ known]
      exact (steady m hm).2 start new
    rw [List.mapIdx_cons, Nat.add_zero, own]
    simp only [tasksFragment, bind_apply]
    cases ended : taskFragment options registry k known task m with
    | failed e m₁ => rfl
    | exhausted => rfl
    | done f m₁ =>
      have onwards := ih (k + 1) (known ++ f.boundNames) others (steady.done hm hm ended).1
      simp only [Nat.add_assoc, Nat.add_comm 1] at onwards
      simp only [Outcome.andThen_done, Outcome.answer, joined, ← onwards]
      cases tasksFragment options registry (k + 1) (known ++ f.boundNames) rest m₁ <;> rfl

theorem compile_steady {tasks : List Task} (harmless : ∀ task ∈ tasks, Harmless options same task) :
    Steady same (compile options registry tasks) :=
  .bind (tasksFragment_steady lenient pristine 0 _ harmless) fun _ _ => .pure _

variable (new : same start)

include new

/-- The answer of a compiler is assembled from what the tasks come to on their own. -/
theorem compile_answer {tasks : List Task} (harmless : ∀ task ∈ tasks, Harmless options same task) :
    (compile options registry tasks start).answer =
      (joined (tasks.mapIdx (alone options registry start))).map fun r => r.map fun f =>
        (Fragment.start options.naming (options.indent + 2) ++ f).assemble options.naming := by
  have answer : (tasksFragment options registry 0 (startNames options.naming) tasks start).answer = _ :=
    tasksFragment_answer lenient pristine new 0 _ harmless new
  simp only [Nat.zero_add] at answer
  rw [compile_eq, ← answer]
  cases tasksFragment options registry 0 (startNames options.naming) tasks start <;> rfl

theorem compile_ok {tasks : List Task} (harmless : ∀ task ∈ tasks, Harmless options same task)
    {p : CompiledProgram} : (compile options registry tasks start).answer = some (.ok p) ↔
      ∃ fragments : List Fragment, tasks.mapIdx (alone options registry start) =
        fragments.map (fun f => some (.ok f)) ∧ p = assembly options fragments := by
  rw [compile_answer lenient pristine new harmless]
  simp only [Option.map_eq_some_iff, assembly, Fragment.foldl_append]
  constructor
  · rintro ⟨r, together, assembled⟩
    cases r with
    | error e => cases assembled
    | ok f =>
      obtain ⟨fragments, all, rfl⟩ := joined_ok.1 together
      cases assembled
      exact ⟨fragments, all, rfl⟩
  · rintro ⟨fragments, all, rfl⟩
    exact ⟨_, joined_ok.2 ⟨fragments, all, rfl⟩, rfl⟩

theorem compile_error {tasks : List Task} (harmless : ∀ task ∈ tasks, Harmless options same task)
    {e : CompileError} : (compile options registry tasks start).answer = some (.error e) ↔
      ∃ before task after, tasks = before ++ task :: after ∧
        (∃ fragments : List Fragment, before.mapIdx (alone options registry start) =
          fragments.map fun f => some (.ok f)) ∧
        alone options registry start before.length task = some (.error e) := by
  rw [compile_answer lenient pristine new harmless]
  simp only [Option.map_eq_some_iff]
  constructor
  · rintro ⟨r, together, failed⟩
    cases r with
    | ok f => cases failed
    | error e' =>
      cases failed
      obtain ⟨fragments, rest, all⟩ := joined_error.1 together
      obtain ⟨before, others, rfl, own, onwards⟩ := List.mapIdx_eq_append_iff.1 all
      obtain ⟨task, after, rfl, first, -⟩ := List.mapIdx_eq_cons_iff.1 onwards
      rw [Nat.zero_add] at first
      exact ⟨before, task, after, rfl, ⟨fragments, own⟩, first⟩
  · rintro ⟨before, task, after, rfl, ⟨fragments, own⟩, first⟩
    refine ⟨_, joined_error.2 ⟨fragments, after.mapIdx fun n =>
      alone options registry start (n + 1 + before.length), ?_⟩, rfl⟩
    rw [List.mapIdx_append, own, List.mapIdx_cons, Nat.zero_add, first]

/-- One list after the other gives what a new compiler gives for each. -/
theorem compileEach_answer {lists : List (List Task)}
    (harmless : ∀ tasks ∈ lists, ∀ task ∈ tasks, Harmless options same task) {m : Machine}
    (hm : same m) : (compileEach options registry lists m).answer =
      (lists.mapM fun tasks => (compile options registry tasks start).answer).map .ok := by
  induction lists generalizing m with
  | nil => rfl
  | cons tasks rest ih =>
    obtain ⟨first, others⟩ := List.forall_mem_cons.1 harmless
    have steady : Steady same (compile options registry tasks) :=
      compile_steady lenient pristine first
    -- Whether the first list is compiled or fails, the others follow in a state that is the same.
    have onwards (r : Except CompileError CompiledProgram) {m₁ : Machine} (hm₁ : same m₁) :
        ((compileEach options registry rest m₁).andThen (fun rs => .done (r :: rs)) .failed).answer =
          (rest.mapM (fun tasks => (compile options registry tasks start).answer) >>= fun rs =>
            Pure.pure (r :: rs)).map .ok := by
      have later := ih others hm₁
      generalize (rest.mapM fun tasks => (compile options registry tasks start).answer) = answers
        at later ⊢
      generalize compileEach options registry rest m₁ = o at later ⊢
      cases o <;> cases answers <;> cases later <;> rfl
    rw [List.mapM_cons, ← (steady start new).2 m hm]
    simp only [compileEach, bind_apply, attempt_apply]
    cases ended : compile options registry tasks m with
    | exhausted => rfl
    | done p m₁ => exact onwards (.ok p) (steady.done hm hm ended).1
    | failed e m₁ => exact onwards (.error e) (steady.failed hm hm ended).1

end Lists

/-- Compiling is local. While evaluating placeholders leaves the state of Lua unchanged, a compiler
without strict names that is given one list after the other gives for each what a new compiler gives.
This is the program that is assembled from what the tasks give on their own at their positions, or the
error of the first task that fails on its own. An error is the same whatever tasks come after it, and
the sections of the program for the first tasks stand at the front of those for all. -/
theorem compiles_task_by_task {options : CompileOptions} {registry : Registry}
    {same : Machine → Prop} {start : Machine} (lenient : options.strictNames = false)
    (pristine : ∀ m, same m → m.Pristine) (new : same start) :
    (∀ lists, (∀ tasks ∈ lists, ∀ task ∈ tasks, Harmless options same task) →
      (compileEach options registry lists start).answer =
        (lists.mapM fun tasks => (compile options registry tasks start).answer).map .ok) ∧
    ∀ tasks, (∀ task ∈ tasks, Harmless options same task) →
      (∀ p, (compile options registry tasks start).answer = some (.ok p) ↔
        ∃ fragments : List Fragment, tasks.mapIdx (alone options registry start) =
          fragments.map (fun f => some (.ok f)) ∧ p = assembly options fragments) ∧
      (∀ e, (compile options registry tasks start).answer = some (.error e) ↔
        ∃ before task after, tasks = before ++ task :: after ∧
          (∃ fragments : List Fragment, before.mapIdx (alone options registry start) =
            fragments.map fun f => some (.ok f)) ∧
          alone options registry start before.length task = some (.error e)) ∧
      ∀ before after, tasks = before ++ after →
        (∀ e, (compile options registry before start).answer = some (.error e) →
          (compile options registry tasks start).answer = some (.error e)) ∧
        ∀ p, (compile options registry tasks start).answer = some (.ok p) →
          ∃ p', (compile options registry before start).answer = some (.ok p') ∧
            p'.program.imports <+: p.program.imports ∧ p'.program.steps <+: p.program.steps ∧
            p'.diagnostics.toList <+: p.diagnostics.toList := by
  refine ⟨fun lists harmless => compileEach_answer lenient pristine new harmless new,
    fun tasks harmless => ⟨fun p => compile_ok lenient pristine new harmless,
      fun e => compile_error lenient pristine new harmless, ?_⟩⟩
  rintro before after rfl
  have front : ∀ task ∈ before, Harmless options same task :=
    fun task there => harmless task (List.mem_append_left after there)
  constructor
  · intro e failed
    obtain ⟨earlier, task, later, rfl, own, first⟩ :=
      (compile_error lenient pristine new front).1 failed
    refine (compile_error lenient pristine new harmless).2
      ⟨earlier, task, later ++ after, ?_, own, first⟩
    rw [List.append_assoc, List.cons_append]
  · intro p compiled
    obtain ⟨fragments, all, rfl⟩ := (compile_ok lenient pristine new harmless).1 compiled
    rw [List.mapIdx_append] at all
    obtain ⟨own, others, rfl, first, -⟩ := List.map_eq_append_iff.1 all.symm
    refine ⟨_, (compile_ok lenient pristine new front).2 ⟨own, first.symm, rfl⟩, ?_⟩
    simp only [assembly, List.foldl_append]
    rw [Fragment.foldl_append _ others]
    exact Fragment.prefix_append _ _

/-! ## A list after one that fails -/

namespace TwoLists

/-- A loop whose element is known while compiling. -/
def repeated : Task where
  use := some "print"
  args := [.str "${item}"]
  loop := some (.arr [.str "a", .str "b"])

/-- Tasks of which the second has no target. -/
def broken : List Task := [repeated, { use := some "missing" }]

/-- Tasks of which the second reads a name that is not known while compiling. -/
def fine : List Task := [repeated, { use := some "print", args := [.str "${port}"] }]

section Runs

set_option maxRecDepth 100000

theorem is_item : IsName "item" "item" := ⟨by decide, by decide, by cbv⟩

theorem is_port : IsName "port" "port" := ⟨by decide, by decide, by cbv⟩

theorem apart : ∀ name ∈ ["build", "index", "item", "port"], name ∉ libraryNames := by
  decide

theorem placeholders : ∀ text ∈ ["${item}", "${port}", "a", "b"],
    (match Template.parse text with
      | .ok segments => (Template.expressions segments).all ["item", "port"].contains
      | .error _ => false) = true := by
  decide +kernel

theorem plainly : filled? (some "print") = some "print" ∧ filled? (some "missing") = some "missing" ∧
    Template.isTemplated "print" = false ∧ Template.isTemplated "missing" = false := by
  decide

theorem compiles : (compileEach {} {} [broken, fine] (Machine.initial {})).passes (fun answers _ =>
    match answers with
    | [.error (.unresolvedTarget "missing"), .ok p] => p.program.steps.length == 3
    | _ => false) = true := by
  decide +kernel

end Runs

theorem known_clear : Bindings.Clear (PublicContext.toBindings {}) :=
  ⟨by decide, fun name there => apart name (by simp_all [PublicContext.toBindings, Bindings.names])⟩

/-- What stands for the two names is plain, if anything does: an element of the loop is a text. -/
theorem folded_plain {task : Task} (repeats : task.loop = none ∨ task = repeated)
    {bindings : Bindings} (against : FoldedAgainst {} Machine.Pristine task bindings) :
    bindings.Clear ∧ ∀ name ∈ ["item", "port"], ∀ j, bindings.sight name = .data j →
      j.plain? ≠ none := by
  have unknown : ∀ name ∈ ["item", "port"],
      Bindings.sight (PublicContext.toBindings {}) name = .unbound := by
    simp [Bindings.sight, Bindings.get?, PublicContext.toBindings, List.lookup]
  cases against with
  | known =>
    refine ⟨known_clear, fun name there j sight => ?_⟩
    rw [CompileOptions.publicContext, unknown name there] at sight
    cases sight
  | @element items index item l m m' loop at_ _ made =>
    have same : task = repeated := repeats.resolve_left fun once => by
      rw [once] at loop
      cases loop
    subst same
    cases loop
    have text : ∃ s, item = .str s ∧ item.Clean := by
      have there := List.mem_of_getElem? at_
      simp only [List.mem_cons, List.not_mem_nil, or_false] at there
      rcases there with rfl | rfl <;> exact ⟨_, rfl, by rw [Json.Clean]; decide⟩
    obtain ⟨s, rfl, clean⟩ := text
    obtain ⟨l', built, known⟩ :=
      (⟨PublicContext.toBindings {}, none⟩ : Folder).reconstruct_clean m clean
    cases built.symm.trans made
    rw [elementBindings, known]
    refine ⟨(known_clear.insert (apart _ (by decide)) _).insert (apart _ (by decide)) _,
      fun name there j sight => ?_⟩
    have other : name ≠ "index" := by
      rintro rfl
      exact absurd there (by decide)
    simp only [contextOf, Bindings.sight_insert, other, if_false, unknown name there] at sight
    split at sight
    · cases sight
      simp [Json.plain?]
    · cases sight

theorem harmless_of {task : Task} (use : task.use = some "print" ∨ task.use = some "missing")
    (from_ : task.from_ = none) (repeats : task.loop = none ∨ task = repeated)
    (asks : ∀ v, (v ∈ task.args ∨ task.loop = some v) → ∀ source, v.HasPlaceholder source →
      source ∈ ["item", "port"]) : Harmless {} Machine.Pristine task where
  rendered text t there templated := by
    obtain ⟨print, missing, plain, plain'⟩ := plainly
    rw [from_] at there
    rcases use with use | use
    · rw [use, print] at there
      rcases there with there | there <;> cases there
      rw [plain] at templated
      cases templated
    · rw [use, missing] at there
      rcases there with there | there <;> cases there
      rw [plain'] at templated
      cases templated
  folded v source bindings there has against := by
    obtain ⟨clear, plain⟩ := folded_plain repeats against
    have name := asks v there source has
    have new := apart source (List.mem_cons_of_mem _ ?_)
    · refine IsName.steady ?_ new clear (plain source name)
      rcases List.mem_cons.1 name with rfl | name
      · exact is_item
      · rw [List.mem_singleton.1 name]
        exact is_port
    · revert name
      simp
      tauto

theorem asks {text source : String} (there : text ∈ ["${item}", "${port}", "a", "b"])
    {segments : List Segment} (parsed : Template.parse text = .ok segments)
    (left : .expr source ∈ segments) : source ∈ ["item", "port"] := by
  have all := placeholders text there
  simp only [parsed, List.all_eq_true] at all
  exact List.contains_iff_mem.1 (all source (List.mem_filterMap.2 ⟨_, left, rfl⟩))

theorem asks_repeated : ∀ v, (v ∈ repeated.args ∨ repeated.loop = some v) → ∀ source,
    v.HasPlaceholder source → source ∈ ["item", "port"] := by
  rintro v (there | there) source ⟨text, segments, inside, parsed, left⟩
  · cases List.mem_singleton.1 there
    cases inside
    exact asks (by decide) parsed left
  · cases there
    cases inside with
    | arr there inside =>
      simp only [List.mem_cons, List.not_mem_nil, or_false] at there
      rcases there with rfl | rfl <;> cases inside <;> exact asks (by decide) parsed left

/-- Evaluating the placeholders of both lists leaves the library as it is. -/
theorem harmless : ∀ tasks ∈ [broken, fine], ∀ task ∈ tasks,
    Harmless {} Machine.Pristine task := by
  have first : Harmless {} Machine.Pristine repeated :=
    harmless_of (.inl rfl) rfl (.inr rfl) asks_repeated
  have missing : Harmless {} Machine.Pristine { use := some "missing" } :=
    harmless_of (.inr rfl) rfl (.inl rfl) (by rintro v (there | there) <;> cases there)
  have second : Harmless {} Machine.Pristine { use := some "print", args := [.str "${port}"] } := by
    refine harmless_of (.inl rfl) rfl (.inl rfl) ?_
    rintro v (there | there) source ⟨text, segments, inside, parsed, left⟩
    · cases List.mem_singleton.1 there
      cases inside
      exact asks (by decide) parsed left
    · cases there
  simp only [List.forall_mem_cons, List.not_mem_nil, broken, fine]
  exact ⟨⟨first, missing, nofun⟩, ⟨first, second, nofun⟩, nofun⟩

/-- The list after the one that fails gives what a new compiler gives. -/
theorem compiles_after_failure : ∃ p m, compileEach {} {} [broken, fine] (Machine.initial {}) =
      .done [.error (.unresolvedTarget "missing"), .ok p] m ∧ p.program.steps.length = 3 ∧
    (∃ before task after, broken = before ++ task :: after ∧
      alone {} {} (Machine.initial {}) before.length task =
        some (.error (.unresolvedTarget "missing"))) ∧
    ∃ fragments : List Fragment, fine.mapIdx (alone {} {} (Machine.initial {})) =
      fragments.map (fun f => some (.ok f)) ∧ p = assembly {} fragments := by
  obtain ⟨answers, m, ran, shape⟩ := Outcome.passes_iff.1 compiles
  split at shape
  · rename_i p
    obtain ⟨each, of_tasks⟩ := @compiles_task_by_task {} {} Machine.Pristine (Machine.initial {})
      rfl (fun _ h => h) (Machine.pristine_initial {})
    have answers := each [broken, fine] harmless
    rw [ran] at answers
    have own : (compile {} {} broken (Machine.initial {})).answer =
          some (.error (.unresolvedTarget "missing")) ∧
        (compile {} {} fine (Machine.initial {})).answer = some (.ok p) := by
      rw [List.mapM_cons, List.mapM_cons, List.mapM_nil] at answers
      generalize (compile {} {} broken (Machine.initial {})).answer = first at answers ⊢
      generalize (compile {} {} fine (Machine.initial {})).answer = second at answers ⊢
      cases first <;> cases second <;> cases answers
      exact ⟨rfl, rfl⟩
    obtain ⟨first, second⟩ := own
    obtain ⟨-, fails, -⟩ := of_tasks broken (harmless _ (.head _))
    obtain ⟨succeeds, -, -⟩ := of_tasks fine (harmless _ (.tail _ (.head _)))
    obtain ⟨before, task, after, split_, -, own⟩ := (fails _).1 first
    exact ⟨p, m, ran, by simpa using shape, ⟨before, task, after, split_, own⟩,
      (succeeds p).1 second⟩
  · cases shape

end TwoLists

end Compile

end Tasklang
