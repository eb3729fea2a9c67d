import Tasklang.Proofs.Parts

/-! # Refusing names that are never bound

A strict compiler refuses a placeholder that reads an unbound name, unless the name is one of those
that programs are known to bind as they run; a lenient compiler defers it. Up to the first such
placeholder the two do the same, so that a strict compiler only filters what a lenient one compiles.
-/

namespace Tasklang

open Lua Lua.Run

/-- A literal that leaves a placeholder to be evaluated. -/
inductive Literal.Holds (source : String) : Literal → Prop where
  | deferred {segments} : .expr source ∈ segments → Holds source (.deferred segments)
  | expr : Holds source (.expr source)
  | seq {l items} : l ∈ items → Holds source l → Holds source (.seq items)
  | map {e entries} : e ∈ entries → Holds source e.2 → Holds source (.map entries)

/-- The literals that a step evaluates itself. -/
def Step.literals : Step → List Literal
  | .declare _ value => [value]
  | .call _ args => args
  | .command _ args => args
  | .loop source _ => [source]
  | .block _ => []

namespace Execution

/-- Steps that leave a placeholder to be evaluated, themselves or in their loops and blocks. -/
inductive Evaluates (source : String) : List Step → Prop where
  | own {step steps l} : step ∈ steps → l ∈ step.literals → l.Holds source → Evaluates source steps
  | block {body steps} : .block body ∈ steps → Evaluates source body → Evaluates source steps
  | loop {list body steps} : .loop list body ∈ steps → Evaluates source body →
    Evaluates source steps

namespace Evaluates

variable {source : String} {step : Step} {steps body : List Step}

theorem mono {steps' : List Step} (sub : steps ⊆ steps') (h : Evaluates source steps) :
    Evaluates source steps' := by
  cases h with
  | own there of holds => exact .own (sub there) of holds
  | block there inner => exact .block (sub there) inner
  | loop there inner => exact .loop (sub there) inner

/-- What is left to be evaluated within some steps is left by them. -/
theorem within (inside : Within steps body) (h : Evaluates source body) :
    Evaluates source steps := by
  induction inside with
  | here => exact h
  | block _ there ih => exact ih (.block there h)
  | loop _ there ih => exact ih (.loop there h)

/-- What is left to be evaluated is left by a literal of a step, somewhere within. -/
theorem inside (h : Evaluates source steps) :
    ∃ body step l, Within steps body ∧ step ∈ body ∧ l ∈ step.literals ∧ l.Holds source := by
  induction h with
  | own there of holds => exact ⟨_, _, _, .here, there, of, holds⟩
  | block there _ ih =>
    obtain ⟨body, step, l, within, own⟩ := ih
    exact ⟨body, step, l, (Within.here.block there).trans within, own⟩
  | loop there _ ih =>
    obtain ⟨body, step, l, within, own⟩ := ih
    exact ⟨body, step, l, (Within.here.loop there).trans within, own⟩

theorem not_nil (h : Evaluates source []) : False := by
  cases h with
  | own there | block there | loop there => cases there

theorem of_cons (h : Evaluates source (step :: steps)) :
    Evaluates source [step] ∨ Evaluates source steps := by
  cases h with
  | own there of holds =>
    rcases List.mem_cons.1 there with rfl | there
    · exact .inl (.own (.head _) of holds)
    · exact .inr (.own there of holds)
  | block there inner =>
    rcases List.mem_cons.1 there with rfl | there
    · exact .inl (.block (.head _) inner)
    · exact .inr (.block there inner)
  | loop there inner =>
    rcases List.mem_cons.1 there with rfl | there
    · exact .inl (.loop (.head _) inner)
    · exact .inr (.loop there inner)

/-- A single step leaves what it evaluates itself, or what its body leaves. -/
theorem of_single (h : Evaluates source [step]) : (∃ l ∈ step.literals, l.Holds source) ∨
    ∃ body, Evaluates source body ∧ (step = .block body ∨ ∃ list, step = .loop list body) := by
  cases h with
  | own there of holds =>
    cases List.mem_singleton.1 there
    exact .inl ⟨_, of, holds⟩
  | block there inner => exact .inr ⟨_, inner, .inl (List.mem_singleton.1 there).symm⟩
  | loop there inner => exact .inr ⟨_, inner, .inr ⟨_, (List.mem_singleton.1 there).symm⟩⟩

theorem of_declare {name : String} {value : Literal}
    (h : Evaluates source [.declare name value]) : value.Holds source := by
  rcases h.of_single with ⟨l, of, holds⟩ | ⟨body, -, same | ⟨list, same⟩⟩
  · exact List.mem_singleton.1 of ▸ holds
  · cases same
  · cases same

end Evaluates

end Execution

namespace Compile

open Execution (Evaluates Within)

/-- Whether the evaluation of a placeholder, against bindings of some kind, came upon an unbound
name. -/
def Misses (against : Bindings → Prop) (source name : String) : Prop :=
  ∃ bindings m m', against bindings ∧ evaluate source bindings m = .failed (.unbound name) m'

/-- Whether the evaluation of a placeholder came upon one of some names that may be unbound. -/
def Deferred (against : Bindings → Prop) (names : List String) (source : String) : Prop :=
  ∃ name ∈ names, Misses against source name

/-- A computation of a strict compiler next to that of a lenient one. Either they do the same, and
every placeholder that is left to be evaluated was deferred for one of the names; or the strict one
refuses another name, and the lenient one leaves the placeholder to be evaluated that reads it. -/
def Filters {α : Type} (against : Bindings → Prop) (names : List String) (leaves : String → α → Prop)
    (strict lenient : Compiling α) : Prop :=
  ∀ m, (strict m = lenient m ∧
      ∀ a m', lenient m = .done a m' → ∀ source, leaves source a → Deferred against names source) ∨
    ∃ name source m', strict m = .failed (.undefinedName name) m' ∧ name ∉ names ∧
      Misses against source name ∧ ∀ a m'', lenient m = .done a m'' → leaves source a

namespace Filters

variable {α β : Type} {against : Bindings → Prop} {names : List String} {leaves : String → α → Prop}
  {leaves' : String → β → Prop}

theorem pure {a : α} (nothing : ∀ source, leaves source a → Deferred against names source) :
    Filters against names leaves (Pure.pure a) (Pure.pure a) := by
  intro m
  refine .inl ⟨rfl, fun a' m' done => ?_⟩
  cases done
  exact nothing

theorem throw (e : CompileError) : Filters against names leaves (Run.throw e) (Run.throw e) :=
  fun _ => .inl ⟨rfl, nofun⟩

theorem bind {x y : Compiling α} {f g : α → Compiling β} (first : Filters against names leaves x y)
    (next : ∀ a, (∀ source, leaves source a → Deferred against names source) →
      Filters against names leaves' (f a) (g a))
    (kept : ∀ source a m b m', leaves source a → g a m = .done b m' → leaves' source b) :
    Filters against names leaves' (x >>= f) (y >>= g) := by
  intro m
  rw [bind_apply, bind_apply]
  rcases first m with ⟨same, deferred⟩ | ⟨name, source, m', refused, unknown, misses, left⟩
  · rw [same]
    cases lenient : y m with
    | done a m₁ => exact next a (deferred a m₁ lenient) m₁
    | failed e m₁ => exact .inl ⟨rfl, nofun⟩
    | exhausted => exact .inl ⟨rfl, nofun⟩
  · refine .inr ⟨name, source, m', by rw [refused]; rfl, unknown, misses, fun b m'' done => ?_⟩
    cases lenient : y m with
    | done a m₁ =>
      rw [lenient] at done
      exact kept source a m₁ b m'' (left a m₁ lenient) done
    | failed e m₁ =>
      rw [lenient] at done
      cases done
    | exhausted =>
      rw [lenient] at done
      cases done

/-- A sequence whose first part is the same for both, and leaves nothing. -/
theorem after (x : Compiling α) {f g : α → Compiling β}
    (next : ∀ a, Filters against names leaves' (f a) (g a)) : Filters against names leaves' (x >>= f) (x >>= g) := by
  intro m
  rw [bind_apply, bind_apply]
  cases x m with
  | done a m₁ => exact next a m₁
  | failed e m₁ => exact .inl ⟨rfl, nofun⟩
  | exhausted => exact .inl ⟨rfl, nofun⟩

/-- What the result of a computation is put into leaves what the result leaves, and besides only
what was deferred. -/
theorem map {x y : Compiling α} (f : α → β) (h : Filters against names leaves x y)
    (kept : ∀ source a, leaves source a → leaves' source (f a))
    (only : ∀ source a, leaves' source (f a) → leaves source a ∨ Deferred against names source) :
    Filters against names leaves' (do return f (← x)) (do return f (← y)) := by
  refine h.bind (fun a deferred => pure fun source left => ?_) fun source a m b m' left done => ?_
  · exact (only source a left).elim (deferred source) id
  · cases done
    exact kept source a left

end Filters

section Folding

variable {against : Bindings → Prop} {bindings : Bindings} (names : List String)

/-- A placeholder that a strict folder refuses is deferred by a lenient one. -/
theorem tryEval_filters (known : against bindings) (source : String) :
    Filters against names (fun source' found => source' = source ∧ found = none)
      ((⟨bindings, some names⟩ : Folder).tryEval source)
      ((⟨bindings, none⟩ : Folder).tryEval source) := by
  intro m
  simp only [Folder.tryEval, bind_apply, attempt_apply]
  cases evaluation : evaluate source bindings m with
  | done v m' =>
    refine .inl ⟨rfl, fun found m'' done source' left => ?_⟩
    cases done
    cases left.2
  | exhausted => exact .inl ⟨rfl, nofun⟩
  | failed e m' =>
    cases e with
    | failed fault => exact .inl ⟨rfl, nofun⟩
    | unbound name =>
      have misses : Misses against source name := ⟨bindings, m, m', known, evaluation⟩
      have lenient : (⟨bindings, none⟩ : Folder).mayDefer name = true := rfl
      simp only [Outcome.andThen_failed, Outcome.andThen_done, if_pos lenient]
      by_cases of : name ∈ names
      · have strict : (⟨bindings, some names⟩ : Folder).mayDefer name = true :=
          List.contains_iff_mem.2 of
        refine .inl ⟨by rw [if_pos strict], fun found m'' done source' left => ?_⟩
        exact left.1 ▸ ⟨name, of, misses⟩
      · have strict : ¬(⟨bindings, some names⟩ : Folder).mayDefer name = true := fun h =>
          of (List.contains_iff_mem.1 h)
        refine .inr ⟨name, source, m', by rw [if_neg strict]; rfl, of, misses, fun a m'' done => ?_⟩
        cases done
        exact ⟨rfl, rfl⟩

theorem mem_joinText {source t : String} {segments : List Segment} :
    .expr source ∈ Folder.joinText t segments ↔ .expr source ∈ segments := by
  unfold Folder.joinText
  split
  · rfl
  · split <;> simp

theorem foldSegments_filters (known : against bindings) (segments : List Segment) :
    Filters against names (fun source folded => .expr source ∈ folded)
      ((⟨bindings, some names⟩ : Folder).foldSegments segments)
      ((⟨bindings, none⟩ : Folder).foldSegments segments) := by
  induction segments with
  | nil => exact .pure nofun
  | cons s rest ih =>
    have joined (t : String) : Filters against names (fun source folded => .expr source ∈ folded)
        (do return Folder.joinText t (← (⟨bindings, some names⟩ : Folder).foldSegments rest))
        (do return Folder.joinText t (← (⟨bindings, none⟩ : Folder).foldSegments rest)) :=
      ih.map _ (fun _ _ => mem_joinText.2) fun _ _ left => .inl (mem_joinText.1 left)
    cases s with
    | text t => exact joined t
    | expr source =>
      refine (tryEval_filters names known source).bind (fun found deferred => ?_) ?_
      · cases found with
        | some v => exact joined v.stringify
        | none =>
          refine ih.map _ (fun _ _ left => .tail _ left) fun source' folded left => ?_
          rcases List.mem_cons.1 left with same | left
          · cases same
            exact .inr (deferred source ⟨rfl, rfl⟩)
          · exact .inl left
      · rintro source' found m folded m' ⟨rfl, rfl⟩ done
        obtain ⟨rest, m₁, -, made⟩ := bind_done.1 done
        cases made
        exact .head _

theorem literalOf_holds {source : String} {segments : List Segment} :
    (Folder.literalOf segments).Holds source ↔ .expr source ∈ segments := by
  unfold Folder.literalOf
  constructor
  · intro holds
    split at holds
    · cases holds
    · cases holds with
      | deferred there => exact there
  · intro there
    have some_ : source ∈ Template.expressions segments := List.mem_filterMap.2 ⟨_, there, rfl⟩
    rw [if_neg (by cases h : Template.expressions segments <;> simp_all)]
    exact .deferred there

theorem fold_filters (known : against bindings) (text : String) :
    Filters against names (fun source l => l.Holds source)
      ((⟨bindings, some names⟩ : Folder).fold text) ((⟨bindings, none⟩ : Folder).fold text) := by
  refine .after _ fun segments => ?_
  split
  · rename_i source
    refine (tryEval_filters names known source).bind (fun found deferred => ?_) ?_
    · cases found with
      | some v => exact .pure nofun
      | none =>
        refine .pure fun source' holds => ?_
        cases holds with
        | deferred there =>
          cases List.mem_singleton.1 there
          exact deferred source ⟨rfl, rfl⟩
    · rintro source' found m l m' ⟨rfl, rfl⟩ done
      cases done
      exact .deferred (.head _)
  · exact (foldSegments_filters names known segments).map _ (fun _ _ => literalOf_holds.2)
      fun _ _ holds => .inl (literalOf_holds.1 holds)

/-- A literal that is used as a whole holds what it held as a text. -/
theorem foldExpression_filters (known : against bindings) (text : String) :
    Filters against names (fun source l => l.Holds source)
      ((⟨bindings, some names⟩ : Folder).foldExpression text)
      ((⟨bindings, none⟩ : Folder).foldExpression text) := by
  refine (fold_filters names known text).bind (fun l deferred => ?_) ?_
  · split
    · rename_i source
      refine .pure fun source' holds => ?_
      cases holds
      exact deferred _ (.deferred (.head _))
    · exact .pure deferred
  · intro source l m l' m' holds done
    split at done
    · cases done
      cases holds with
      | deferred there =>
        cases List.mem_singleton.1 there
        exact .expr
    · cases done
      exact holds

mutual

theorem reconstruct_filters (known : against bindings) (v : Json) :
    Filters against names (fun source l => l.Holds source)
      ((⟨bindings, some names⟩ : Folder).reconstruct v)
      ((⟨bindings, none⟩ : Folder).reconstruct v) := by
  cases v with
  | str s => exact fold_filters names known s
  | arr items =>
    refine (reconstructAll_filters known items).map _ (fun source ls ⟨l, there, holds⟩ =>
      .seq there holds) fun source ls holds => ?_
    cases holds with
    | seq there holds => exact .inl ⟨_, there, holds⟩
  | obj entries =>
    refine (reconstructEntries_filters known entries).map _ (fun source es ⟨e, there, holds⟩ =>
      .map there holds) fun source es holds => ?_
    cases holds with
    | map there holds => exact .inl ⟨_, there, holds⟩
  | _ => exact .pure nofun

theorem reconstructAll_filters (known : against bindings) (vs : List Json) :
    Filters against names (fun source ls => ∃ l ∈ ls, l.Holds source)
      ((⟨bindings, some names⟩ : Folder).reconstructAll vs)
      ((⟨bindings, none⟩ : Folder).reconstructAll vs) := by
  cases vs with
  | nil => exact .pure nofun
  | cons v vs =>
    refine (reconstruct_filters known v).bind (fun l deferred => (reconstructAll_filters known vs).map _ ?_ ?_) ?_
    · rintro source ls ⟨l, there, holds⟩
      exact ⟨l, .tail _ there, holds⟩
    · rintro source ls ⟨l', there, holds⟩
      rcases List.mem_cons.1 there with rfl | there
      · exact .inr (deferred source holds)
      · exact .inl ⟨l', there, holds⟩
    · intro source l m ls m' holds done
      obtain ⟨rest, m₁, -, made⟩ := bind_done.1 done
      cases made
      exact ⟨l, .head _, holds⟩

theorem reconstructEntries_filters (known : against bindings) (es : List (String × Json)) :
    Filters against names (fun source ls => ∃ e ∈ ls, e.2.Holds source)
      ((⟨bindings, some names⟩ : Folder).reconstructEntries es)
      ((⟨bindings, none⟩ : Folder).reconstructEntries es) := by
  cases es with
  | nil => exact .pure nofun
  | cons e es =>
    refine (reconstruct_filters known e.2).bind
      (fun l deferred => (reconstructEntries_filters known es).map _ ?_ ?_) ?_
    · rintro source ls ⟨e, there, holds⟩
      exact ⟨e, .tail _ there, holds⟩
    · rintro source ls ⟨e', there, holds⟩
      rcases List.mem_cons.1 there with rfl | there
      · exact .inr (deferred source holds)
      · exact .inl ⟨e', there, holds⟩
    · intro source l m ls m' holds done
      obtain ⟨rest, m₁, -, made⟩ := bind_done.1 done
      cases made
      exact ⟨(e.1, l), .head _, holds⟩

end

end Folding

section Tasks

variable {against : Bindings → Prop} (c : Context) (names : List String) (target : Target)

/-- A context with the names that may be unbound in it, when not all may. -/
abbrev Context.allowing (c : Context) (names : Option (List String)) : Context :=
  { c with runtimeNames := names }

theorem declarations_filters (known : against c.bindings) (entries : List (String × Json)) :
    Filters against names Evaluates
      (declarations (c.allowing (some names)) entries) (declarations (c.allowing none) entries) := by
  induction entries with
  | nil => exact .pure fun source left => left.not_nil.elim
  | cons e rest ih =>
    have declared : Filters against names Evaluates
        (do
          let value ← (c.allowing (some names)).folder.reconstruct e.2
          return .declare e.1 value :: (← declarations (c.allowing (some names)) rest))
        (do
          let value ← (c.allowing none).folder.reconstruct e.2
          return .declare e.1 value :: (← declarations (c.allowing none) rest)) := by
      refine (reconstruct_filters names known e.2).bind
        (fun value deferred => ih.map _ ?_ fun source steps left => ?_) ?_
      · exact fun source steps left => left.mono (List.subset_cons_self _ _)
      · exact left.of_cons.symm.imp_right fun first => deferred source first.of_declare
      · intro source value m steps m' holds done
        obtain ⟨rest, m₁, -, made⟩ := bind_done.1 done
        cases made
        exact .own (.head _) (.head _) holds
    unfold declarations
    split
    · exact .after _ fun _ => declared
    · exact declared

theorem invocationSteps_filters (known : against c.bindings) (args : List Json) :
    Filters against names Evaluates (invocationSteps (c.allowing (some names)) target args)
      (invocationSteps (c.allowing none) target args) := by
  have invoked (f : List Literal → Step) (own : ∀ ls, (f ls).literals = ls)
      (flat : ∀ ls body, f ls ≠ .block body ∧ ∀ list, f ls ≠ .loop list body) :
      Filters against names Evaluates
        (do return [f (← (c.allowing (some names)).reconstructArgs args)])
        (do return [f (← (c.allowing none).reconstructArgs args)]) := by
    refine (reconstructAll_filters names known args).map _ (fun source ls left => ?_)
      fun source ls left => .inl ?_
    · obtain ⟨l, there, holds⟩ := left
      exact .own (.head _) ((own ls).symm ▸ there) holds
    · rcases left.of_single with left | ⟨body, -, same | ⟨list, same⟩⟩
      · exact own ls ▸ left
      · exact absurd same (flat ls body).1
      · exact absurd same ((flat ls body).2 list)
  unfold invocationSteps
  split
  · split
    · exact declarations_filters c names known _
    · exact .throw _
  · exact invoked (.command target.name) (fun _ => rfl) fun _ _ => ⟨nofun, nofun⟩
  · exact invoked (.call target.name) (fun _ => rfl) fun _ _ => ⟨nofun, nofun⟩

theorem elementBlock_filters (known : against c.bindings)
    (inner : ∀ index item, against (elementBindings c index item)) (args : List Json) (index : Nat) (item : Json) :
    Filters against names (fun source step => Evaluates source [step])
      (elementBlock (c.allowing (some names)) target args index item)
      (elementBlock (c.allowing none) target args index item) := by
  refine (reconstruct_filters names known item).bind (fun item deferred => ?_) ?_
  · refine (invocationSteps_filters { c with bindings := elementBindings c index item } names target
      (inner index item) args).map _ (fun source steps left => ?_) fun source steps left => ?_
    · exact .block (.head _) (left.mono fun step there => .tail _ (.tail _ there))
    · rcases left.of_single with ⟨l, of, -⟩ | ⟨body, left, same | ⟨list, same⟩⟩
      · cases of
      · cases same
        rcases left.of_cons with left | left
        · exact .inr (deferred source left.of_declare)
        · rcases left.of_cons with left | left
          · cases left.of_declare
          · exact .inl left
      · cases same
  · intro source item m step m' holds done
    obtain ⟨steps, m₁, -, made⟩ := bind_done.1 done
    cases made
    exact .block (.head _) (.own (.head _) (.head _) holds)

theorem elementBlocks_filters (known : against c.bindings)
    (inner : ∀ index item, against (elementBindings c index item)) (args : List Json) (index : Nat) (items : List Json) :
    Filters against names Evaluates (elementBlocks (c.allowing (some names)) target args index items)
      (elementBlocks (c.allowing none) target args index items) := by
  induction items generalizing index with
  | nil => exact .pure fun source left => left.not_nil.elim
  | cons item rest ih =>
    refine (elementBlock_filters c names target known inner args index item).bind
      (fun block deferred => (ih (index + 1)).map _ ?_ ?_) ?_
    · exact fun source steps left => left.mono (List.subset_cons_self _ _)
    · exact fun source steps left => left.of_cons.symm.imp_right (deferred source)
    · intro source block m steps m' left done
      obtain ⟨rest, m₁, -, made⟩ := bind_done.1 done
      cases made
      exact left.mono (List.cons_subset_cons _ (List.nil_subset _))

theorem loopSteps_filters (known : against c.bindings)
    (inner : ∀ index item, against (elementBindings c index item)) (args : List Json) (source : Json) :
    Filters against names Evaluates (loopSteps (c.allowing (some names)) target args source)
      (loopSteps (c.allowing none) target args source) := by
  cases source with
  | str text =>
    unfold loopSteps
    by_cases templated : Template.isTemplated text = true
    · simp only [if_pos templated]
      refine (foldExpression_filters names known text).bind
        (fun list deferred => (invocationSteps_filters c names target known args).map _ ?_ ?_) ?_
      · exact fun source steps left => .loop (.head _) left
      · intro source steps left
        rcases left.of_single with ⟨l, of, holds⟩ | ⟨body, left, same | ⟨list, same⟩⟩
        · cases List.mem_singleton.1 of
          exact .inr (deferred source holds)
        · cases same
        · cases same
          exact .inl left
      · intro source l m steps m' holds done
        obtain ⟨body, m₁, -, made⟩ := bind_done.1 done
        cases made
        exact .own (.head _) (.head _) holds
    · simp only [if_neg templated]
      split <;> exact .throw _
  | arr items => exact elementBlocks_filters c names target known inner args 0 items
  | _ => exact .throw _

theorem taskSteps_filters (known : against c.bindings)
    (inner : ∀ index item, against (elementBindings c index item)) (task : Task) :
    Filters against names Evaluates (taskSteps (c.allowing (some names)) target task)
      (taskSteps (c.allowing none) target task) := by
  unfold taskSteps
  cases task.loop with
  | some source => exact loopSteps_filters c names target known inner task.args source
  | none => exact invocationSteps_filters c names target known task.args

end Tasks

section Lists

/-- Options with which names that are never bound are refused. -/
abbrev strict (options : CompileOptions) : CompileOptions := { options with strictNames := true }

/-- Options with which all names may be unbound. -/
abbrev lenient (options : CompileOptions) : CompileOptions := { options with strictNames := false }

/-- What placeholders are folded against: what is known while compiling, and in the block of an
element of a sequence also the element and its position. -/
def Folds (options : CompileOptions) (bindings : Bindings) : Prop :=
  bindings = options.publicContext.toBindings ∨
    ∃ index item, bindings = elementBindings (contextOf options {} 0 []) index item

/-- The names that programs are known to bind as they run, after some parts of them. -/
def tracked (options : CompileOptions) (start : List String) (parts : List Part) : List String :=
  start ++ parts.flatMap fun part => (part.fragment options).boundNames

theorem tracked_cons (options : CompileOptions) (start : List String) (part : Part)
    (parts : List Part) : tracked options (start ++ (part.fragment options).boundNames) parts =
      tracked options start (part :: parts) := by
  simp [tracked]

/-- Where a strict compiler refuses a name, among tasks from a position on: the tasks before have
their parts and the task has its target, but the name that a placeholder of the task reads is not
among those that are known then, which include the import of the target. -/
structure RefusedAt (options : CompileOptions) (registry : Registry) (k : Nat) (start : List String)
    (tasks : List Task) (m : Machine) (name source : String) (before : List Task) (task : Task)
    (after : List Task) (parts : List Part) (m₁ : Machine) (target : Target) (m₂ : Machine) :
    Prop where
  list : tasks = before ++ task :: after
  earlier : Parts (lenient options) registry k start before m parts m₁
  chosen : classify (contextOf (lenient options) registry (k + before.length)
    (tracked options start parts)) task m₁ = .done target m₂
  unknown : name ∉ tracked options start parts ++ target.fragment.boundNames
  misses : Misses (Folds options) source name
  left : ∀ steps m₃, taskSteps (contextOf (lenient options) registry (k + before.length)
    (tracked options start parts ++ target.fragment.boundNames)) target task m₂ = .done steps m₃ →
    Evaluates source steps

/-- The placeholders that parts leave to be evaluated were deferred for names that are known. -/
def AllDeferred (options : CompileOptions) (start : List String) (parts : List Part) : Prop :=
  ∀ n part, parts[n]? = some part → ∀ source, Evaluates source part.steps →
    Deferred (Folds options) (tracked options start (parts.take n) ++ part.target.fragment.boundNames) source

variable (options : CompileOptions) (registry : Registry)

theorem contextOf_filters (k : Nat) (start : List String) (target : Target) (task : Task) :
    Filters (Folds options) start Evaluates
      (taskSteps (contextOf (strict options) registry k start) target task)
      (taskSteps (contextOf (lenient options) registry k start) target task) :=
  taskSteps_filters (contextOf options registry k start) start target (.inl rfl)
    (fun index item => .inr ⟨index, item, rfl⟩) task

/-- The fragment of a list is the part of its first task, and then the fragment of the others. -/
theorem tasksFragment_cons (k : Nat) (start : List String) (task : Task) (tasks : List Task)
    (m : Machine) :
    tasksFragment options registry k start (task :: tasks) m =
      (classify (contextOf options registry k start) task m).andThen (fun target m₁ =>
        (taskSteps (contextOf options registry k (start ++ target.fragment.boundNames)) target task
          m₁).andThen (fun steps m₂ =>
            (tasksFragment options registry (k + 1)
              (start ++ ((⟨target, steps⟩ : Part).fragment options).boundNames) tasks m₂).andThen
              (fun others => .done ((⟨target, steps⟩ : Part).fragment options ++ others)) .failed)
          .failed) .failed := by
  simp only [tasksFragment, taskFragment, taskBody, bind_apply]
  cases classify (contextOf options registry k start) task m with
  | failed e m₁ => rfl
  | exhausted => rfl
  | done target m₁ =>
    simp only [Outcome.andThen_done]
    cases taskSteps (contextOf options registry k (start ++ target.fragment.boundNames)) target task
      m₁ <;> rfl

/-- What a task invokes does not depend on the names that may be unbound. -/
theorem classify_strict (k : Nat) (start : List String) (task : Task) :
    classify (contextOf (strict options) registry k start) task =
      classify (contextOf (lenient options) registry k start) task := rfl

theorem fragment_strict (part : Part) : part.fragment (strict options) = part.fragment options := rfl

theorem fragment_lenient (part : Part) : part.fragment (lenient options) = part.fragment options :=
  rfl

variable {options registry}

theorem AllDeferred.cons {start : List String} {part : Part} {parts : List Part}
    (first : ∀ source, Evaluates source part.steps →
      Deferred (Folds options) (start ++ part.target.fragment.boundNames) source)
    (others : AllDeferred options (start ++ (part.fragment options).boundNames) parts) :
    AllDeferred options start (part :: parts) := by
  intro n part' there source left
  cases n with
  | zero =>
    cases there
    simpa [tracked] using first source left
  | succ n =>
    have deferred := others n part' there source left
    rwa [tracked_cons] at deferred

/-- Until a strict compiler refuses a name, it compiles tasks as a lenient one does. -/
theorem tasksFragment_filters (k : Nat) (start : List String) (tasks : List Task) (m : Machine) :
    (tasksFragment (strict options) registry k start tasks m =
        tasksFragment (lenient options) registry k start tasks m ∧
      ∀ parts m', Parts (lenient options) registry k start tasks m parts m' →
        AllDeferred options start parts) ∨
      ∃ name source m' before task after parts m₁ target m₂,
        tasksFragment (strict options) registry k start tasks m = .failed (.undefinedName name) m' ∧
        RefusedAt options registry k start tasks m name source before task after parts m₁ target m₂ := by
  induction tasks generalizing k start m with
  | nil =>
    refine .inl ⟨rfl, fun parts m' is_ => ?_⟩
    cases is_
    nofun
  | cons task tasks ih =>
    simp only [tasksFragment_cons, fragment_strict, fragment_lenient, classify_strict]
    cases chosen : classify (contextOf (lenient options) registry k start) task m with
    | failed e m₁ =>
      refine .inl ⟨by simp only [Outcome.andThen_failed], fun parts m' is_ => ?_⟩
      cases is_ with
      | next chosen' => cases chosen.symm.trans chosen'
    | exhausted =>
      refine .inl ⟨by simp only [Outcome.andThen_exhausted], fun parts m' is_ => ?_⟩
      cases is_ with
      | next chosen' => cases chosen.symm.trans chosen'
    | done target m₁ =>
      simp only [Outcome.andThen_done]
      rcases contextOf_filters options registry k (start ++ target.fragment.boundNames) target task
        m₁ with ⟨same, deferred⟩ | ⟨name, source, m', refused, unknown, misses, left⟩
      · rw [same]
        cases made : taskSteps (contextOf (lenient options) registry k
            (start ++ target.fragment.boundNames)) target task m₁ with
        | failed e m₂ =>
          refine .inl ⟨by simp only [Outcome.andThen_failed], fun parts m' is_ => ?_⟩
          cases is_ with
          | next chosen' made' =>
            cases chosen.symm.trans chosen'
            cases made.symm.trans made'
        | exhausted =>
          refine .inl ⟨by simp only [Outcome.andThen_exhausted], fun parts m' is_ => ?_⟩
          cases is_ with
          | next chosen' made' =>
            cases chosen.symm.trans chosen'
            cases made.symm.trans made'
        | done steps m₂ =>
          simp only [Outcome.andThen_done]
          rcases ih (k + 1) (start ++ ((⟨target, steps⟩ : Part).fragment options).boundNames) m₂ with
            ⟨same, others⟩ | ⟨name, source, m', before, task', after, parts, m₃, target', m₄, failed,
              at_⟩
          · refine .inl ⟨congrArg (Outcome.andThen · _ _) same, fun parts m' is_ => ?_⟩
            cases is_ with
            | next chosen' made' rest =>
              cases chosen.symm.trans chosen'
              cases made.symm.trans made'
              exact .cons (deferred steps m₂ made) (others _ _ rest)
          · refine .inr ⟨name, source, m', task :: before, task', after, ⟨target, steps⟩ :: parts, m₃,
              target', m₄, congrArg (Outcome.andThen · _ _) failed, ?_⟩
            have place : k + 1 + before.length = k + (task :: before).length := by
              rw [List.length_cons]
              omega
            obtain ⟨list, earlier, chosen', unknown, misses, left⟩ := at_
            rw [tracked_cons, place] at chosen' left
            rw [tracked_cons] at unknown
            exact ⟨by rw [list]; rfl, .next chosen made earlier, chosen', unknown, misses, left⟩
      · refine .inr ⟨name, source, m', [], task, tasks, [], m, target, m₁, by rw [refused]; rfl, ?_⟩
        exact ⟨rfl, .none, by simpa [tracked] using chosen, by simpa [tracked] using unknown, misses,
          by simpa [tracked] using left⟩

theorem Parts.length {k : Nat} {start : List String} {tasks : List Task} {m m' : Machine}
    {parts : List Part} (h : Parts options registry k start tasks m parts m') :
    parts.length = tasks.length := by
  induction h with
  | none => rfl
  | next _ _ _ ih => rw [List.length_cons, List.length_cons, ih]

/-- The parts of a list are those of its first tasks, and then those of the others. -/
theorem Parts.split {k : Nat} {start : List String} {before after : List Task} {m m₁ m' : Machine}
    {parts all : List Part} (first : Parts options registry k start before m parts m₁)
    (whole : Parts options registry k start (before ++ after) m all m') :
    ∃ others, all = parts ++ others ∧
      Parts options registry (k + before.length) (tracked options start parts) after m₁ others m' := by
  induction first generalizing all with
  | none =>
    refine ⟨all, rfl, ?_⟩
    simpa [tracked] using whole
  | @next k start task tasks m target m₁ steps m₂ parts m₃ chosen made rest ih =>
    cases whole with
    | next chosen' made' whole =>
      cases chosen.symm.trans chosen'
      cases made.symm.trans made'
      obtain ⟨others, same, later⟩ := ih whole
      refine ⟨others, congrArg _ same, ?_⟩
      rw [tracked_cons, Nat.add_assoc, Nat.add_comm 1] at later
      exact later

/-- The part of the task at which a name is refused leaves the placeholder to be evaluated that reads
the name. -/
theorem RefusedAt.part {k : Nat} {start : List String} {tasks before after : List Task} {task : Task}
    {m m₁ m₂ m' : Machine} {name source : String} {parts all : List Part} {target : Target}
    (at_ : RefusedAt options registry k start tasks m name source before task after parts m₁ target m₂)
    (whole : Parts (lenient options) registry k start tasks m all m') :
    ∃ steps others, all = parts ++ ⟨target, steps⟩ :: others ∧ Evaluates source steps := by
  rw [at_.list] at whole
  obtain ⟨others, rfl, later⟩ := at_.earlier.split whole
  cases later with
  | next chosen made rest =>
    cases at_.chosen.symm.trans chosen
    exact ⟨_, _, rfl, at_.left _ _ made⟩

end Lists

theorem compile_eq (options : CompileOptions) (registry : Registry) (tasks : List Task) (m : Machine) :
    compile options registry tasks m =
      (tasksFragment options registry 0 (startNames options.naming) tasks m).andThen
        (fun f => .done
          ((Fragment.start options.naming (options.indent + 2) ++ f).assemble options.naming))
        .failed := by
  rw [compile, bind_apply]
  rfl

theorem compile_filters (options : CompileOptions) (registry : Registry) (tasks : List Task)
    (m : Machine) :
    (compile (strict options) registry tasks m = compile (lenient options) registry tasks m ∧
      ∀ parts m', Parts (lenient options) registry 0 (startNames options.naming) tasks m parts m' →
        AllDeferred options (startNames options.naming) parts) ∨
      ∃ name source m' before task after parts m₁ target m₂,
        compile (strict options) registry tasks m = .failed (.undefinedName name) m' ∧
        RefusedAt options registry 0 (startNames options.naming) tasks m name source before task
          after parts m₁ target m₂ := by
  rw [compile_eq, compile_eq]
  rcases @tasksFragment_filters options registry 0 (startNames options.naming) tasks m with
    ⟨same, deferred⟩ | ⟨name, source, m', before, task, after, parts, m₁, target, m₂, failed, at_⟩
  · exact .inl ⟨by rw [same], deferred⟩
  · exact .inr ⟨name, source, m', before, task, after, parts, m₁, target, m₂, by rw [failed]; rfl,
      at_⟩

/-- A strict compiler gives what a lenient one gives, or it refuses a name that is not among those
that are known to be bound where it is: the names that every program binds, and those that the tasks
up to there import or declare. -/
theorem strict_filters (options : CompileOptions) (registry : Registry) (tasks : List Task)
    (m : Machine) :
    compile (strict options) registry tasks m = compile (lenient options) registry tasks m ∨
      ∃ name source m' before task after parts m₁ target m₂,
        compile (strict options) registry tasks m = .failed (.undefinedName name) m' ∧
        RefusedAt options registry 0 (startNames options.naming) tasks m name source before task
          after parts m₁ target m₂ :=
  (compile_filters options registry tasks m).imp_left fun same => same.1

end Compile

end Tasklang
