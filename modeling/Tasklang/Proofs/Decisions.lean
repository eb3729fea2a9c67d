import Tasklang.Proofs.Sources

/-! # How a target is decided

A task gives its target a name, rendered against what is known while compiling, and one question
after the other decides what the name stands for: the word that declares variables, a command, what a
module exports, a built-in function, or a global. The default name takes the place of one that is
missing or blank, except of one that only rendering makes blank: such a target has an empty name.
-/

namespace Tasklang.Compile

open Lua Lua.Run

/-! ## Rendered texts -/

/-- How a text of a task is rendered: its placeholders are evaluated against what is known while
compiling. -/
inductive Renders (c : Context) (text : String) (m : Machine) :
    Outcome CompileError String → Prop where
  | malformed {e} : Template.parse text = .error e → Renders c text m (.failed (.template e) m)
  | plain {segments} : Template.isTemplated text = false → Template.parse text = .ok segments →
    Renders c text m (.done (Folder.textOf segments) m)
  | rendered {segments shown m'} : Template.isTemplated text = true →
    Template.parse text = .ok segments →
    Template.render ⟨segments, c.publicBindings.names⟩ c.publicBindings m = .done shown m' →
    Renders c text m (.done shown m')
  | failed {segments e m'} : Template.isTemplated text = true →
    Template.parse text = .ok segments →
    Template.render ⟨segments, c.publicBindings.names⟩ c.publicBindings m = .failed e m' →
    Renders c text m (.failed (.evaluation e) m')
  | exhausted {segments} : Template.isTemplated text = true →
    Template.parse text = .ok segments →
    Template.render ⟨segments, c.publicBindings.names⟩ c.publicBindings m = .exhausted →
    Renders c text m .exhausted

/-- What a text of a task says that may be missing or blank, before it is rendered or after. -/
inductive Given (c : Context) (text : Option String) (m : Machine) :
    Outcome CompileError (Option String) → Prop where
  | missing : filled? text = none → Given c text m (.done none m)
  | blank {written shown m'} : filled? text = some written →
    Renders c written m (.done shown m') → Text.isAllBlank shown = true →
    Given c text m (.done none m')
  | shown {written shown m'} : filled? text = some written →
    Renders c written m (.done shown m') → Text.isAllBlank shown = false →
    Given c text m (.done (some shown) m')
  | failed {written e m'} : filled? text = some written → Renders c written m (.failed e m') →
    Given c text m (.failed e m')
  | exhausted {written} : filled? text = some written → Renders c written m .exhausted →
    Given c text m .exhausted

/-! ## Decisions -/

/-- A name that is the mark of commands and, apart from blanks, a program. -/
def Commands (naming : Naming) (name program : String) : Prop :=
  ∃ rest, name = naming.commandSigil ++ rest ∧ Text.trim rest = program ∧ program ≠ ""

/-- A name that has to be a function. -/
structure Calls (c : Context) (name : String) : Prop where
  unreserved : name ≠ c.naming.setVars
  commandless : ∀ program, ¬Commands c.naming name program

/-- When the first segment of a name has to be imported. -/
inductive Due (c : Context) (task : Task) (name : String) (m m' : Machine) : Prop where
  | exported {from_} : Given c task.from_ m (.done (some from_) m') → name ≠ c.naming.defaultUse →
    Due c task name m m'
  | builtin : Given c task.from_ m (.done none m') → c.registry.contains name = true →
    Due c task name m m'

/-- The note that a function comes from a module. -/
def moduleNote (c : Context) (name from_ : String) : Fragment :=
  .ofDiagnostic ("use " ++ c.highlight name ++ " from " ++ Text.quoted from_)

/-- The decisions about a task whose target has a name, in their order. -/
inductive Decides (c : Context) (task : Task) (name : String) (m : Machine) :
    Outcome CompileError Target → Prop where
  | declaration : name = c.naming.setVars →
    Decides c task name m (.done ⟨.declaration, name, none, {}⟩ m)
  | command {program} : name ≠ c.naming.setVars → Commands c.naming name program →
    Decides c task name m
      (.done ⟨.command, program, none, .ofDiagnostic ("run " ++ c.highlight program)⟩ m)
  | failed {e m'} : Calls c name → Given c task.from_ m (.failed e m') →
    Decides c task name m (.failed e m')
  | exhausted : Calls c name → Given c task.from_ m .exhausted →
    Decides c task name m .exhausted
  | whole {from_ binding m'} : Calls c name → Given c task.from_ m (.done (some from_) m') →
    name = c.naming.defaultUse → binding = c.naming.defaultUse ++ "_" ++ Nat.repr c.taskIndex →
    Decides c task name m (.done ⟨.function, binding, some from_,
      .ofImport ⟨binding, .module from_ none⟩ c.naming ++ moduleNote c binding from_⟩ m')
  | exported {from_ root m'} : Calls c name → Given c task.from_ m (.done (some from_) m') →
    name ≠ c.naming.defaultUse → root = rootSegment name → Lua.isIdentifier root = true →
    Decides c task name m (.done ⟨.function, name, some from_,
      .ofImport ⟨root, .module from_ (some root)⟩ c.naming ++ moduleNote c name from_⟩ m')
  | builtin {root m'} : Calls c name → Given c task.from_ m (.done none m') →
    c.registry.contains name = true → root = rootSegment name → Lua.isIdentifier root = true →
    Decides c task name m (.done ⟨.function, name, none, .ofImport ⟨root, .builtin root⟩ c.naming
      ++ .ofDiagnostic ("use " ++ c.highlight name ++ " from built-ins")⟩ m')
  | unbindable {root m'} : Calls c name → Due c task name m m' → root = rootSegment name →
    Lua.isIdentifier root = false → Decides c task name m (.failed (.invalidBinding root) m')
  | global {m₁ m'} : Calls c name → Given c task.from_ m (.done none m₁) →
    c.registry.contains name = false → isGlobalFunction name m₁ = .done true m' →
    Decides c task name m (.done ⟨.function, name, none, {}⟩ m')
  | unresolved {m₁ m'} : Calls c name → Given c task.from_ m (.done none m₁) →
    c.registry.contains name = false → isGlobalFunction name m₁ = .done false m' →
    Decides c task name m (.failed (.unresolvedTarget name) m')
  | unanswered {m₁} : Calls c name → Given c task.from_ m (.done none m₁) →
    c.registry.contains name = false → isGlobalFunction name m₁ = .exhausted →
    Decides c task name m .exhausted

/-- The decisions about a task. The default name stands for a target that is missing or blank. -/
inductive Decided (c : Context) (task : Task) (m : Machine) : Outcome CompileError Target → Prop where
  | named {given m₁ o} : Given c task.use m (.done given m₁) →
    Decides c task ((given.map Text.trim).getD c.naming.defaultUse) m₁ o → Decided c task m o
  | failed {e m'} : Given c task.use m (.failed e m') → Decided c task m (.failed e m')
  | exhausted : Given c task.use m .exhausted → Decided c task m .exhausted

/-! ## What is computed -/

section Rendering

variable {c : Context} {text : String} {m : Machine} {o : Outcome CompileError String}

theorem parsed_ok {α : Type} (a : α) (m : Machine) : parsed (.ok a) m = .done a m := rfl

theorem renders_iff : Renders c text m o ↔ renderPublic c text m = o := by
  constructor
  · intro h
    cases h with
    | malformed parses =>
      unfold renderPublic Template.ofText
      rw [parses]
      split <;> rfl
    | plain untemplated parses =>
      simp only [renderPublic, untemplated, parses]
      rfl
    | rendered templated parses renders | failed templated parses renders
    | exhausted templated parses renders =>
      simp only [renderPublic, templated, if_true, Template.ofText, parses, Except.map, bind_apply,
        parsed_ok, Outcome.andThen_done, evaluated, mapError_apply, renders, Outcome.andThen_failed,
        Outcome.andThen_exhausted]
  · rintro rfl
    unfold renderPublic Template.ofText
    cases parses : Template.parse text with
    | error e =>
      have failed : Renders c text m (.failed (.template e) m) := .malformed parses
      split <;> exact failed
    | ok segments =>
      split
      next templated =>
        show Renders c text m (evaluated (Template.render ⟨segments, c.publicBindings.names⟩
          c.publicBindings) m)
        rw [evaluated, mapError_apply]
        cases renders : Template.render ⟨segments, c.publicBindings.names⟩ c.publicBindings m with
        | done shown m' => exact .rendered templated parses renders
        | failed e m' => exact .failed templated parses renders
        | exhausted => exact .exhausted templated parses renders
      next untemplated => exact .plain (Bool.eq_false_iff.2 untemplated) parses

end Rendering

section Reading

variable {c : Context} {text : Option String} {task : Task} {m m' : Machine}

theorem given_iff {o : Outcome CompileError (Option String)} :
    Given c text m o ↔ moduleName? c { from_ := text } m = o := by
  constructor
  · intro h
    cases h with
    | missing none =>
      simp only [moduleName?, none]
      rfl
    | blank there renders blank | shown there renders blank =>
      simp only [moduleName?, there, bind_apply, renders_iff.1 renders, Outcome.andThen_done, blank]
      rfl
    | failed there renders | exhausted there renders =>
      simp only [moduleName?, there, bind_apply, renders_iff.1 renders, Outcome.andThen_failed,
        Outcome.andThen_exhausted]
  · rintro rfl
    unfold moduleName?
    cases there : filled? text with
    | none => exact .missing there
    | some written =>
      simp only [bind_apply]
      cases renders : renderPublic c written m with
      | done shown m' =>
        cases blank : Text.isAllBlank shown with
        | true =>
          simp only [Outcome.andThen_done, blank, if_true]
          exact .blank there (renders_iff.2 renders) blank
        | false =>
          simp only [Outcome.andThen_done, blank, Bool.false_eq_true, if_false]
          exact .shown there (renders_iff.2 renders) blank
      | failed e m' => exact .failed there (renders_iff.2 renders)
      | exhausted => exact .exhausted there (renders_iff.2 renders)

theorem Given.module {o : Outcome CompileError (Option String)} (h : Given c task.from_ m o) :
    moduleName? c task m = o := given_iff.1 h

/-- A target that rendering leaves blank has an empty name. -/
theorem targetName_blank {written shown : String} (there : filled? task.use = some written)
    (renders : Renders c written m (.done shown m')) (blank : Text.isAllBlank shown = true) :
    targetName c task m = .done "" m' := by
  have trimmed : Text.trim shown = "" := by
    rw [Text.trim, Text.trimChars, Text.trimStart, Text.trimEnd]
    have gone : shown.toList.dropWhile Text.isBlank = [] :=
      List.dropWhile_eq_nil_iff.2 (List.all_eq_true.1 blank)
    rw [gone]
    rfl
  simp only [targetName, there, bind_apply, renders_iff.1 renders, Outcome.andThen_done, trimmed]
  rfl

/-- Any other target has the name that is given, or the default one. -/
theorem targetName_given
    (solid : ∀ written shown m', filled? task.use = some written →
      Renders c written m (.done shown m') → Text.isAllBlank shown = false)
    {o : Outcome CompileError (Option String)} (h : Given c task.use m o) :
    targetName c task m = o.andThen
      (fun given => .done ((given.map Text.trim).getD c.naming.defaultUse)) .failed := by
  unfold targetName
  cases h with
  | missing none =>
    rw [none]
    rfl
  | blank there renders blank =>
    rw [solid _ _ _ there renders] at blank
    cases blank
  | shown there renders | failed there renders | exhausted there renders =>
    simp only [there, bind_apply, renders_iff.1 renders]
    rfl

theorem filled?_some {s t : String} : filled? (some s) = some t ↔ Text.trim s = t ∧ t ≠ "" := by
  have unfolded : filled? (some s) =
    if (Text.trim s).isEmpty then none else some (Text.trim s) := rfl
  rw [unfolded]
  constructor
  · intro h
    split at h
    next => cases h
    next solid =>
      rw [Option.some.injEq] at h
      exact ⟨h, by simpa [← h] using solid⟩
  · rintro ⟨rfl, solid⟩
    exact if_neg (by simpa using solid)

theorem commandProgram?_iff {naming : Naming} {name program : String} :
    commandProgram? naming name = some program ↔ Commands naming name program := by
  unfold commandProgram? Commands
  constructor
  · intro h
    split at h
    next starts =>
      obtain ⟨rest, spelled⟩ := String.startsWith_string_iff.1 starts
      rw [← spelled, ← String.length_toList, List.drop_left, filled?_some] at h
      refine ⟨String.ofList rest, String.toList_injective ?_, h⟩
      rw [String.toList_append, String.toList_ofList, spelled]
    next => cases h
  · rintro ⟨rest, rfl, is_⟩
    have starts : (naming.commandSigil ++ rest).startsWith naming.commandSigil = true :=
      String.startsWith_string_iff.2 ⟨rest.toList, (String.toList_append ..).symm⟩
    rw [if_pos starts, String.toList_append, ← String.length_toList, List.drop_left,
      String.ofList_toList, filled?_some]
    exact is_

theorem calls_iff {name : String} : Calls c name ↔
    name ≠ c.naming.setVars ∧ commandProgram? c.naming name = none := by
  constructor
  · rintro ⟨unreserved, commandless⟩
    refine ⟨unreserved, Option.eq_none_iff_forall_ne_some.2 fun program is_ => ?_⟩
    exact commandless program (commandProgram?_iff.1 is_)
  · rintro ⟨unreserved, none⟩
    refine ⟨unreserved, fun program is_ => ?_⟩
    rw [commandProgram?_iff.2 is_] at none
    cases none

/-- Whether a name is a global function is always answered. -/
theorem isGlobalFunction_answered {path : String} {e : EvalError} :
    isGlobalFunction path m ≠ .failed e m' := by
  have answered (segments : List String) (v : Value) (m : Machine) :
      leadsToFunction segments v m ≠ .failed e m' := by
    induction segments generalizing v m with
    | nil => cases v <;> nofun
    | cons segment rest ih =>
      cases v with
      | table r =>
        rw [leadsToFunction, bind_apply, attempt_apply]
        cases lifted (indexFromOutside (.table r) (.ofString segment)) m with
        | done v m₁ => exact ih v m₁
        | failed e' m₁ => exact ih .nil m₁
        | exhausted => nofun
      | _ => nofun
  exact answered _ _ _

end Reading

section Deciding

variable {c : Context} {task : Task} {name : String} {m m' m₁ : Machine}
  {o : Outcome CompileError Target}

theorem rootBinding_apply (name : String) (m : Machine) : rootBinding name m =
    if Lua.isIdentifier (rootSegment name) then .done (rootSegment name) m
    else .failed (.invalidBinding (rootSegment name)) m := by
  by_cases valid : Lua.isIdentifier (rootSegment name) = true
  · rw [if_pos valid, rootBinding, if_pos valid]
    rfl
  · rw [if_neg valid, rootBinding, if_neg valid]
    rfl

/-- A decision is what classifying a task with a named target gives. -/
theorem Decides.classify (named : targetName c task m = .done name m₁)
    (h : Decides c task name m₁ o) : classify c task m = o := by
  have reads {given} (given_ : Given c task.from_ m₁ given) := given_.module
  rw [Compile.classify, bind_apply, named, Outcome.andThen_done]
  cases h with
  | declaration reserved =>
    rw [if_pos reserved]
    rfl
  | command unreserved is_ =>
    rw [if_neg unreserved, commandProgram?_iff.2 is_]
    rfl
  | failed calls given_ | exhausted calls given_ =>
    obtain ⟨unreserved, none⟩ := calls_iff.1 calls
    rw [if_neg unreserved, none]
    simp only [bind_apply, reads given_, Outcome.andThen_failed, Outcome.andThen_exhausted]
  | whole calls given_ default binding =>
    obtain ⟨unreserved, none⟩ := calls_iff.1 calls
    rw [if_neg unreserved, none]
    simp only [bind_apply, reads given_, Outcome.andThen_done, moduleTarget, if_pos default]
    rw [binding]
    rfl
  | exported calls given_ other root valid =>
    obtain ⟨unreserved, none⟩ := calls_iff.1 calls
    subst root
    rw [if_neg unreserved, none]
    simp only [bind_apply, reads given_, Outcome.andThen_done, moduleTarget, if_neg other,
      rootBinding_apply, if_pos valid]
    rfl
  | builtin calls given_ registered root valid =>
    obtain ⟨unreserved, none⟩ := calls_iff.1 calls
    subst root
    rw [if_neg unreserved, none]
    simp only [bind_apply, reads given_, Outcome.andThen_done, if_pos registered, builtinTarget,
      rootBinding_apply, if_pos valid]
    rfl
  | unbindable calls due root invalid =>
    obtain ⟨unreserved, none⟩ := calls_iff.1 calls
    subst root
    rw [if_neg unreserved, none]
    have refused : rootBinding name = _ := funext (rootBinding_apply name)
    cases due with
    | exported given_ other =>
      simp only [bind_apply, reads given_, Outcome.andThen_done, moduleTarget, if_neg other,
        rootBinding_apply, invalid, Bool.false_eq_true, if_false, Outcome.andThen_failed]
    | builtin given_ registered =>
      simp only [bind_apply, reads given_, Outcome.andThen_done, if_pos registered, builtinTarget,
        rootBinding_apply, invalid, Bool.false_eq_true, if_false, Outcome.andThen_failed]
  | global calls given_ unregistered asked | unresolved calls given_ unregistered asked
  | unanswered calls given_ unregistered asked =>
    obtain ⟨unreserved, none⟩ := calls_iff.1 calls
    rw [if_neg unreserved, none]
    simp only [bind_apply, reads given_, Outcome.andThen_done, unregistered, Bool.false_eq_true,
      if_false, evaluated, mapError_apply, asked, Outcome.andThen_exhausted]
    try rfl

/-- Every task whose target has a name is decided. -/
theorem decides_classify (named : targetName c task m = .done name m₁) :
    Decides c task name m₁ (classify c task m) := by
  rw [Compile.classify, bind_apply, named, Outcome.andThen_done]
  by_cases reserved : name = c.naming.setVars
  · rw [if_pos reserved]
    exact .declaration reserved
  rw [if_neg reserved]
  cases program : commandProgram? c.naming name with
  | some program' => exact .command reserved (commandProgram?_iff.1 program)
  | none =>
    have calls : Calls c name := calls_iff.2 ⟨reserved, program⟩
    have given_ : Given c task.from_ m₁ (moduleName? c task m₁) := given_iff.2 rfl
    simp only [bind_apply]
    cases module_ : moduleName? c task m₁ with
    | failed e m' => exact .failed calls (module_ ▸ given_)
    | exhausted => exact .exhausted calls (module_ ▸ given_)
    | done from_ m' =>
      rw [module_] at given_
      simp only [Outcome.andThen_done]
      cases from_ with
      | some from_ =>
        simp only [moduleTarget]
        split
        next default => exact .whole calls given_ default rfl
        next other =>
          simp only [bind_apply, rootBinding_apply]
          cases valid : Lua.isIdentifier (rootSegment name) with
          | true => exact .exported calls given_ other rfl valid
          | false => exact .unbindable calls (.exported given_ other) rfl valid
      | none =>
        simp only
        split
        next registered =>
          simp only [builtinTarget, bind_apply, rootBinding_apply]
          cases valid : Lua.isIdentifier (rootSegment name) with
          | true => exact .builtin calls given_ registered rfl valid
          | false => exact .unbindable calls (.builtin given_ registered) rfl valid
        next unregistered =>
          rw [Bool.not_eq_true] at unregistered
          simp only [bind_apply, evaluated, mapError_apply]
          cases asked : isGlobalFunction name m' with
          | done is_ m'' =>
            cases is_ with
            | true => exact .global calls given_ unregistered asked
            | false => exact .unresolved calls given_ unregistered asked
          | failed e m'' => exact absurd asked isGlobalFunction_answered
          | exhausted => exact .unanswered calls given_ unregistered asked

/-- What a task with a named target gives is what is decided about it. -/
theorem classify_eq_iff (named : targetName c task m = .done name m₁) :
    classify c task m = o ↔ Decides c task name m₁ o :=
  ⟨fun is_ => is_ ▸ decides_classify named, fun h => h.classify named⟩

theorem Given.not_invalidBinding {text : Option String} {root : String}
    (h : Given c text m (.failed (.invalidBinding root) m')) : False := by
  cases h with
  | failed there renders => cases renders

/-- A binding is refused exactly when the first segment of a name has to be imported and is no Lua
name. -/
theorem decided_invalidBinding {root : String} :
    Decided c task m (.failed (.invalidBinding root) m') ↔
      ∃ given m₁ name, Given c task.use m (.done given m₁) ∧
        name = (given.map Text.trim).getD c.naming.defaultUse ∧ Calls c name ∧
        Due c task name m₁ m' ∧ root = rootSegment name ∧ Lua.isIdentifier root = false := by
  constructor
  · intro h
    cases h with
    | failed given_ => exact given_.not_invalidBinding.elim
    | named given_ decides =>
      cases decides with
      | failed calls module_ => exact module_.not_invalidBinding.elim
      | unbindable calls due is_ invalid => exact ⟨_, _, _, given_, rfl, calls, due, is_, invalid⟩
  · rintro ⟨given, m₁, name, given_, rfl, calls, due, is_, invalid⟩
    exact .named given_ (.unbindable calls due is_ invalid)

/-- A target that rendering does not make blank is classified as the decisions say. -/
theorem classify_iff_decided
    (solid : ∀ written shown m', filled? task.use = some written →
      Renders c written m (.done shown m') → Text.isAllBlank shown = false) :
    classify c task m = o ↔ Decided c task m o := by
  have stopped {given_} (there : Given c task.use m given_) (e : ∀ given m', given_ ≠ .done given m') :
      classify c task m = given_.andThen (fun _ _ => .exhausted) .failed := by
    rw [Compile.classify, bind_apply, targetName_given solid there]
    cases given_ with
    | done given m' => exact absurd rfl (e given m')
    | failed | exhausted => rfl
  constructor
  · rintro rfl
    have read : Given c task.use m (moduleName? c { from_ := task.use } m) := given_iff.2 rfl
    cases given : moduleName? c { from_ := task.use } m with
    | done given' m₁ =>
      rw [given] at read
      exact .named read (decides_classify (targetName_given solid read))
    | failed e m' =>
      rw [given] at read
      rw [stopped read (by simp)]
      exact .failed read
    | exhausted =>
      rw [given] at read
      rw [stopped read (by simp)]
      exact .exhausted read
  · intro h
    cases h with
    | named there decides => exact decides.classify (targetName_given solid there)
    | failed there | exhausted there => exact stopped there (by simp)

end Deciding

/-- A task is classified as the decisions say, and refused for a binding exactly when they say so,
unless its target is one that only rendering makes blank. Then no default name takes its place, and
the decisions are about an empty name. -/
theorem classify_decides (c : Context) (task : Task) (m : Machine) :
    ((∀ written shown m', filled? task.use = some written →
        Renders c written m (.done shown m') → Text.isAllBlank shown = false) →
      (∀ o, classify c task m = o ↔ Decided c task m o) ∧
      ∀ root m', classify c task m = .failed (.invalidBinding root) m' ↔
        ∃ given m₁ name, Given c task.use m (.done given m₁) ∧
          name = (given.map Text.trim).getD c.naming.defaultUse ∧ Calls c name ∧
          Due c task name m₁ m' ∧ root = rootSegment name ∧ Lua.isIdentifier root = false) ∧
    ∀ written shown m', filled? task.use = some written → Renders c written m (.done shown m') →
      Text.isAllBlank shown = true → ∀ o, classify c task m = o ↔ Decides c task "" m' o := by
  constructor
  · intro solid
    exact ⟨fun o => classify_iff_decided solid, fun root m' =>
      (classify_iff_decided solid).trans decided_invalidBinding⟩
  · intro written shown m' there renders blank o
    exact classify_eq_iff (targetName_blank there renders blank)

/-! ## A rendered name and a blank one -/

namespace Rendering

/-- What is known: a function and the module that it comes from. -/
def options : CompileOptions :=
  { publicContext := { env := [("LIB", " ./m.lua"), ("TOOL", "m")] } }

def context : Context := contextOf options {} 0 []

/-- A task whose target and module are rendered. -/
def task : Task :=
  { use := some " $\x7bbuild.env.TOOL\x7d.run ", from_ := some "$\x7bbuild.env.LIB\x7d" }

/-- A task whose target is rendered to nothing. -/
def blankTask : Task := { use := some "$\x7b\"\"\x7d", from_ := some "m.lua" }

theorem written : filled? task.use = some "$\x7bbuild.env.TOOL\x7d.run" ∧
    filled? task.from_ = some "$\x7bbuild.env.LIB\x7d" ∧
    filled? blankTask.use = some "$\x7b\"\"\x7d" := by
  decide +kernel

set_option maxRecDepth 100000 in
theorem rendered :
    (renderPublic context "$\x7bbuild.env.TOOL\x7d.run" (Machine.initial {})).passes
      (fun shown m => shown = "m.run" ∧ (renderPublic context "$\x7bbuild.env.LIB\x7d" m).passes
        fun shown _ => shown = " ./m.lua") = true ∧
    (renderPublic context "$\x7b\"\"\x7d" (Machine.initial {})).passes
      (fun shown _ => shown = "") = true := by
  decide +kernel

theorem calls : Calls context "m.run" ∧ Calls context "" ∧ Calls context "__ys_use" := by
  simp only [calls_iff]
  decide +kernel

theorem module_given (m : Machine) : Given context (some "m.lua") m (.done (some "m.lua") m) := by
  have plain : filled? (some "m.lua") = some "m.lua" ∧ Template.isTemplated "m.lua" = false ∧
      Template.parse "m.lua" = .ok [.text "m.lua"] ∧ Folder.textOf [.text "m.lua"] = "m.lua" ∧
      Text.isAllBlank "m.lua" = false := by decide +kernel
  obtain ⟨there, untemplated, parses, text, some_⟩ := plain
  have renders : Renders context "m.lua" m (.done (Folder.textOf [.text "m.lua"]) m) :=
    .plain untemplated parses
  rw [text] at renders
  exact .shown there renders some_

/-- A name that is rendered to something is decided about; one that is rendered to nothing has to be
imported, and is no Lua name. -/
theorem decides_rendered :
    (∀ written shown m', filled? task.use = some written →
      Renders context written (Machine.initial {}) (.done shown m') →
      Text.isAllBlank shown = false) ∧
    (∃ target m, classify context task (Machine.initial {}) = .done target m ∧
      target.name = "m.run" ∧
      target.fragment.imports = [⟨"m", .module " ./m.lua" (some "m")⟩]) ∧
    ∃ m, classify context blankTask (Machine.initial {}) = .failed (.invalidBinding "") m := by
  obtain ⟨use, source, blankUse⟩ := written
  obtain ⟨shown, m₁, name, facts⟩ := Outcome.passes_iff.1 rendered.1
  simp only [decide_eq_true_eq] at facts
  obtain ⟨rfl, facts⟩ := facts
  obtain ⟨from_, m₂, located, is_⟩ := Outcome.passes_iff.1 facts
  obtain rfl := of_decide_eq_true is_
  obtain ⟨shown, m₃, blank, is_⟩ := Outcome.passes_iff.1 rendered.2
  obtain rfl := of_decide_eq_true is_
  have some_ : Text.isAllBlank "m.run" = false ∧ Text.isAllBlank " ./m.lua" = false := by decide
  have solid : ∀ written shown m', filled? task.use = some written →
      Renders context written (Machine.initial {}) (.done shown m') →
      Text.isAllBlank shown = false := by
    intro written shown m' there renders
    cases use.symm.trans there
    cases name.symm.trans (renders_iff.1 renders)
    exact some_.1
  have from_module : Given context task.from_ m₁ (.done (some " ./m.lua") m₂) :=
    .shown source (renders_iff.2 located) some_.2
  refine ⟨solid, ⟨_, m₂, (((classify_decides context task _).1 solid).1 _).2 (.named
    (.shown use (renders_iff.2 name) some_.1) (.exported calls.1 from_module ?_
      (show "m" = _ by decide) ?_)), rfl, rfl⟩,
    m₃, ((classify_decides context blankTask _).2 _ _ _ blankUse (renders_iff.2 blank) rfl _).2
      (.unbindable calls.2.1 (.exported (module_given m₃) ?_) ?_ ?_)⟩ <;> decide

/-- The default name would stand for a target that is rendered to nothing, if it were taken. -/
theorem blank_refused : ∃ target m, Decided context blankTask (Machine.initial {}) (.done target m) ∧
    target.name = "__ys_use_0" ∧
    classify context blankTask (Machine.initial {}) = .failed (.invalidBinding "") m := by
  obtain ⟨shown, m, blank, is_⟩ := Outcome.passes_iff.1 rendered.2
  obtain rfl := of_decide_eq_true is_
  have use := written.2.2
  have named : targetName context blankTask (Machine.initial {}) = .done "" m :=
    targetName_blank use (renders_iff.2 blank) rfl
  refine ⟨_, m, .named (.blank use (renders_iff.2 blank) rfl)
    (.whole calls.2.2 (module_given m) ?_ (show "__ys_use_0" = _ by decide)), rfl,
    (classify_eq_iff named).2 (.unbindable calls.2.1 (.exported (module_given m) ?_) ?_ ?_)⟩ <;>
    decide

end Rendering

end Tasklang.Compile
