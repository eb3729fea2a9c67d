import Tasklang.Proofs.Globals
import Tasklang.Proofs.Payloads
import Tasklang.Proofs.Sources

/-! # Names in programs

The names that a program declares and imports are Lua names. The target of a call may be dotted, and
its first segment is looked at alone when it comes from a module, so that the others are what the
task says. The target of any other call is dotted from Lua names, unless code that was evaluated while
compiling put another name among the globals.
-/

namespace Tasklang

open Lua Lua.Run

namespace Text

theorem splitChars_ne_nil (sep : Char) (cs : List Char) : splitChars sep cs ≠ [] := by
  cases cs with
  | nil => nofun
  | cons c cs =>
    rw [splitChars]
    split <;> nofun

theorem splitChars_append (sep : Char) (before after : List Char) :
    splitChars sep (before ++ sep :: after) = splitChars sep before ++ splitChars sep after := by
  induction before with
  | nil => simp [splitChars]
  | cons c cs ih =>
    obtain ⟨piece, others, is_⟩ := List.exists_cons_of_ne_nil (splitChars_ne_nil sep cs)
    simp only [List.cons_append, splitChars, ih, is_]
    split <;> rfl

/-- A text without the separator is one piece. -/
theorem split_single {sep : Char} {s : String} (none : sep ∉ s.toList) : split sep s = [s] := by
  have single : ∀ cs : List Char, sep ∉ cs → splitChars sep cs = [cs] := by
    intro cs none
    induction cs with
    | nil => rfl
    | cons c cs ih =>
      rw [List.mem_cons, not_or] at none
      simp only [splitChars, ih none.2, if_neg (Ne.symm none.1), List.headD_cons, List.tail_cons]
  rw [split, single _ none, List.map_cons, List.map_nil, String.ofList_toList]

end Text

namespace Lua

theorem isIdentifier_iff {name : String} : isIdentifier name = true ↔
    ∃ c cs, name.toList = c :: cs ∧ startsName c = true ∧ cs.all continuesName = true ∧
      name ∉ keywords := by
  unfold isIdentifier
  cases name.toList with
  | nil => simp
  | cons c cs => simp [and_assoc]

/-- A Lua name with a number after it is one. -/
theorem isIdentifier_numbered {name : String} (valid : isIdentifier name = true) (n : Nat) :
    isIdentifier (name ++ "_" ++ Nat.repr n) = true := by
  obtain ⟨c, cs, chars, starts, continues, -⟩ := isIdentifier_iff.1 valid
  have spelled : (name ++ "_" ++ Nat.repr n).toList = c :: (cs ++ '_' :: (Nat.toDigits 10 n)) := by
    simp [chars, Nat.repr]
  refine isIdentifier_iff.2 ⟨c, _, spelled, starts, ?_, fun keyword => ?_⟩
  · have digits : (Nat.toDigits 10 n).all continuesName = true := by
      refine List.all_eq_true.2 fun d there => ?_
      have digit := Nat.isDigit_of_mem_toDigits (by decide) (by decide) there
      simp [continuesName, Char.isAlphanum, digit]
    rw [List.all_append, List.all_cons, continues, digits]
    rfl
  · have plain : ∀ word ∈ keywords, '_' ∉ word.toList := by decide
    refine plain _ keyword ?_
    rw [spelled]
    simp

theorem isIdentifier_dotted {name : String} (valid : isIdentifier name = true) : Dotted name := by
  obtain ⟨c, cs, chars, starts, continues, -⟩ := isIdentifier_iff.1 valid
  have none : '.' ∉ name.toList := by
    rw [chars, List.mem_cons, not_or]
    refine ⟨fun is_ => ?_, fun there => ?_⟩
    · rw [← is_] at starts
      cases starts
    · cases List.all_eq_true.1 continues _ there
  intro segment there
  rw [Text.split_single none] at there
  rwa [List.mem_singleton.1 there]

end Lua

/-- What leads to a registered function has segments of its name. -/
theorem Registry.contains_dotted {registry : Registry} {path : String}
    (registered : ∀ name ∈ registry.names, Dotted name) (h : registry.contains path = true) :
    Dotted path := by
  simp only [Registry.contains, Bool.and_eq_true, List.any_eq_true, Bool.or_eq_true, beq_iff_eq,
    String.startsWith_string_iff] at h
  obtain ⟨-, name, mem, rfl | ⟨rest, spelled⟩⟩ := h
  · exact registered name mem
  · intro segment there
    refine registered name mem segment ?_
    have chars : name.toList = path.toList ++ '.' :: rest := by
      rw [← spelled]
      simp
    rw [Text.split, chars, Text.splitChars_append, List.map_append]
    exact List.mem_append_left _ there

/-- Whether an import binds a Lua name, and takes what it takes under one. -/
def Import.Named (i : Import) : Prop :=
  Lua.isIdentifier i.binding = true ∧
    match i.source with
    | .module _ none => True
    | .module _ (some name) => Lua.isIdentifier name = true
    | .builtin name => Lua.isIdentifier name = true

namespace Compile

/-- Why the name of a function that a task calls may have segments that are no Lua names: it is part
of what a module exports, of which only the first segment is looked at; or it was found among globals
that are not those of the start. -/
inductive Unchecked (c : Context) (task : Task) (m : Machine) (imports : List Import)
    (name : String) : Prop where
  | exported {from_ m₁ m₂} : targetName c task m = .done name m₁ →
    moduleName? c task m₁ = .done (some from_) m₂ →
    ⟨rootSegment name, .module from_ (some (rootSegment name))⟩ ∈ imports →
    Unchecked c task m imports name
  | global {m₁ m₂ m₃} : targetName c task m = .done name m₁ →
    moduleName? c task m₁ = .done none m₂ → isGlobalFunction name m₂ = .done true m₃ →
    ¬m₂.Pristine → Unchecked c task m imports name

theorem Unchecked.mono {c : Context} {task : Task} {m : Machine} {imports imports' : List Import}
    {name : String} (h : Unchecked c task m imports name) (sub : imports ⊆ imports') :
    Unchecked c task m imports' name := by
  cases h with
  | exported named module_ there => exact .exported named module_ (sub there)
  | global named module_ asked changed => exact .global named module_ asked changed

section Targets

variable {c : Context} {task : Task} {target : Target} {m m' : Machine}

theorem evaluated_done {α : Type} {x : Run EvalError α} {a : α} :
    evaluated x m = .done a m' ↔ x m = .done a m' := by
  rw [evaluated, mapError_apply]
  cases x m <;> simp

theorem classify_imports (default : Lua.isIdentifier c.naming.defaultUse = true)
    (h : classify c task m = .done target m') : ∀ i ∈ target.fragment.imports, i.Named := by
  obtain ⟨name, m₁, -, decided⟩ := classify_cases h
  intro i there
  cases decided with
  | declaration | command | global => cases there
  | whole _ _ binding =>
    cases List.mem_singleton.1 there
    exact ⟨binding ▸ isIdentifier_numbered default _, trivial⟩
  | exported _ _ valid | builtin _ _ _ valid =>
    cases List.mem_singleton.1 there
    exact ⟨valid, valid⟩

/-- A function that a task calls has a dotted name, unless it is one that is not checked. -/
theorem classify_named (default : Lua.isIdentifier c.naming.defaultUse = true)
    (registered : ∀ name ∈ c.registry.names, Dotted name)
    (h : classify c task m = .done target m') (kind : target.kind = .function) :
    Dotted target.name ∨ Unchecked c task m target.fragment.imports target.name := by
  obtain ⟨name, m₁, named, decided⟩ := classify_cases h
  cases decided with
  | declaration | command => cases kind
  | whole _ _ binding =>
    exact .inl (isIdentifier_dotted (binding ▸ isIdentifier_numbered default _))
  | exported module_ is_ =>
    subst is_
    exact .inr (.exported named module_ (.head _))
  | builtin _ contained => exact .inl (Registry.contains_dotted registered contained)
  | @global m₂ _ module_ asked =>
    -- Evaluating the name and the module may run code, which can have put anything into the tables.
    by_cases pristine : m₂.Pristine
    · exact .inl (isGlobalFunction_dotted pristine (evaluated_done.1 asked))
    · exact .inr (.global named module_ (evaluated_done.1 asked) pristine)

end Targets

/-- A task of a list, and the machine in which it is classified: the tasks before it have been
compiled. -/
def Classifies (options : CompileOptions) (registry : Registry) (tasks : List Task) (m : Machine)
    (c : Context) (task : Task) (m' : Machine) : Prop :=
  ∃ n known parts, tasks[n]? = some task ∧ c = contextOf options registry n known ∧
    Parts options registry 0 (startNames options.naming) (tasks.take n) m parts m'

/-- Whether a step has Lua names only, or names that are not checked. -/
def StepNamed (unchecked : String → Prop) : Step → Prop
  | .declare name _ => Lua.isIdentifier name = true
  | .call target _ => Dotted target ∨ unchecked target
  | _ => True

end Compile

open Compile in
/-- With Lua names for the element, its position and unnamed targets, and with dotted ones for the
registered functions, all names that a program declares or imports are Lua names, at any nesting; and
so are all segments of every name that it calls, unless the name is part of what a module exports, or
the compiler found it among globals that are not those of the start. -/
theorem names_valid {options : CompileOptions} {registry : Registry} {tasks : List Task}
    {m m' : Machine} {compiled : CompiledProgram}
    (naming : ∀ name ∈ [options.naming.item, options.naming.index, options.naming.defaultUse],
      Lua.isIdentifier name = true)
    (registered : ∀ name ∈ registry.names, Dotted name)
    (h : compile options registry tasks m = .done compiled m') :
    (∀ i ∈ compiled.program.imports, i.Named) ∧
      Throughout (StepNamed fun target => ∃ c task m₁, Classifies options registry tasks m c task m₁ ∧
        Unchecked c task m₁ compiled.program.imports target) compiled.program.steps := by
  simp only [List.forall_mem_cons] at naming
  obtain ⟨item, index, default, -⟩ := naming
  obtain ⟨parts, is_, -, imports, steps⟩ := compile_done h
  rw [steps, imports]
  -- Imports and steps come from the parts, and each part from a task and a machine of its own.
  refine ⟨fun i there => ?_, .flatten fun body mapped => ?_⟩
  · obtain ⟨part, mem, there⟩ := List.mem_flatMap.1 there
    obtain ⟨n, at_⟩ := List.mem_iff_getElem?.1 mem
    obtain ⟨task, known, _, m₁, m₂, m₃, -, chosen, -⟩ := is_.at_ at_
    exact classify_imports default chosen i there
  · obtain ⟨part, mem, rfl⟩ := List.mem_map.1 mapped
    obtain ⟨n, at_⟩ := List.mem_iff_getElem?.1 mem
    obtain ⟨task, known, _, m₁, m₂, m₃, task_, earlier, chosen, made⟩ := is_.before at_
    rw [Nat.zero_add] at chosen
    have sub : part.target.fragment.imports ⊆ parts.flatMap (·.target.fragment.imports) :=
      fun i there => List.mem_flatMap.2 ⟨part, mem, there⟩
    refine (contextOf_formed made).imp fun step formed => ?_
    cases formed with
    | declared _ valid => exact valid
    | item => exact item
    | index => exact index
    | call kind =>
      refine (classify_named default registered chosen kind).imp_right fun unchecked => ?_
      exact ⟨_, task, m₁, ⟨n, known, _, task_, rfl, earlier⟩, unchecked.mono sub⟩
    | command | loop | block => trivial

namespace Everything

open Compile

/-- The names of these tasks are Lua names. -/
theorem names_of_everything :
    (∀ name ∈ [options.naming.item, options.naming.index, options.naming.defaultUse],
      Lua.isIdentifier name = true) ∧ (∀ name ∈ Registry.defaults.names, Dotted name) ∧
    ∃ compiled m, compile options .defaults tasks (Machine.initial {}) = .done compiled m ∧
      (∀ i ∈ compiled.program.imports, i.Named) ∧
      Throughout (StepNamed fun target => ∃ c task m₁,
        Classifies options .defaults tasks (Machine.initial {}) c task m₁ ∧
        Unchecked c task m₁ compiled.program.imports target) compiled.program.steps := by
  have naming : ∀ name ∈ [options.naming.item, options.naming.index, options.naming.defaultUse],
      Lua.isIdentifier name = true := by decide
  have registered : ∀ name ∈ Registry.defaults.names, Dotted name := by decide +kernel
  obtain ⟨compiled, m, done, -⟩ := Outcome.passes_iff.1 compiles
  exact ⟨naming, registered, compiled, m, done, names_valid naming registered done⟩

end Everything

/-! ## A name that is not checked -/

namespace Hyphen

open Compile

/-- A task that calls what a module exports, under a key that is no Lua name. -/
def task : Task := { use := some "m.my-key", from_ := some "m.lua" }

theorem compiles : (compile {} .defaults [task] (Machine.initial {})).passes (fun compiled _ =>
    (compiled.program.steps.filterMap fun
      | .call target _ => some target
      | _ => none) = ["m.my-key"] ∧
    stepsSource {} 0 compiled.program.steps = "result = m.my-key()\n") = true := by
  decide +kernel

/-- The task compiles, although its name is not dotted from Lua names: its source subtracts. -/
theorem calls_hyphen :
    (∀ name ∈ [({} : Naming).item, ({} : Naming).index, ({} : Naming).defaultUse],
      Lua.isIdentifier name = true) ∧ (∀ name ∈ Registry.defaults.names, Dotted name) ∧
    ∃ compiled m, compile {} .defaults [task] (Machine.initial {}) = .done compiled m ∧
      (∃ args, .call "m.my-key" args ∈ compiled.program.steps) ∧ ¬Dotted "m.my-key" ∧
      stepsSource {} 0 compiled.program.steps = "result = m.my-key()\n" := by
  obtain ⟨compiled, m, done, facts⟩ := Outcome.passes_iff.1 compiles
  simp only [decide_eq_true_eq] at facts
  obtain ⟨calls, source⟩ := facts
  have called : "m.my-key" ∈ compiled.program.steps.filterMap fun
      | .call target _ => some target
      | _ => none := calls ▸ .head _
  obtain ⟨step, there, is_⟩ := List.mem_filterMap.1 called
  cases step with
  | call target args =>
    cases is_
    exact ⟨by decide, by decide +kernel, compiled, m, done, ⟨args, there⟩, by decide +kernel, source⟩
  | _ => cases is_

end Hyphen

end Tasklang
