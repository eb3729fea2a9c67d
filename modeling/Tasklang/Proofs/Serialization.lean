import Tasklang.Compile.TaskList
import Tasklang.Config.TaskFile
import Tasklang.Proofs.Constants
import Tasklang.Proofs.Elements

/-! # Tasks that are written and read back

A written task leaves out what is missing, and a task reads back from its written form, as data or
as part of a document: a list of arguments stays a list whatever its elements are. Only a null source
of repetition is lost, since null counts as missing where it is read. A task that has one has no
program, which what is read back may have.
-/

namespace Tasklang

/-! ## Data in documents -/

namespace Yaml.Value

mutual

/-- What stands in a document for data. -/
def ofJson : Json → Value
  | .null => .null
  | .bool b => .bool b
  | .int n => .int n
  | .float x => .float x
  | .str s => .str s
  | .arr items => .seq (ofItems items)
  | .obj entries => .map (ofEntries entries)

def ofItems : List Json → List Value
  | [] => []
  | v :: vs => ofJson v :: ofItems vs

def ofEntries : List (String × Json) → List (Value × Value)
  | [] => []
  | e :: es => (.str e.1, ofJson e.2) :: ofEntries es

end

mutual

theorem toJson?_ofJson {v : Json} (constant : v.Every Json.Constant) :
    (ofJson v).toJson? = some v := by
  cases v with
  | float x =>
    rw [ofJson, toJson?, if_pos (show Number.isFinite x = true from constant)]
  | arr items =>
    rw [ofJson, toJson?, itemsToJson?_ofItems constant.2]
    rfl
  | obj entries =>
    rw [ofJson, toJson?, entriesToJson?_ofEntries constant.2, Option.map_some,
      Bindings.ofList_unique constant.1]
  | _ => rfl

theorem itemsToJson?_ofItems {items : List Json} (constant : Json.EveryItem Json.Constant items) :
    itemsToJson? (ofItems items) = some items := by
  cases items with
  | nil => rfl
  | cons v vs =>
    rw [ofItems, itemsToJson?, toJson?_ofJson constant.1, itemsToJson?_ofItems constant.2]
    rfl

theorem entriesToJson?_ofEntries {entries : List (String × Json)}
    (constant : Json.EveryEntry Json.Constant entries) :
    entriesToJson? (ofEntries entries) = some entries := by
  cases entries with
  | nil => rfl
  | cons e es =>
    rw [ofEntries, entriesToJson?, toJson?_ofJson constant.1, entriesToJson?_ofEntries constant.2]
    rfl

end

end Yaml.Value

theorem Json.everyEntry_iff {p : Json → Prop} {entries : List (String × Json)} :
    EveryEntry p entries ↔ ∀ e ∈ entries, e.2.Every p := by
  induction entries with
  | nil => exact iff_of_true trivial nofun
  | cons e es ih => rw [List.forall_mem_cons, ← ih, EveryEntry]

namespace TaskFile

open Yaml

variable {entries : List (String × Json)}

theorem textEntries_ofEntries :
    textEntries (Value.ofEntries entries) = some (entries.map fun e => (e.1, Value.ofJson e.2)) := by
  induction entries with
  | nil => rfl
  | cons e es ih =>
    rw [textEntries] at ih
    rw [textEntries, Value.ofEntries, List.mapM_cons, ih]
    rfl

theorem lookup_ofJson (name : String) :
    (entries.map fun e => (e.1, Value.ofJson e.2)).lookup name =
      (entries.lookup name).map Value.ofJson := by
  induction entries with
  | nil => rfl
  | cons e es ih =>
    rw [List.map_cons, List.lookup_cons, List.lookup_cons, ih]
    split <;> rfl

theorem fieldsDistinct_of_nodup {written : List (String × Value)}
    (distinct : (written.map (·.1)).Nodup) : fieldsDistinct written = true := by
  refine List.all_eq_true.2 fun name _ => decide_eq_true ?_
  have once := List.nodup_iff_count.1 distinct name
  rwa [List.count_eq_countP, List.countP_map, List.countP_eq_length_filter] at once

theorem optionalText_ofJson (name : String) :
    optionalText (entries.map fun e => (e.1, Value.ofJson e.2)) name =
      Task.optionalText? (entries.lookup name) := by
  rw [optionalText, lookup_ofJson]
  cases entries.lookup name with
  | none => rfl
  | some v => cases v <;> rfl

/-- A mapping of data describes the same task in a document as it does as data. -/
theorem taskOf_ofJson (constant : (Json.obj entries).Every Json.Constant) :
    taskOf (.ofJson (.obj entries)) = Task.ofJson? (.obj entries) := by
  have distinct : fieldsDistinct (entries.map fun e => (e.1, Value.ofJson e.2)) = true := by
    refine fieldsDistinct_of_nodup ?_
    rw [List.map_map]
    exact constant.1
  have data (name : String) : optionalData (entries.map fun e => (e.1, Value.ofJson e.2)) name =
      some ((entries.lookup name).getD .null) := by
    rw [optionalData, lookup_ofJson]
    cases found : entries.lookup name with
    | none => rfl
    | some v =>
      obtain ⟨before, after, spelled, -⟩ := List.lookup_eq_some_iff.1 found
      have there : (name, v) ∈ entries := by simp [spelled]
      exact Value.toJson?_ofJson (Json.everyEntry_iff.1 constant.2 _ there)
  simp only [taskOf, Value.ofJson, Value.untagged, textEntries_ofEntries, Option.bind_eq_bind,
    Option.bind_some, distinct, optionalText_ofJson, data, Task.ofJson?, Bool.not_true,
    Bool.false_eq_true, if_false]
  rfl

end TaskFile

/-! ## Tasks -/

namespace Task

/-- Whether the values of a task are ones that data can hold. -/
structure Sound (t : Task) : Prop where
  args : (Json.arr t.args).Every Json.Constant
  loop : ∀ v, t.loop = some v → v.Every Json.Constant

/-- What a task is once it was written and read. -/
def readBack (t : Task) : Task := { t with loop := t.loop.bind loopOf }

/-- The entries that a task is written as. -/
def written (t : Task) : List (String × Json) :=
  (t.from_.map fun s => ("from", .str s)).toList
    ++ (t.use.map fun s => ("use", .str s)).toList
    ++ (if t.args.isEmpty then [] else [("args", .arr t.args)])
    ++ (t.loop.map fun v => ("loop", v)).toList

theorem toJson_eq (t : Task) : t.toJson = .obj t.written := rfl

section Written

variable (t : Task)

theorem written_from : t.written.lookup "from" = t.from_.map .str := by
  obtain ⟨_ | _, _ | _, _ | _, _ | _⟩ := t <;> rfl

theorem written_use : t.written.lookup "use" = t.use.map .str := by
  obtain ⟨_ | _, _ | _, _ | _, _ | _⟩ := t <;> rfl

theorem written_args :
    t.written.lookup "args" = if t.args.isEmpty then none else some (.arr t.args) := by
  obtain ⟨_ | _, _ | _, _ | _, _ | _⟩ := t <;> rfl

theorem written_loop : t.written.lookup "loop" = t.loop := by
  obtain ⟨_ | _, _ | _, _ | _, _ | _⟩ := t <;> rfl

theorem written_nodup : (t.written.map (·.1)).Nodup := by
  obtain ⟨_ | _, _ | _, _ | _, _ | _⟩ := t <;> simp [written]

end Written

theorem optionalText?_str (text : Option String) :
    optionalText? (text.map .str) = some text := by
  cases text <;> rfl

/-- A list of arguments reads back, also where it is left out. -/
theorem argsOf_written (args : List Json) :
    argsOf ((if args.isEmpty then none else some (.arr args)).getD .null) = args := by
  cases args <;> rfl

theorem loopOf_written (loop : Option Json) : loopOf (loop.getD .null) = loop.bind loopOf := by
  cases loop <;> rfl

theorem ofJson?_toJson (t : Task) : ofJson? t.toJson = some t.readBack := by
  simp only [toJson_eq, ofJson?, written_from, written_use, written_args, written_loop,
    optionalText?_str, argsOf_written, loopOf_written, Option.bind_eq_bind, Option.bind_some]
  rfl

theorem Sound.written {t : Task} (sound : t.Sound) : t.toJson.Every Json.Constant := by
  refine ⟨t.written_nodup, Json.everyEntry_iff.2 fun e there => ?_⟩
  rw [List.mem_append, List.mem_append, List.mem_append] at there
  rcases there with ((there | there) | there) | there
  · obtain ⟨text, -, rfl⟩ := Option.map_eq_some_iff.1 (Option.mem_toList.1 there)
    trivial
  · obtain ⟨text, -, rfl⟩ := Option.map_eq_some_iff.1 (Option.mem_toList.1 there)
    trivial
  · rw [List.mem_ite_nil_left, List.mem_singleton] at there
    exact there.2 ▸ sound.args
  · obtain ⟨v, is_, rfl⟩ := Option.map_eq_some_iff.1 (Option.mem_toList.1 there)
    exact sound.loop v is_

theorem taskOf_toJson {t : Task} (sound : t.Sound) :
    TaskFile.taskOf (.ofJson t.toJson) = some t.readBack :=
  (TaskFile.taskOf_ofJson sound.written).trans t.ofJson?_toJson

theorem readBack_eq_iff {t : Task} : t.readBack = t ↔ t.loop ≠ some .null := by
  obtain ⟨from_, use, args, _ | v⟩ := t
  · simp [readBack]
  · cases v <;> simp [readBack, loopOf]

end Task

/-! ## Programs of tasks that were read back -/

namespace Compile

open Lua

variable {options : CompileOptions} {registry : Registry} {t : Task} {m m' : Machine}
  (null : t.loop = some .null)

include null

/-- A null is neither a sequence nor a template. -/
theorem taskSteps_null (c : Context) (target : Target) :
    taskSteps c target t = Run.throw (.invalidLoop "null") := by
  have shown : Json.null.print = "null" := by decide +kernel
  rw [taskSteps, null, ← shown]
  rfl

theorem taskFragment_null {k : Nat} {known : List String} {f : Fragment} :
    taskFragment options registry k known t m ≠ .done f m' := by
  intro done
  obtain ⟨target, m₁, -, done⟩ := Run.bind_done.1 done
  obtain ⟨body, m₂, done, -⟩ := Run.bind_done.1 done
  rw [taskBody, taskSteps_null null] at done
  cases done

/-- Once its target is known, the task is refused for its source of repetition. -/
theorem taskFragment_refused {k : Nat} {known : List String} {target : Target}
    (classified : classify (contextOf options registry k known) t m = .done target m') :
    taskFragment options registry k known t m = .failed (.invalidLoop "null") m' := by
  simp only [taskFragment, Run.bind_apply, classified, Outcome.andThen_done, taskBody,
    taskSteps_null null]
  rfl

theorem tasksFragment_null {tasks : List Task} (there : t ∈ tasks) {k : Nat} {known : List String}
    {f : Fragment} : tasksFragment options registry k known tasks m ≠ .done f m' := by
  induction tasks generalizing k known f m m' with
  | nil => cases there
  | cons task rest ih =>
    intro done
    obtain ⟨first, m₁, own, done⟩ := Run.bind_done.1 done
    obtain ⟨others, m₂, done, -⟩ := Run.bind_done.1 done
    rcases List.mem_cons.1 there with rfl | there
    · exact taskFragment_null null own
    · exact ih there done

end Compile

/-- Tasks of which one has a null source of repetition have no program. -/
theorem compile_null {options : CompileOptions} {registry : Registry} {t : Task} {tasks : List Task}
    (there : t ∈ tasks) (null : t.loop = some .null) {m m' : Lua.Machine} {p : CompiledProgram} :
    compile options registry tasks m ≠ .done p m' := by
  intro done
  obtain ⟨f, m₁, done, -⟩ := Lua.Run.bind_done.1 done
  exact Compile.tasksFragment_null null there done

/-- A written task reads back, as data and as part of a document, with every argument and source of
repetition but a null one. Without such a source it is the same task and compiles the same among
any others. With it, what is read back has no source, while no list that the task is in compiles. -/
theorem Task.survives (t : Task) (sound : t.Sound) :
    ofJson? t.toJson = some t.readBack ∧ TaskFile.taskOf (.ofJson t.toJson) = some t.readBack ∧
      (t.loop ≠ some .null → t.readBack = t ∧ ∀ options registry before after m,
        compile options registry (before ++ t.readBack :: after) m =
          compile options registry (before ++ t :: after) m) ∧
      (t.loop = some .null → t.readBack = { t with loop := none } ∧
        ∀ options registry before after m p m',
          compile options registry (before ++ t :: after) m ≠ .done p m') := by
  refine ⟨t.ofJson?_toJson, taskOf_toJson sound, fun some_ => ?_, fun null => ⟨?_, ?_⟩⟩
  · have same := readBack_eq_iff.2 some_
    exact ⟨same, fun options registry before after m => by rw [same]⟩
  · rw [readBack, null]
    rfl
  · intro options registry before after m p m'
    exact compile_null (List.mem_append_right before List.mem_cons_self) null

namespace Task

/-- A task with a list of lists, nulls and an empty sequence. -/
def nested : Task where
  from_ := some "m.lua"
  use := some "f"
  args := [.arr [.arr [], .null], .null, .obj [("a", .null), ("b", .float 0.5)]]
  loop := some (.arr [.null])

theorem nested_survives : TaskFile.taskOf (.ofJson nested.toJson) = some nested := by
  have short : ∀ items : List Json, items.length ≤ 3 → items.length < 2 ^ 63 := fun _ few =>
    Nat.lt_of_le_of_lt few (by decide)
  have half : Number.isFinite 0.5 = true := by decide +kernel
  have sound : nested.Sound := by
    refine ⟨⟨short _ (by decide), ⟨short _ (by decide), ⟨short _ (by decide), trivial⟩, trivial,
      trivial⟩, trivial, ⟨(by decide : ["a", "b"].Nodup), trivial, half, trivial⟩, trivial⟩, ?_⟩
    rintro _ ⟨⟩
    exact ⟨short _ (by decide), trivial, trivial⟩
  obtain ⟨-, read, same, -⟩ := nested.survives sound
  rw [read, (same (by decide)).1]

/-- A call that is repeated for a null. -/
def aimless : Task := { use := some "print", loop := some .null }

/-- The call that is read back is made once, while it cannot be compiled as it was. -/
theorem aimless_lost : ofJson? aimless.toJson = some { use := some "print" } ∧
    (∃ m, compile {} {} [aimless] (Lua.Machine.initial {}) = .failed (.invalidLoop "null") m) ∧
    ∃ p m, compile {} {} [{ use := some "print" }] (Lua.Machine.initial {}) = .done p m := by
  have known : (Compile.classify (Compile.contextOf {} {} 0 (Compile.startNames {})) aimless
      (Lua.Machine.initial {})).passes (fun _ _ => true) = true := by decide +kernel
  have compiles : (compile {} {} [{ use := some "print" }] (Lua.Machine.initial {})).passes
      (fun _ _ => true) = true := by decide +kernel
  refine ⟨aimless.ofJson?_toJson, ?_, ?_⟩
  · obtain ⟨target, m, classified, -⟩ := Lua.Outcome.passes_iff.1 known
    refine ⟨m, ?_⟩
    simp only [compile, Compile.tasksFragment, Lua.Run.bind_apply]
    rw [Compile.taskFragment_refused rfl classified]
    rfl
  · obtain ⟨p, m, done, -⟩ := Lua.Outcome.passes_iff.1 compiles
    exact ⟨p, m, done⟩

end Task

end Tasklang
