import Tasklang.Proofs.Furnished
import Tasklang.Text.Split

/-! # Functions among the globals

A dotted name leads from the globals through the tables of the library. While these are as they were
at the start, all that leads anywhere is a Lua name, so that every function which the compiler finds
among the globals has a name that reads in Lua as the same path.
-/

namespace Tasklang

open Lua

/-- Whether every segment of a dotted name is a Lua name. -/
def Dotted (name : String) : Prop := ∀ segment ∈ Text.split '.' name, Lua.isIdentifier segment = true

instance (name : String) : Decidable (Dotted name) :=
  inferInstanceAs (Decidable (∀ segment ∈ Text.split '.' name, Lua.isIdentifier segment = true))

namespace Lua

section Tables

variable {fields : List (String × Value)}

theorem mem_of_field_tableOf {name : String} (there : (tableOf fields).field name ≠ .nil) :
    (name, (tableOf fields).field name) ∈ fields := by
  suffices given : ∀ t : Table,
      let made := fields.foldl (fun t e => t.setField e.1 e.2) t
      made.field name = t.field name ∨ (name, made.field name) ∈ fields from
    (given (Table.withRoom 0 fields.length)).resolve_left there
  clear there
  induction fields with
  | nil => exact fun t => .inl rfl
  | cons e rest ih =>
    intro t
    rcases ih (t.setField e.1 e.2) with same | there
    · by_cases own : name = e.1
      · subst own
        rw [Table.field_setField_same] at same
        exact .inr (List.mem_cons.2 (.inl (Prod.ext rfl same)))
      · rw [Table.field_setField_other _ _ own] at same
        exact .inl same
    · exact .inr (.tail _ there)

theorem metatable_tableOf : (tableOf fields).metatable = none := by
  suffices kept : ∀ t : Table,
      (fields.foldl (fun t e => t.setField e.1 e.2) t).metatable = t.metatable from kept _
  induction fields with
  | nil => exact fun t => rfl
  | cons e rest ih =>
    intro t
    rw [List.foldl_cons, ih, Table.metatable_setField]

end Tables

/-- The fields of the tables of a machine that starts. -/
def initialFields : List (List (String × Value)) :=
  [globalFields, stringMetaFields firstLibraryRef, [("__metatable", .bool false)],
    libraryFields ++ [("_G", .table globalsRef), ("package", .table packageRefs.1)], packageFields]
    ++ libraryTables.map (·.2)

theorem mem_initialTables {t : Table} (h : t ∈ initialTables) :
    t = {} ∨ ∃ fields ∈ initialFields, t = tableOf fields := by
  simp only [initialTables, List.mem_append, List.mem_cons, List.mem_map, List.not_mem_nil,
    or_false] at h
  simp only [initialFields, List.mem_append, List.mem_cons, List.mem_map, List.not_mem_nil,
    or_false]
  rcases h with ((is_ | is_ | is_ | is_) | ⟨e, there, is_⟩) | is_ | is_
  · exact .inr ⟨_, .inl (.inl rfl), is_⟩
  · exact .inr ⟨_, .inl (.inr (.inl rfl)), is_⟩
  · exact .inr ⟨_, .inl (.inr (.inr (.inl rfl))), is_⟩
  · exact .inr ⟨_, .inl (.inr (.inr (.inr (.inl rfl)))), is_⟩
  · exact .inr ⟨_, .inr ⟨e, there, rfl⟩, is_.symm⟩
  · exact .inr ⟨_, .inl (.inr (.inr (.inr (.inr rfl)))), is_⟩
  · exact .inl is_

theorem initial_globals : initialTables.getD globalsRef {} = tableOf globalFields := by
  rw [initialTables, globalsRef, List.cons_append, List.cons_append, List.getD_cons_zero]

/-- Whether a value is no table, or one of those of a machine that starts. -/
def Value.isInitial : Value → Bool
  | .table r => r < initialTables.length
  | _ => true

/-- All fields of the library have Lua names, and its tables lead to no others. -/
theorem initialFields_named : ∀ fields ∈ initialFields, ∀ e ∈ fields,
    isIdentifier e.1 = true ∧ e.2.isInitial = true := by
  decide +kernel

theorem initial_plain (r : TableRef) : (initialTables.getD r {}).metatable = none := by
  rw [List.getD_eq_getElem?_getD]
  cases there : initialTables[r]? with
  | none => rfl
  | some t =>
    rcases mem_initialTables (List.mem_of_getElem? there) with rfl | ⟨fields, -, rfl⟩
    · rfl
    · exact metatable_tableOf

theorem initial_named {r : TableRef} {name : String}
    (there : (initialTables.getD r {}).field name ≠ .nil) :
    isIdentifier name = true ∧ ((initialTables.getD r {}).field name).isInitial = true := by
  rw [List.getD_eq_getElem?_getD] at there ⊢
  cases found : initialTables[r]? with
  | none =>
    rw [found] at there
    exact absurd rfl there
  | some t =>
    rw [found] at there
    rcases mem_initialTables (List.mem_of_getElem? found) with rfl | ⟨fields, mem, rfl⟩
    · exact absurd rfl there
    · exact initialFields_named fields mem _ (mem_of_field_tableOf there)

/-- Whether a machine has the tables of the library as they were at the start, without other globals
and without other modules. -/
structure Machine.Pristine (m : Machine) : Prop extends m.Fresh where
  loaded : m.tables.getD loadedRef {} = initialTables.getD loadedRef {}

namespace Machine.Pristine

variable {m : Machine}

theorem field (h : m.Pristine) {r : TableRef} (low : r < initialTables.length) (name : String) :
    (m.tables.getD r {}).field name = (initialTables.getD r {}).field name := by
  by_cases global : r = globalsRef
  · subst global
    rw [initial_globals]
    by_cases known : name ∈ libraryNames
    · exact h.names name known
    · exact (h.vacant name known).trans (field_tableOf known).symm
  · by_cases loaded : r = loadedRef
    · subst loaded
      rw [h.loaded]
    · rw [h.tables r low global loaded]

theorem metatable (h : m.Pristine) {r : TableRef} (low : r < initialTables.length) :
    (m.tables.getD r {}).metatable = none := by
  by_cases global : r = globalsRef
  · rw [global]
    exact h.plain
  · by_cases loaded : r = loadedRef
    · subst loaded
      rw [h.loaded, initial_plain]
    · rw [h.tables r low global loaded, initial_plain]

/-- While tables are kept, they are as they were at the start. -/
theorem kept {m' : Machine} (h : m.Pristine) (retains : m.Retains m') : m'.Pristine where
  toFresh := h.toFresh.kept retains
  loaded := (retains.old loadedRef (Nat.lt_of_lt_of_le (by decide) h.room)).trans h.loaded

/-- No metatable is in the way, so that a field is read from the table itself. -/
theorem indexed (h : m.Pristine) {r : TableRef} (low : r < initialTables.length) (name : String) :
    (indexFromOutside (.table r) (.ofString name)).exec m =
      .done ((initialTables.getD r {}).field name) m := by
  have deeper := @exec_deeper m host (by decide)
  simp only [indexFromOutside, Code.exec_bind, deeper, Outcome.andThen_done,
    show metaHops = 1999 + 1 from rfl]
  rw [← h.field low]
  exact index_plain _ 1999 r name (h.metatable low)

end Machine.Pristine

theorem Machine.pristine_initial (w : World) : (Machine.initial w).Pristine where
  toFresh := fresh_initial w
  loaded := initial_table w loadedRef

end Lua

open Lua Lua.Run

/-- All segments that lead from a table of the library to a function are Lua names. The induction is
on the segments; the value of each is a function or another table of the library. -/
theorem leadsToFunction_named {m m' : Machine} (h : m.Pristine) {segments : List String} {v : Value}
    (initial : v.isInitial = true) (leads : leadsToFunction segments v m = .done true m') :
    ∀ segment ∈ segments, Lua.isIdentifier segment = true := by
  induction segments generalizing v with
  | nil => nofun
  | cons segment rest ih =>
    cases v with
    | table r =>
      simp only [leadsToFunction, bind_apply, attempt_apply, lifted, code_apply, Code.exec_explain,
        h.indexed (of_decide_eq_true initial), Outcome.andThen_done] at leads
      by_cases there : (initialTables.getD r {}).field segment = .nil
      · rw [there] at leads
        cases rest <;> cases leads
      · obtain ⟨named, within⟩ := initial_named there
        intro segment' mem
        rcases List.mem_cons.1 mem with rfl | mem
        · exact named
        · exact ih within leads segment' mem
    | _ => cases leads

theorem isGlobalFunction_dotted {m m' : Machine} (h : m.Pristine) {name : String}
    (is_ : isGlobalFunction name m = .done true m') : Dotted name :=
  leadsToFunction_named h (v := .table globalsRef) (by decide) is_

end Tasklang
