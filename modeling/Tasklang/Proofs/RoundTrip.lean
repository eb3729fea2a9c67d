import Tasklang.Proofs.Carriers
import Tasklang.Proofs.Constants

/-! # Structured text and back

Parsing a structured text and writing the value again, and making a value of data and reading its
structured form.
-/

namespace Tasklang

namespace Json

/-! ## Values without inner nulls -/

mutual

theorem height_pruned (v : Json) : v.pruned.height ≤ v.height := by
  cases v with
  | arr items => exact Nat.succ_le_succ (height_prunedItems items)
  | obj entries => exact Nat.succ_le_succ (height_prunedEntries entries)
  | _ => exact Nat.le_refl _

theorem height_prunedItems (items : List Json) :
    heightItems (prunedItems items) ≤ heightItems items := by
  cases items with
  | nil => exact Nat.le_refl _
  | cons v vs =>
    have first := height_pruned v
    have others := height_prunedItems vs
    rw [prunedItems]
    split <;> simp only [heightItems] <;> omega

theorem height_prunedEntries (entries : List (String × Json)) :
    heightEntries (prunedEntries entries) ≤ heightEntries entries := by
  cases entries with
  | nil => exact Nat.le_refl _
  | cons e es =>
    obtain ⟨k, v⟩ := e
    have first := height_pruned v
    have others := height_prunedEntries es
    rw [prunedEntries]
    split <;> simp only [heightEntries] <;> omega

end

theorem keys_prunedEntries (entries : List (String × Json)) :
    ((prunedEntries entries).map (·.1)).Sublist (entries.map (·.1)) := by
  induction entries with
  | nil => exact .slnil
  | cons e es ih =>
    obtain ⟨k, v⟩ := e
    rw [prunedEntries]
    split
    · exact ih.cons k
    · exact ih.cons_cons k

mutual

theorem readable_pruned {v : Json} (h : v.Every Readable) : v.pruned.Every Readable := by
  cases v with
  | arr items => exact ⟨trivial, readable_prunedItems h.2⟩
  | obj entries => exact ⟨h.1.sublist (keys_prunedEntries entries), readable_prunedEntries h.2⟩
  | _ => exact h

theorem readable_prunedItems {items : List Json} (h : EveryItem Readable items) :
    EveryItem Readable (prunedItems items) := by
  cases items with
  | nil => trivial
  | cons v vs =>
    rw [prunedItems]
    split
    · exact readable_prunedItems h.2
    · exact ⟨readable_pruned h.1, readable_prunedItems h.2⟩

theorem readable_prunedEntries {entries : List (String × Json)} (h : EveryEntry Readable entries) :
    EveryEntry Readable (prunedEntries entries) := by
  cases entries with
  | nil => trivial
  | cons e es =>
    obtain ⟨k, v⟩ := e
    rw [prunedEntries]
    split
    · exact readable_prunedEntries h.2
    · exact ⟨readable_pruned h.1, readable_prunedEntries h.2⟩

end

/-- Whether no null is among the values of a sequence or mapping. -/
def Filled : Json → Prop
  | .arr items => .null ∉ items
  | .obj entries => .null ∉ entries.map (·.2)
  | _ => True

mutual

theorem pruned_filled {v : Json} (h : v.Every Filled) : v.pruned = v := by
  cases v with
  | arr items => exact congrArg Json.arr (prunedItems_filled h.2 h.1)
  | obj entries => exact congrArg Json.obj (prunedEntries_filled h.2 h.1)
  | _ => rfl

theorem prunedItems_filled {items : List Json} (h : EveryItem Filled items)
    (full : .null ∉ items) : prunedItems items = items := by
  cases items with
  | nil => rfl
  | cons v vs =>
    rw [List.mem_cons, not_or] at full
    rw [prunedItems, if_neg (Ne.symm full.1), pruned_filled h.1, prunedItems_filled h.2 full.2]

theorem prunedEntries_filled {entries : List (String × Json)} (h : EveryEntry Filled entries)
    (full : .null ∉ entries.map (·.2)) : prunedEntries entries = entries := by
  cases entries with
  | nil => rfl
  | cons e es =>
    obtain ⟨k, v⟩ := e
    rw [List.map_cons, List.mem_cons, not_or] at full
    rw [prunedEntries, if_neg (Ne.symm full.1), pruned_filled h.1, prunedEntries_filled h.2 full.2]

end

mutual

/-- A value with the entries of its mappings sorted by key. -/
def sorted : Json → Json
  | .arr items => .arr (sortedItems items)
  | .obj entries => .obj ((sortedEntries entries).mergeSort fun e e' => e.1 ≤ e'.1)
  | v => v

def sortedItems : List Json → List Json
  | [] => []
  | v :: vs => v.sorted :: sortedItems vs

def sortedEntries : List (String × Json) → List (String × Json)
  | [] => []
  | (k, v) :: es => (k, v.sorted) :: sortedEntries es

end

/-- Whether a machine holds a value as it is: integers fit, the digits of doubles read back, and
sequences are no longer than positions go. -/
def Exact : Json → Prop
  | .int n => leastInt ≤ n ∧ n ≤ greatestInt
  | .float x => readNumber (printFloat x) = some (.float x, [])
  | .arr items => items.length < 2 ^ 63
  | _ => True

theorem finite_of_reads {x : Float} (h : readNumber (printFloat x) = some (.float x, [])) :
    Number.isFinite x = true := by
  by_contra special
  rw [printFloat, if_neg special] at h
  cases h

theorem Exact.housed {v : Json} (h : v.Exact) (keyed : v.Keyed) : v.Housed .null := by
  cases v with
  | null => rfl
  | float x => exact finite_of_reads h
  | obj entries => exact keyed
  | _ => exact h

theorem Exact.readable {v : Json} (h : v.Exact) (keyed : v.Keyed) : v.Readable := by
  cases v with
  | obj entries => exact keyed
  | arr items => trivial
  | _ => exact h

mutual

/-- Without nulls at all, none is among the values of a sequence or mapping. -/
theorem filled_of_full {v : Json} (full : v.Every (· ≠ .null)) : v.Every Filled := by
  cases v with
  | arr items => exact filledItems_of_full full.2
  | obj entries => exact filledEntries_of_full full.2
  | _ => trivial

theorem filledItems_of_full {items : List Json} (full : EveryItem (· ≠ .null) items) :
    .null ∉ items ∧ EveryItem Filled items := by
  cases items with
  | nil => exact ⟨nofun, trivial⟩
  | cons v vs =>
    obtain ⟨absent, others⟩ := filledItems_of_full full.2
    refine ⟨?_, filled_of_full full.1, others⟩
    rw [List.mem_cons, not_or]
    exact ⟨fun same => (same ▸ full.1 : Json.null.Every (· ≠ .null)) rfl, absent⟩

theorem filledEntries_of_full {entries : List (String × Json)}
    (full : EveryEntry (· ≠ .null) entries) :
    .null ∉ entries.map (·.2) ∧ EveryEntry Filled entries := by
  cases entries with
  | nil => exact ⟨nofun, trivial⟩
  | cons e es =>
    obtain ⟨absent, others⟩ := filledEntries_of_full full.2
    refine ⟨?_, filled_of_full full.1, others⟩
    rw [List.map_cons, List.mem_cons, not_or]
    exact ⟨fun same => (same ▸ full.1 : Json.null.Every (· ≠ .null)) rfl, absent⟩

end

/-- Whether an integer is one that a signed machine integer can be. -/
def Fits : Json → Prop
  | .int n => leastInt ≤ n ∧ n ≤ greatestInt
  | _ => True

theorem Constant.housed {v : Json} (constant : v.Constant) (fits : v.Fits) (full : v ≠ .null)
    (absent : Lua.Value) : v.Housed absent := by
  cases v with
  | null => exact absurd rfl full
  | int n => exact fits
  | _ => exact constant

end Json

namespace Lua.HostFunction

open Code

/-- Writing a value that was parsed gives the text of the value without its inner nulls. -/
theorem parsed_stringified {text : String} {v : Json} (read : Json.parse? text = some v)
    (housed : v.Every (Json.Housed .null)) (m : Machine) : ∃ m',
    (apply .jsonParse [.ofString text] >>= apply .jsonStringify).exec m =
      .done [.ofString v.pruned.print] m' := by
  obtain ⟨value, m', made, -⟩ := make_carries (ε := Value) housed m
  have form := make_toJson? housed made
  have given : (HostFunction.text [.ofString text] 0).exec m = .done text m := by
    simp [HostFunction.text, argument, Value.readText, Value.toText?, Value.ofString,
      Value.toBytes?]
  refine ⟨m', ?_⟩
  simp only [apply, exec_bind, given, Outcome.andThen_done, read, made, exec_pure,
    Value.readJson]
  simp [argument, form]

/-- Writing a value that was parsed gives a text that reads back as the value without its inner
nulls, the order of keys aside; so as the value itself where no sequence or mapping has a null. -/
theorem stringify_parse {text : String} {v : Json} (read : Json.parse? text = some v)
    (exact_ : v.Every Json.Exact) (m : Machine) : ∃ text' back m',
    (apply .jsonParse [.ofString text] >>= apply .jsonStringify).exec m =
      .done [.ofString text'] m' ∧ Json.parse? text' = some back ∧
    back.sorted = v.pruned.sorted ∧ (v.Every Json.Filled → back.sorted = v.sorted) := by
  have sound := Json.parse?_sound read
  have readable := exact_.combine (fun _ => Json.Exact.readable) sound.keyed
  obtain ⟨m', written⟩ :=
    parsed_stringified read (exact_.combine (fun _ => Json.Exact.housed) sound.keyed) m
  refine ⟨v.pruned.print, v.pruned, m', written, Json.parse?_print (Json.readable_pruned readable)
    (Nat.lt_of_le_of_lt (Json.height_pruned v) sound.low), rfl, fun filled => ?_⟩
  rw [Json.pruned_filled filled]

/-- Empty sequences and mappings, an integer and a double with the same value. -/
theorem stringify_parse_mapping : ∃ text' back m',
    (apply .jsonParse [.ofString "[2.0,\x7b\"a\":[],\"b\":\x7b\x7d\x7d,2]"] >>=
      apply .jsonStringify).exec {} = .done [.ofString text'] m' ∧
    Json.parse? text' = some back ∧
    back.sorted =
      (Json.arr [.float 2.0, .obj [("a", .arr []), ("b", .obj [])], .int 2]).sorted := by
  have read : Json.parse? "[2.0,\x7b\"a\":[],\"b\":\x7b\x7d\x7d,2]" =
      some (.arr [.float 2.0, .obj [("a", .arr []), ("b", .obj [])], .int 2]) := by
    decide +kernel
  have digits : Json.readNumber (Json.printFloat 2.0) = some (.float 2.0, []) := by decide +kernel
  have three (a b c : Json) : [a, b, c].length < 2 ^ 63 := by simp
  have empty : ([] : List Json).length < 2 ^ 63 := by decide
  obtain ⟨text', back, m', done, reads, -, same⟩ := stringify_parse read
    ⟨three _ _ _, digits, ⟨trivial, ⟨empty, trivial⟩, ⟨trivial, trivial⟩, trivial⟩,
      ⟨by decide, by decide⟩, trivial⟩ {}
  refine ⟨text', back, m', done, reads, same ?_⟩
  simp [Json.Every, Json.EveryItem, Json.EveryEntry, Json.Filled]

/-- A null in a sequence is lost. -/
theorem stringify_parse_null : Json.parse? "[1,null]" = some (.arr [.int 1, .null]) ∧
    ∃ text' m', (apply .jsonParse [.ofString "[1,null]"] >>= apply .jsonStringify).exec {} =
      .done [.ofString text'] m' ∧
    ∀ back, Json.parse? text' = some back → back.sorted ≠ (Json.arr [.int 1, .null]).sorted := by
  have read : Json.parse? "[1,null]" = some (.arr [.int 1, .null]) := by decide +kernel
  have two (a b : Json) : [a, b].length < 2 ^ 63 := by simp
  obtain ⟨m', written⟩ := parsed_stringified read ⟨two _ _, ⟨by decide, by decide⟩, rfl, trivial⟩ {}
  refine ⟨read, _, m', written, fun back reads => ?_⟩
  have text : Json.parse? (Json.arr [.int 1, .null]).pruned.print = some (.arr [.int 1]) := by
    decide +kernel
  rw [text] at reads
  cases reads
  decide +kernel

end Lua.HostFunction

section Values

variable {v : Json} {m : Lua.Machine}

open Lua

/-- The structured form of a value that was made of data without nulls is that data, the order of
keys aside. -/
theorem structuredForm_ofJson (constant : v.Every Json.Constant) (full : v.Every (· ≠ .null))
    (fits : v.Every Json.Fits) (m : Machine) : ∃ value m' back,
    (Value.ofJson .nil v : Run EvalError Value) m = .done value m' ∧
    structuredForm value m' = .done back m' ∧ back.sorted = v.sorted := by
  have housed : v.Every (Json.Housed .nil) :=
    (constant.combine (fun _ => And.intro) fits).combine
      (fun _ h some_ => h.1.housed h.2 some_ .nil) full
  obtain ⟨value, m', made, -⟩ := make_carries (ε := EvalError) housed m
  have form := make_toJson? housed made
  rw [Json.pruned_filled (Json.filled_of_full full)] at form
  refine ⟨value, m', v, made, ?_, rfl⟩
  simp only [structuredForm, Run.code_apply, Code.exec_mapError, Value.toJson, Code.exec_bind,
    Code.exec_get, Outcome.andThen_done, form, Code.ofExcept, Code.exec_codePure]

/-- Empty sequences and mappings, and an integer and a double with the same value. -/
def mixedData : Json :=
  .obj [("none", .arr []), ("some", .obj []), ("two", .arr [.int 2, .float 2.0])]

theorem structuredForm_ofJson_mixed : ∃ value m' back,
    (Value.ofJson .nil mixedData : Run EvalError Value) {} = .done value m' ∧
    structuredForm value m' = .done back m' ∧ back.sorted = mixedData.sorted := by
  have finite : Number.isFinite 2.0 = true := by decide +kernel
  have empty : ([] : List Json).length < 2 ^ 63 := by decide
  have two (a b : Json) : [a, b].length < 2 ^ 63 := by simp
  have constant : mixedData.Every Json.Constant :=
    ⟨(by decide : ["none", "some", "two"].Nodup), ⟨empty, trivial⟩, ⟨.nil, trivial⟩,
      ⟨two _ _, ⟨by decide, by decide⟩, finite, trivial⟩, trivial⟩
  refine structuredForm_ofJson constant ?_ ?_ {}
  · simp [mixedData, Json.Every, Json.EveryItem, Json.EveryEntry]
  · exact ⟨trivial, ⟨trivial, trivial⟩, ⟨trivial, trivial⟩,
      ⟨trivial, ⟨by decide, by decide⟩, trivial, trivial⟩, trivial⟩

end Values

end Tasklang
