import Tasklang.Proofs.Data
import Tasklang.Proofs.Folding
import Tasklang.Proofs.Notation

/-! # Sequences made of data

A sequence without nulls becomes a table as long as it is, whose items are the values of its elements;
a folded element is the value that it was, when nothing in it is a template.
-/

namespace Tasklang.Lua

open Code

namespace Table

/-- A table that was laid out for a sequence and holds nothing else. -/
structure Sequence (t : Table) (size : Nat) : Prop where
  items : t.items.size = size
  limit : t.limit = size
  others : t.others = []

theorem position_ofNat {size n : Nat} (low : 0 < n) (high : n < 2 ^ 63) :
    position? size (.int (Int64.ofNat n)) = if n ≤ size then some n else none := by
  have same : (Int64.ofNat n).toInt = n := Int64.toInt_ofNat_of_lt high
  have positive : 0 < Int64.ofNat n := by
    rw [Int64.lt_iff_toInt_lt, same]
    exact Int.natCast_pos.2 low
  simp only [position?, positive, same, Int.toNat_natCast, true_and]

namespace Sequence

variable {t : Table} {size n : Nat} {v : Value}

theorem item (h : t.Sequence size) (low : 0 < n) (high : n < 2 ^ 63) :
    t.item n = t.items.getD (n - 1) .nil := by
  rw [Table.item, getNormal, position_ofNat low high, h.items]
  by_cases fits : n ≤ size
  · simp only [fits, if_true]
  · have outside : t.items.size ≤ n - 1 := by
      rw [h.items]
      omega
    simp [fits, h.others, find, Array.getD_eq_getD_getElem?, outside]

theorem setItem (h : t.Sequence size) (low : 0 < n) (fits : n ≤ size) (bounded : size < 2 ^ 63)
    (v : Value) :
    t.setItem n v = { t with items := putAt t.items (n - 1) v } := by
  rw [Table.setItem, setNormal, position_ofNat low (by omega), h.items, if_pos fits]
  simp only [touch, h.limit, h.items, if_true]

theorem set (h : t.Sequence size) (low : 0 < n) (fits : n ≤ size) (bounded : size < 2 ^ 63)
    (v : Value) : (t.setItem n v).Sequence size := by
  rw [h.setItem low fits bounded]
  exact ⟨by simp [putAt, h.items], h.limit, h.others⟩

theorem item_set (h : t.Sequence size) {k : Nat} (low : 0 < n) (fits : n ≤ size)
    (bounded : size < 2 ^ 63) (low' : 0 < k) (high' : k < 2 ^ 63) (v : Value) :
    (t.setItem n v).item k = if k = n then v else t.item k := by
  rw [(h.set low fits bounded v).item low' high', h.setItem low fits bounded, h.item low' high']
  simp only [putAt, Array.getD_eq_getD_getElem?, Array.getElem?_setIfInBounds, h.items]
  by_cases same : k = n
  · subst same
    simp [show k - 1 < size by omega]
  · simp [same, show n - 1 ≠ k - 1 by omega]

/-- The length of a sequence without gaps. -/
theorem border (h : t.Sequence size) (bounded : size < 2 ^ 63)
    (full : ∀ k, 0 < k → k ≤ size → t.item k ≠ .nil) : t.border = size := by
  have beyond : t.item (size + 1) = .nil := by
    by_cases top : size + 1 < 2 ^ 63
    · rw [h.item (Nat.succ_pos _) top]
      simp [Array.getD_eq_getD_getElem?, h.items]
    · have last : size + 1 = 2 ^ 63 := by omega
      have wraps : ¬0 < Int64.ofNat (2 ^ 63) := by decide
      rw [last, Table.item, getNormal, position?, if_neg fun inside => wraps inside.1]
      simp [h.others, find]
  simp only [Table.border, measure, h.limit, h.items, if_true]
  split
  · rename_i gap
    exact absurd gap.2 (full size (by omega) (Nat.le_refl _))
  · simp [borderBeyond, h.items, beyond]

end Sequence

end Table

section Filling

variable {ε : Type} {r : TableRef} {size : Nat}

end Filling

end Tasklang.Lua

namespace Tasklang

open Lua

/-! ## Elements without templates -/

mutual

/-- Whether data has no null, no text that opens a placeholder, and no key twice. -/
def Json.Clean : Json → Prop
  | .null => False
  | .str s => ¬['$', '\x7b'] <:+: s.toList
  | .arr items => Json.CleanItems items
  | .obj entries => (entries.map (·.1)).Nodup ∧ Json.CleanEntries entries
  | _ => True

def Json.CleanItems : List Json → Prop
  | [] => True
  | j :: items => j.Clean ∧ Json.CleanItems items

def Json.CleanEntries : List (String × Json) → Prop
  | [] => True
  | e :: entries => e.2.Clean ∧ Json.CleanEntries entries

end

theorem Template.nextMarker_clean {cs : List Char} (clean : ¬['$', '\x7b'] <:+: cs) :
    nextMarker cs = none := by
  fun_induction nextMarker cs with
  | case1 cs => exact absurd (List.infix_cons (List.prefix_append ['$', '\x7b'] cs).isInfix) clean
  | case2 cs => exact absurd (List.prefix_append ['$', '\x7b'] cs).isInfix clean
  | case3 c cs _ _ ih =>
    rw [ih fun inside => clean (List.infix_cons inside), Option.map_none]
  | case4 => rfl

/-- A text without a placeholder is one segment, or none when it is empty. -/
theorem Template.parse_clean {text : String} (clean : ¬['$', '\x7b'] <:+: text.toList) :
    parse text = .ok (consText text.toList []) := by
  rw [parse, parseFrom.eq_def]
  split
  · rw [List.nil_append]
  · rename_i found
    rw [nextMarker_clean clean] at found
    cases found

/-- Binding entries of different names keeps them all. -/
theorem Bindings.ofList_unique {entries : List (String × Json)}
    (unique : (entries.map (·.1)).Nodup) : ofList entries = entries := by
  suffices more : ∀ bindings : Bindings, (bindings.names ++ entries.map (·.1)).Nodup →
      entries.foldl (fun acc e => acc.insert e.1 e.2) bindings = bindings ++ entries from
    more [] unique
  clear unique
  induction entries with
  | nil => exact fun bindings _ => (List.append_nil bindings).symm
  | cons e rest ih =>
    intro bindings unique
    obtain ⟨k, j⟩ := e
    have new : k ∉ bindings.names := fun there =>
      (List.nodup_append.1 unique).2.2 _ there _ (.head _) rfl
    show rest.foldl (fun acc e => acc.insert e.1 e.2) (insert k j bindings) = _
    rw [insert_new new, ih, List.append_assoc, List.singleton_append]
    simpa [names] using unique

namespace Folder

variable (f : Folder) (m : Machine)

theorem fold_clean {text : String} (clean : ¬['$', '\x7b'] <:+: text.toList) :
    f.fold text m = .done (.const (.str text)) m := by
  have parsed := Template.parse_clean clean
  rw [fold_long parsed (by unfold Template.consText; split <;> nofun), Template.consText]
  split
  · rename_i empty
    have : text = "" := by simpa using empty
    subst this
    rfl
  · rename_i filled
    have : text ≠ "" := by simpa using filled
    simp only [String.ofList_toList, foldSegments, Run.bind_apply, Run.pure_apply,
      Outcome.andThen_done, joinText, String.isEmpty_iff, this, if_false]
    simp [literalOf, Template.expressions, textOf]

mutual

/-- Folding clean data gives a literal of the same data, and does nothing else. -/
theorem reconstruct_clean {j : Json} (clean : j.Clean) :
    ∃ l, f.reconstruct j m = .done l m ∧ l.constant = some j := by
  cases j with
  | null => exact clean.elim
  | str s => 
    rw [Json.Clean] at clean
    exact ⟨_, by rw [reconstruct, fold_clean f m clean], rfl⟩
  | arr items =>
    rw [Json.Clean] at clean
    obtain ⟨ls, done, known⟩ := reconstructAll_clean clean
    refine ⟨.seq ls, ?_, ?_⟩
    · simp only [reconstruct, Run.bind_apply, done, Outcome.andThen_done, Run.pure_apply]
    · rw [Literal.constant, known, Option.map_some]
  | obj entries =>
    rw [Json.Clean] at clean
    obtain ⟨ls, done, known⟩ := reconstructEntries_clean clean.2
    refine ⟨.map ls, ?_, ?_⟩
    · simp only [reconstruct, Run.bind_apply, done, Outcome.andThen_done, Run.pure_apply]
    · rw [Literal.constant, known, Option.map_some, Bindings.ofList_unique clean.1]
  | bool b => exact ⟨.const (.bool b), rfl, rfl⟩
  | int n => exact ⟨.const (.int n), rfl, rfl⟩
  | float x => exact ⟨.const (.float x), rfl, rfl⟩

theorem reconstructAll_clean {items : List Json} (clean : Json.CleanItems items) :
    ∃ ls, f.reconstructAll items m = .done ls m ∧ Literal.constants ls = some items := by
  cases items with
  | nil => exact ⟨[], rfl, rfl⟩
  | cons j items =>
    rw [Json.CleanItems] at clean
    obtain ⟨l, first, known⟩ := reconstruct_clean clean.1
    obtain ⟨ls, rest, others⟩ := reconstructAll_clean clean.2
    refine ⟨l :: ls, ?_, ?_⟩
    · simp only [reconstructAll, Run.bind_apply, first, rest, Outcome.andThen_done, Run.pure_apply]
    · simp only [Literal.constants, known, others]

theorem reconstructEntries_clean {entries : List (String × Json)}
    (clean : Json.CleanEntries entries) :
    ∃ ls, f.reconstructEntries entries m = .done ls m ∧
      Literal.constantEntries ls = some entries := by
  cases entries with
  | nil => exact ⟨[], rfl, rfl⟩
  | cons e entries =>
    obtain ⟨k, j⟩ := e
    rw [Json.CleanEntries] at clean
    obtain ⟨l, first, known⟩ := reconstruct_clean clean.1
    obtain ⟨ls, rest, others⟩ := reconstructEntries_clean clean.2
    refine ⟨(k, l) :: ls, ?_, ?_⟩
    · simp only [reconstructEntries, Run.bind_apply, first, rest, Outcome.andThen_done,
        Run.pure_apply]
    · simp only [Literal.constantEntries, known, others]

end

end Folder

/-! ## Values of known literals -/

/-- A machine that only gained, as far as its tables at the first so many places go. -/
structure Lua.Machine.AddsAfter (n : Nat) (m m' : Machine) : Prop where
  grows : m.Grows m'
  tables : ∀ r < n, m'.tables.getD r {} = m.tables.getD r {}
  cells : ∀ c < m.cells.size, m'.cells.getD c .nil = m.cells.getD c .nil
  world : m'.world = m.world

namespace Lua.Machine.AddsAfter

variable {n : Nat} {m m' m'' : Machine}

theorem trans (h : AddsAfter n m m') (h' : AddsAfter n m' m'') : AddsAfter n m m'' where
  grows := h.grows.trans h'.grows
  tables r hr := (h'.tables r hr).trans (h.tables r hr)
  cells c hc := (h'.cells c (Nat.lt_of_lt_of_le hc h.grows.cells)).trans (h.cells c hc)
  world := h'.world.trans h.world

theorem ofAdds (h : m.Adds m') (room : n ≤ m.tables.size) : AddsAfter n m m' :=
  ⟨h.grows, fun r hr => h.tables r (Nat.lt_of_lt_of_le hr room), h.cells, h.world⟩

theorem changed {r : TableRef} (new : n ≤ r) (f : Table → Table) :
    AddsAfter n m { m with tables := changeAt m.tables r f } :=
  ⟨.changeTable m r f, fun _ hq => getD_changeAt_other _ _ (by omega) _, fun _ _ => rfl, rfl⟩

/-- Adding a table and filling it only adds. -/
theorem pushed {t : Table}
    (h : AddsAfter m.tables.size { m with tables := m.tables.push t } m') : m.Adds m' where
  grows := (Machine.Grows.pushTable m t).trans h.grows
  tables r hr := (h.tables r hr).trans (getD_push_other _ _ (Nat.ne_of_lt hr) _)
  cells := h.cells
  world := h.world

end Lua.Machine.AddsAfter

/-! ## Known literals -/

theorem Literal.constants_cons {l : Literal} {ls : List Literal} {js : List Json} :
    constants (l :: ls) = some js ↔
      ∃ v vs, l.constant = some v ∧ constants ls = some vs ∧ js = v :: vs := by
  rw [constants]
  constructor
  · intro known
    split at known
    · next v vs first others =>
      cases known
      exact ⟨v, vs, first, others, rfl⟩
    · cases known
  · rintro ⟨v, vs, first, others, rfl⟩
    rw [first, others]

theorem Literal.constantEntries_cons {k : String} {l : Literal} {es : List (String × Literal)}
    {js : List (String × Json)} : constantEntries ((k, l) :: es) = some js ↔
      ∃ v vs, l.constant = some v ∧ constantEntries es = some vs ∧ js = (k, v) :: vs := by
  rw [constantEntries]
  constructor
  · intro known
    split at known
    · next v vs first others =>
      cases known
      exact ⟨v, vs, first, others, rfl⟩
    · cases known
  · rintro ⟨v, vs, first, others, rfl⟩
    rw [first, others]

namespace Execution

variable (scope : Scope)

section Filling

variable {scope} {m m₁ m' : Machine} {v : Value} {r : TableRef} {l : Literal}

/-- The value of a sequence is a new table that is filled. -/
theorem literalValue_seq {ls : List Literal} (filled : fillSequence scope m.tables.size 1 ls
      { m with tables := m.tables.push {} } = .done () m') :
    literalValue scope (.seq ls) m = .done (.table m.tables.size) m' := by
  simp only [literalValue, Run.newTable, Run.bind_apply, Run.code_apply, Code.newTable,
    Outcome.andThen_done, filled, Run.pure_apply]

/-- The value of a mapping is a new table that is filled. -/
theorem literalValue_map {es : List (String × Literal)} (filled : fillMapping scope m.tables.size es
      { m with tables := m.tables.push {} } = .done () m') :
    literalValue scope (.map es) m = .done (.table m.tables.size) m' := by
  simp only [literalValue, Run.newTable, Run.bind_apply, Run.code_apply, Code.newTable,
    Outcome.andThen_done, filled, Run.pure_apply]

theorem fillSequence_cons (made : literalValue scope l m = .done v m₁) (n : Nat)
    (ls : List Literal) : fillSequence scope r n (l :: ls) m = fillSequence scope r (n + 1) ls
      { m₁ with tables := changeAt m₁.tables r fun t => t.setItem n v } := by
  simp only [fillSequence, Run.bind_apply, made, Outcome.andThen_done, Run.modifyTable,
    Run.code_apply, Code.modifyTable]

theorem fillMapping_cons (made : literalValue scope l m = .done v m₁) (k : String)
    (es : List (String × Literal)) : fillMapping scope r ((k, l) :: es) m = fillMapping scope r es
      { m₁ with tables := changeAt m₁.tables r fun t => t.setField k v } := by
  simp only [fillMapping, Run.bind_apply, made, Outcome.andThen_done, Run.modifyTable,
    Run.code_apply, Code.modifyTable]

end Filling

mutual

/-- The value of a known literal is there at once, and making it only adds to the machine. -/
theorem literalValue_known {l : Literal} {j : Json} (known : l.constant = some j) (m : Machine) :
    ∃ v m', literalValue scope l m = .done v m' ∧ m.Adds m' := by
  cases l with
  | const j =>
    obtain ⟨v, m', made⟩ :=
      (Value.make_ends .nil j : (Value.make .nil j : Code RuntimeError Value).Ends) m
    exact ⟨v, m', by rwa [literalValue, Value.ofJson, Run.code_apply], Value.make_adds made⟩
  | deferred segments => cases known
  | expr source => cases known
  | seq items =>
    obtain ⟨js, known, -⟩ := Option.map_eq_some_iff.1 known
    obtain ⟨m', filled, adds⟩ := fillSequence_known (n := m.tables.size) (r := m.tables.size) (i := 1)
      known (Nat.le_refl _) { m with tables := m.tables.push {} } (by simp)
    exact ⟨.table m.tables.size, m', literalValue_seq filled, adds.pushed⟩
  | map entries =>
    obtain ⟨js, known, -⟩ := Option.map_eq_some_iff.1 known
    obtain ⟨m', filled, adds⟩ := fillMapping_known (n := m.tables.size) (r := m.tables.size) known
      (Nat.le_refl _) { m with tables := m.tables.push {} } (by simp)
    exact ⟨.table m.tables.size, m', literalValue_map filled, adds.pushed⟩

theorem fillSequence_known {n r i : Nat} {ls : List Literal} {js : List Json}
    (known : Literal.constants ls = some js) (new : n ≤ r) (m : Machine)
    (room : n ≤ m.tables.size) :
    ∃ m', fillSequence scope r i ls m = .done () m' ∧ Machine.AddsAfter n m m' := by
  cases ls with
  | nil => exact ⟨m, rfl, .ofAdds (.refl m) room⟩
  | cons l ls =>
    obtain ⟨_, _, known₁, known₂, -⟩ := Literal.constants_cons.1 known
    obtain ⟨v, m₁, first, adds⟩ := literalValue_known known₁ m
    obtain ⟨m₂, rest, adds₂⟩ := fillSequence_known (i := i + 1) known₂ new
      { m₁ with tables := changeAt m₁.tables r fun t => t.setItem i v }
      (by rw [changeAt_size]; exact Nat.le_trans room adds.grows.tables)
    exact ⟨m₂, (fillSequence_cons first i ls).trans rest,
      (Machine.AddsAfter.ofAdds adds room).trans ((Machine.AddsAfter.changed new _).trans adds₂)⟩

theorem fillMapping_known {n r : Nat} {es : List (String × Literal)} {js : List (String × Json)}
    (known : Literal.constantEntries es = some js) (new : n ≤ r) (m : Machine)
    (room : n ≤ m.tables.size) :
    ∃ m', fillMapping scope r es m = .done () m' ∧ Machine.AddsAfter n m m' := by
  cases es with
  | nil => exact ⟨m, rfl, .ofAdds (.refl m) room⟩
  | cons e es =>
    obtain ⟨k, l⟩ := e
    obtain ⟨_, _, known₁, known₂, -⟩ := Literal.constantEntries_cons.1 known
    obtain ⟨v, m₁, first, adds⟩ := literalValue_known known₁ m
    obtain ⟨m₂, rest, adds₂⟩ := fillMapping_known known₂ new
      { m₁ with tables := changeAt m₁.tables r fun t => t.setField k v }
      (by rw [changeAt_size]; exact Nat.le_trans room adds.grows.tables)
    exact ⟨m₂, (fillMapping_cons first k es).trans rest,
      (Machine.AddsAfter.ofAdds adds room).trans ((Machine.AddsAfter.changed new _).trans adds₂)⟩

end

end Execution

end Tasklang
