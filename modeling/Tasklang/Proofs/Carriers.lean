import Tasklang.Proofs.Elements
import Tasklang.Proofs.Notation

/-! # Data in tables

Data that is made into tables has its structured form again, whatever stands for its nulls: the
values of a sequence are those of its items, and a table made of a mapping holds its fields in order
and nothing else. Tables leave out what has no structured form, which the nulls of structured text
are as well, so that only a null by itself comes back.
-/

namespace Tasklang.Double

theorem not_isNaN {x : Float} (h : Number.isFinite x = true) : Number.isNaN x = false := by
  rw [Number.isFinite, bne_iff_ne] at h
  simp [Number.isNaN, h]

theorem toFloat_ofFloat {x : Float} (h : Number.isFinite x = true) : (ofFloat x).toFloat = x := by
  rw [ofFloat, not_isNaN h, if_neg Bool.false_ne_true, toFloat, Float.ofBits_toBits]

theorem isFinite_ofFloat {x : Float} (h : Number.isFinite x = true) :
    (ofFloat x).isFinite = true := by
  rw [ofFloat, not_isNaN h, if_neg Bool.false_ne_true, isFinite]
  rw [Number.isFinite, bne_iff_ne, Number.exponentBits] at h
  have below : (~~~signBit).toNat = 2 ^ 63 - 1 := by decide
  have top := x.toBits.toNat_lt
  simp only [decide_eq_true_eq, UInt64.lt_iff_toNat_lt, UInt64.toNat_and, below,
    Nat.and_two_pow_sub_one_eq_mod]
  simp only [UInt64.toNat_shiftRight, Nat.shiftRight_eq_div_pow] at h
  simp at h ⊢
  omega
end Tasklang.Double

namespace Tasklang.Lua.Table

theorem find_of_mem {entries : List (Value × Value)} (unique : (entries.map (·.1)).Nodup)
    {e : Value × Value} (there : e ∈ entries) : find e.1 entries = e.2 := by
  induction entries with
  | nil => cases there
  | cons e' rest ih =>
    rw [List.map_cons, List.nodup_cons] at unique
    rcases List.mem_cons.1 there with rfl | there
    · rw [find, if_pos rfl]
    · rw [find, if_neg, ih unique.2 there]
      exact fun same => unique.1 (same ▸ List.mem_map_of_mem there)

/-- A table that holds nothing but fields. -/
structure Record (t : Table) (fields : List (String × Value)) : Prop where
  items : t.items = #[]
  limit : t.limit = 0
  others : t.others = fields.map fun e => (Value.ofString e.1, e.2)
  present : ∀ e ∈ fields, e.2 ≠ .nil

namespace Record

variable {t : Table} {fields : List (String × Value)}

theorem filter_others (h : t.Record fields) :
    t.others.filter (fun e => e.2 != .nil) = t.others := by
  rw [List.filter_eq_self, h.others]
  intro e there
  obtain ⟨e', there', rfl⟩ := List.mem_map.1 there
  simpa using h.present e' there'

theorem usedPositions (h : t.Record fields) : t.usedPositions = [] := by
  simp [Table.usedPositions, h.items]

theorem live (h : t.Record fields) : t.live = fields.map fun e => (Value.ofString e.1, e.2) := by
  rw [Table.live, h.usedPositions, h.filter_others, h.others]
  rfl

theorem border (h : t.Record fields) : t.border = 0 := by
  have first : t.item 1 = .nil := by
    have absent : Value.int (Int64.ofNat 1) ∉ t.others.map (·.1) := by
      rw [h.others, List.map_map]
      simp [Value.ofString]
    rw [item, getNormal, position?, h.items, if_neg (by decide)]
    exact find_of_notMem absent
  simp [Table.border, measure, h.limit, h.items, borderBeyond, first]

theorem hasKey_new (h : t.Record fields) {k : String} (new : k ∉ fields.map (·.1)) :
    hasKey (.ofString k) t.others = false := by
  rw [← Bool.not_eq_true, hasKey_iff, h.others, List.map_map]
  intro there
  obtain ⟨e, there, same⟩ := List.mem_map.1 there
  exact new (List.mem_map.2 ⟨e, there, Bytes.ofString_injective (Value.str.inj same)⟩)

theorem outside (h : t.Record fields) {e : Value × Value} (there : e ∈ t.others) (size : Nat) :
    position? size e.1 = none := by
  rw [h.others] at there
  obtain ⟨e', -, rfl⟩ := List.mem_map.1 there
  rfl

/-- A record that is laid out anew without a sequence stays the same record. -/
theorem resize (h : t.Record fields) (room : Nat) : (t.resize 0 room).Record fields := by
  have kept : ∀ (store : Array Value → Value × Value → Array Value) (entries : List (Value × Value))
      (items : Array Value), (∀ e ∈ entries, ∀ items, store items e = items) →
      entries.foldl store items = items := by
    intro store entries
    induction entries with
    | nil => exact fun items _ => rfl
    | cons e entries ih =>
      intro items same
      obtain ⟨first, others⟩ := List.forall_mem_cons.1 same
      rw [List.foldl_cons, first items]
      exact ih items others
  have others : t.others.filter (fun e => !inSequence 0 e.1) = t.others :=
    List.filter_eq_self.2 fun e there => by simp [inSequence, h.outside there]
  simp only [Table.resize, h.usedPositions, List.filter_nil, List.map_nil, List.foldl_nil,
    h.filter_others, h.items]
  refine ⟨(kept _ t.others _ fun e there items => ?_).trans rfl, rfl, others.trans h.others, h.present⟩
  simp only [h.outside there]

theorem grow (h : t.Record fields) (k : String) : (t.grow (.ofString k)).Record fields := by
  have positions : (Value.ofString k :: t.others.map (·.1)).filterMap (position? positionLimit) =
      [] := by
    rw [List.filterMap_eq_nil_iff]
    intro key there
    rcases List.mem_cons.1 there with rfl | there
    · rfl
    · obtain ⟨e, there', rfl⟩ := List.mem_map.1 there
      exact h.outside there' _
  simp only [Table.grow, h.usedPositions, h.filter_others, List.nil_append, positions]
  exact h.resize _

theorem withEntry (h : t.Record fields) {k : String} (new : k ∉ fields.map (·.1)) (v : Value) :
    withEntry t.others (.ofString k, v) =
      (fields ++ [(k, v)]).map fun e => (Value.ofString e.1, e.2) := by
  have apart : t.others.filter (fun e => e.1 != Value.ofString k) = t.others := by
    refine List.filter_eq_self.2 fun e there => ?_
    have absent := (hasKey_iff (.ofString k) t.others).not.1 (by simp [h.hasKey_new new])
    simp only [bne_iff_ne]
    exact fun same => absent (List.mem_map.2 ⟨e, there, same⟩)
  rw [Table.withEntry, apart, h.others, List.map_append]
  rfl

theorem present_append (h : t.Record fields) {k : String} {v : Value} (some_ : v ≠ .nil) :
    ∀ e ∈ fields ++ [(k, v)], e.2 ≠ .nil := by
  intro e there
  rcases List.mem_append.1 there with there | last
  · exact h.present e there
  · rw [List.mem_singleton.1 last]
    exact some_

/-- Wherever a new field finds room, it comes last. -/
theorem insert? (h : t.Record fields) {k : String} (new : k ∉ fields.map (·.1)) {v : Value}
    (some_ : v ≠ .nil) {t' : Table} (found : t.insert? (.ofString k) v = some t') :
    t'.Record (fields ++ [(k, v)]) := by
  have present := h.present_append (k := k) some_
  simp only [Table.insert?, Value.ofString, position?] at found
  split at found
  · cases found
  · cases found
    exact ⟨h.items, h.limit, h.withEntry new v, present⟩
  · next layout gone taken =>
    cases found
    -- The key whose place is taken is absent, and a record has no absent keys.
    have kept : t.others.filter (fun e => e.1 != gone) = t.others := by
      refine List.filter_eq_self.2 fun e there => ?_
      have absent := Layout.place_gone taken
      simp only [bne_iff_ne]
      rintro rfl
      rw [isPresent, find_of_mem t.unique there] at absent
      have kept : e ∈ t.others.filter fun e => e.2 != .nil := by rwa [h.filter_others]
      rw [(List.mem_filter.1 kept).2] at absent
      cases absent
    refine ⟨h.items, h.limit, ?_, present⟩
    simp only [kept]
    exact h.withEntry new v

theorem setField (h : t.Record fields) {k : String} (new : k ∉ fields.map (·.1)) {v : Value}
    (some_ : v ≠ .nil) : (t.setField k v).Record (fields ++ [(k, v)]) := by
  have absent := h.hasKey_new new
  simp only [Table.setField, setNormal, Value.ofString, position?, if_neg some_] at absent ⊢
  rw [absent, if_neg Bool.false_ne_true]
  split
  · next found => exact h.insert? new some_ found
  · have grown := h.grow k
    cases found : (t.grow (.str (Bytes.ofString k))).insert? (.str (Bytes.ofString k)) v with
    | some t' => exact grown.insert? new some_ found
    | none => exact ⟨grown.items, grown.limit, grown.withEntry new v, grown.present_append some_⟩

end Record
end Tasklang.Lua.Table

namespace Tasklang

namespace Json

mutual

/-- A value without the nulls inside its sequences and mappings. -/
def pruned : Json → Json
  | .arr items => .arr (prunedItems items)
  | .obj entries => .obj (prunedEntries entries)
  | v => v

def prunedItems : List Json → List Json
  | [] => []
  | v :: vs => if v = .null then prunedItems vs else pruned v :: prunedItems vs

def prunedEntries : List (String × Json) → List (String × Json)
  | [] => []
  | (k, v) :: es => if v = .null then prunedEntries es else (k, pruned v) :: prunedEntries es

end

/-- Whether a value is what a table can be made of: integers fit, doubles are finite, sequences are
no longer than positions go, no mapping has a key twice, and nulls have a value that is there. -/
def Housed (absent : Lua.Value) : Json → Prop
  | .null => absent = .null
  | .int n => leastInt ≤ n ∧ n ≤ greatestInt
  | .float x => Number.isFinite x
  | .arr items => items.length < 2 ^ 63
  | .obj entries => (entries.map (·.1)).Nodup
  | _ => True

end Json

namespace Lua

open Code

/-- Whether a value is data as long as the tables from a place on stay as they are: its structured
form is the data without its inner nulls, and tables leave it out just when it is null. -/
structure Machine.Carries (m : Machine) (low : Nat) (v : Value) (j : Json) : Prop where
  form : ∀ (tables : Array Table), m.tables.size ≤ tables.size →
    (∀ q, low ≤ q → q < m.tables.size → tables.getD q {} = m.tables.getD q {}) →
    ∀ (fuel : Nat) (above : List TableRef), (∀ a ∈ above, a < low) → tables.size < fuel + low →
      Value.toJsonFrom tables fuel above v = .ok j.pruned
  skipped : v.isSkipped = decide (j = .null)
  some_ : v ≠ .nil

namespace Machine.Carries

variable {m m' : Machine} {low low' : Nat} {v : Value} {j : Json}

theorem mono (h : m.Carries low' v j) (below : low ≤ low') : m.Carries low v j := by
  refine ⟨fun tables room same fuel above under enough => ?_, h.skipped, h.some_⟩
  exact h.form tables room (fun q least most => same q (Nat.le_trans below least) most) fuel above
    (fun a there => Nat.lt_of_lt_of_le (under a there) below) (by omega)

theorem kept (h : m.Carries low v j) (room : m.tables.size ≤ m'.tables.size)
    (same : ∀ q, low ≤ q → q < m.tables.size → m'.tables.getD q {} = m.tables.getD q {}) :
    m'.Carries low v j := by
  refine ⟨fun tables room' same' => ?_, h.skipped, h.some_⟩
  refine h.form tables (Nat.le_trans room room') fun q least most => ?_
  rw [same' q least (Nat.lt_of_lt_of_le most room), same q least most]

/-- A value that is no table carries data wherever it is. -/
theorem scalar (least : low ≤ m.tables.size)
    (form : ∀ tables fuel above, Value.toJsonFrom tables (fuel + 1) above v = .ok j.pruned)
    (skipped : v.isSkipped = decide (j = .null)) (some_ : v ≠ .nil) : m.Carries low v j := by
  refine ⟨fun tables room same fuel above under enough => ?_, skipped, some_⟩
  obtain ⟨fuel, rfl⟩ : ∃ k, fuel = k + 1 := ⟨fuel - 1, by omega⟩
  exact form tables fuel above

end Machine.Carries

/-- The values of a sequence are its data without nulls. -/
theorem itemsToJson_carried {convert : Value → Except Fault Json} {vs : List Value}
    {items : List Json} (carried : List.Forall₂ (fun v j => convert v = .ok j.pruned ∧
      v.isSkipped = decide (j = .null)) vs items) :
    Value.itemsToJson convert vs = .ok (Json.prunedItems items) := by
  induction carried with
  | nil => rfl
  | @cons v j vs items here _ ih =>
    obtain ⟨form, skipped⟩ := here
    rw [Value.itemsToJson] at ih ⊢
    by_cases null : j = .null
    · rw [List.filter_cons_of_neg (by simp [skipped, null]), ih, Json.prunedItems, if_pos null]
    · rw [List.filter_cons_of_pos (by simp [skipped, null]), List.mapM_cons, form, ih,
        Json.prunedItems, if_neg null]
      rfl

theorem entriesToJson_carried {convert : Value → Except Fault Json}
    {fields : List (String × Value)} {entries : List (String × Json)}
    (carried : List.Forall₂ (fun e e' => e.1 = e'.1 ∧ convert e.2 = .ok e'.2.pruned ∧
      e.2.isSkipped = decide (e'.2 = .null)) fields entries) :
    Value.entriesToJson convert (fields.map fun e => (Value.ofString e.1, e.2)) =
      .ok (Json.prunedEntries entries) := by
  induction carried with
  | nil => rfl
  | @cons e e' fields entries here _ ih =>
    obtain ⟨k, v⟩ := e
    obtain ⟨k', j⟩ := e'
    obtain ⟨rfl, form, skipped⟩ := here
    rw [Value.entriesToJson] at ih ⊢
    rw [List.map_cons]
    by_cases null : j = .null
    · rw [List.filter_cons_of_neg (by simp_all), ih, Json.prunedEntries, if_pos null]
    · have text : Value.textOf (Bytes.ofString k) = .ok k := by
        rw [Value.textOf, Bytes.decode?_ofString]
      have entry : Value.entryToJson convert (Value.ofString k, v) = .ok (k, j.pruned) := by
        simp only [Value.entryToJson, Value.ofString, text, form]
        rfl
      rw [List.filter_cons_of_pos (by simp_all [Value.isSkipped, Value.ofString]), List.mapM_cons,
        entry, ih, Json.prunedEntries, if_neg null]
      rfl

section Making

variable {ε : Type}

theorem carries_scalar {absent v : Value} {j : Json} {m : Machine}
    (made : (Value.make absent j : Code ε Value).exec m = .done v m)
    (form : ∀ tables fuel above, Value.toJsonFrom tables (fuel + 1) above v = .ok j.pruned)
    (skipped : v.isSkipped = decide (j = .null)) (some_ : v ≠ .nil) :
    ∃ v m', (Value.make absent j : Code ε Value).exec m = .done v m' ∧
      m'.Carries m.tables.size v j :=
  ⟨v, m, made, .scalar (Nat.le_refl _) form skipped some_⟩

/-- A table that does not change carries what its parts come to. -/
theorem table_carries {m : Machine} {r : TableRef} {j : Json} (placed : r < m.tables.size)
    (full : decide (j = .null) = false)
    (form : ∀ convert : Value → Except Fault Json,
      (∀ v j', m.Carries (r + 1) v j' → convert v = .ok j'.pruned) →
      (if (m.tables.getD r {}).border > 0 ||
          (m.tables.getD r {}).metatable == some arrayMetaRef then
        (Value.itemsToJson convert (Value.itemsOf (m.tables.getD r {}))).map .arr
      else (Value.entriesToJson convert (m.tables.getD r {}).live).map .obj) = .ok j.pruned) :
    m.Carries r (.table r) j := by
  refine ⟨fun tables room same fuel above under enough => ?_, full.symm, nofun⟩
  have placed' := Nat.lt_of_lt_of_le placed room
  obtain ⟨fuel, rfl⟩ : ∃ k, fuel = k + 1 := ⟨fuel - 1, by omega⟩
  have here := same r (Nat.le_refl _) placed
  have outside : above.contains r = false := by
    rw [← Bool.not_eq_true, List.contains_iff_mem]
    exact fun there => Nat.lt_irrefl r (under r there)
  simp only [Value.toJsonFrom, outside, here]
  refine form _ fun v j' carries => carries.form tables room
    (fun q least => same q (Nat.le_of_succ_le least)) fuel _ ?_ (by omega)
  exact List.forall_mem_cons.2
    ⟨Nat.lt_succ_self r, fun a there => Nat.lt_succ_of_lt (under a there)⟩

mutual

/-- Making data gives a value that carries it, from the first new table on. -/
theorem make_carries {absent : Value} {j : Json} (housed : j.Every (Json.Housed absent))
    (m : Machine) : ∃ v m', (Value.make absent j : Code ε Value).exec m = .done v m' ∧
      m'.Carries m.tables.size v j := by
  cases j with
  | null =>
    have null : absent = .null := housed
    subst null
    exact carries_scalar rfl (fun _ _ _ => rfl) rfl nofun
  | bool b => exact carries_scalar rfl (fun _ _ _ => rfl) rfl nofun
  | int n =>
    obtain ⟨low, high⟩ : Json.leastInt ≤ n ∧ n ≤ Json.greatestInt := housed
    have value : Value.ofInt n = .int (Int64.ofInt n) := if_pos ⟨low, high⟩
    have same : (Int64.ofInt n).toInt = n :=
      Int64.toInt_ofInt_of_le low (Int.lt_of_le_sub_one high)
    refine carries_scalar (v := .int (Int64.ofInt n)) (congrArg (Outcome.done · m) value)
      (fun _ _ _ => ?_) rfl nofun
    rw [Value.toJsonFrom, same]
    rfl
  | float x =>
    have finite : Number.isFinite x = true := housed
    refine carries_scalar rfl (fun _ _ _ => ?_) rfl nofun
    rw [Value.toJsonFrom, Double.isFinite_ofFloat finite, if_pos rfl, Double.toFloat_ofFloat finite]
    rfl
  | str s =>
    refine carries_scalar rfl (fun _ _ _ => ?_) rfl nofun
    simp only [Value.ofString, Value.toJsonFrom, Value.textOf, Bytes.decode?_ofString]
    rfl
  | arr items =>
    have laid : ({ Table.withRoom items.length 0 with metatable := some arrayMetaRef } :
        Table).Sequence items.length := ⟨by simp [Table.withRoom], rfl, rfl⟩
    obtain ⟨vs, m', filled, room, -, sequence, metatable, -, values, carried⟩ :=
      fillItems_carries (r := m.tables.size) (n := 1)
        (m := { m with tables := m.tables.push { Table.withRoom items.length 0 with
          metatable := some arrayMetaRef } }) housed.2 (by simp) (by rwa [getD_push_same])
        Nat.one_pos (by omega) housed.1
    rw [getD_push_same] at metatable
    rw [Array.size_push] at room
    refine ⟨.table m.tables.size, m', ?_, table_carries (Nat.lt_of_succ_le room) rfl
      fun convert inner => ?_⟩
    · simp only [Value.make, exec_bind, newTable, Outcome.andThen_done, filled, exec_pure]
    · have length := carried.length_eq
      have border : (m'.tables.getD m.tables.size {}).border = items.length :=
        sequence.border housed.1 fun k least most => by
          rw [show k = 1 + (k - 1) by omega, values (k - 1) (by omega)]
          exact (List.forall₂_iff_get.1 carried).2 (k - 1) (by omega) (by omega) |>.some_
      have items : Value.itemsOf (m'.tables.getD m.tables.size {}) = vs := by
        refine List.ext_getElem (by rw [Value.itemsOf, border]; simp [length])
          fun i below below' => ?_
        simp only [Value.itemsOf, List.getElem_map, List.getElem_range]
        rw [Nat.add_comm, values i below']
      have marked : (m'.tables.getD m.tables.size {}).metatable == some arrayMetaRef := by
        rw [metatable]
        rfl
      rw [marked, Bool.or_true, if_pos rfl, items, itemsToJson_carried]
      · rfl
      · exact carried.imp fun v j carries => ⟨inner v j carries, carries.skipped⟩
  | obj entries =>
    have unique : (([] : List (String × Value)).map (·.1) ++ entries.map (·.1)).Nodup := housed.1
    have laid : (Table.withRoom 0 entries.length).Record [] :=
      ⟨by simp [Table.withRoom], rfl, rfl, nofun⟩
    obtain ⟨fields, m', filled, room, -, record, metatable, carried⟩ :=
      fillEntries_carries (r := m.tables.size)
        (m := { m with tables := m.tables.push (Table.withRoom 0 entries.length) }) housed.2
        (by simp) (by rwa [getD_push_same]) unique
    rw [getD_push_same] at metatable
    rw [Array.size_push] at room
    refine ⟨.table m.tables.size, m', ?_, table_carries (Nat.lt_of_succ_le room) rfl
      fun convert inner => ?_⟩
    · simp only [Value.make, exec_bind, newTable, Outcome.andThen_done, filled, exec_pure]
    · have unmarked : ((m'.tables.getD m.tables.size {}).border > 0 ||
          (m'.tables.getD m.tables.size {}).metatable == some arrayMetaRef) = false := by
        rw [record.border, metatable]
        rfl
      rw [unmarked, if_neg Bool.false_ne_true, record.live, entriesToJson_carried]
      · rfl
      · exact carried.imp fun e e' here => ⟨here.1, inner _ _ here.2, here.2.skipped⟩

theorem fillItems_carries {absent : Value} {items : List Json}
    (housed : Json.EveryItem (Json.Housed absent) items) {r n size : Nat} {m : Machine}
    (placed : r < m.tables.size) (sequence : (m.tables.getD r {}).Sequence size) (low : 0 < n)
    (fits : n + items.length ≤ size + 1) (bounded : size < 2 ^ 63) :
    ∃ vs m', (Value.fillItems absent r n items : Code ε Unit).exec m = .done () m' ∧
      m.tables.size ≤ m'.tables.size ∧
      (∀ q < m.tables.size, q ≠ r → m'.tables.getD q {} = m.tables.getD q {}) ∧
      (m'.tables.getD r {}).Sequence size ∧
      (m'.tables.getD r {}).metatable = (m.tables.getD r {}).metatable ∧
      (∀ k, 0 < k → k < n → (m'.tables.getD r {}).item k = (m.tables.getD r {}).item k) ∧
      (∀ i (h : i < vs.length), (m'.tables.getD r {}).item (n + i) = vs[i]) ∧
      List.Forall₂ (m'.Carries (r + 1)) vs items := by
  cases items with
  | nil =>
    exact ⟨[], m, rfl, Nat.le_refl _, fun _ _ _ => rfl, sequence, rfl, fun _ _ _ => rfl, nofun,
      .nil⟩
  | cons j items =>
    rw [List.length_cons] at fits
    obtain ⟨v, m₁, made, carries⟩ := make_carries housed.1 m
    have adds := Value.make_adds made
    have placed₁ : r < m₁.tables.size := Nat.lt_of_lt_of_le placed adds.grows.tables
    have here : (changeAt m₁.tables r fun t => t.setItem n v).getD r {} =
        (m.tables.getD r {}).setItem n v := by
      rw [getD_changeAt_same _ _ placed₁, adds.tables r placed]
    have set := sequence.set low (by omega) bounded v
    obtain ⟨vs, m', filled, room, others, sequence', metatable, before, values, carried⟩ :=
      fillItems_carries (n := n + 1)
        (m := { m₁ with tables := changeAt m₁.tables r fun t => t.setItem n v }) housed.2
        (by rwa [changeAt_size]) (by rwa [here]) (by omega) (by omega) bounded
    simp only [changeAt_size, here] at room others metatable before values
    have kept (q : Nat) (hq : q < m₁.tables.size) (apart : q ≠ r) :
        m'.tables.getD q {} = m₁.tables.getD q {} := by
      rw [others q hq apart, getD_changeAt_other _ _ (Ne.symm apart)]
    refine ⟨v :: vs, m', ?_, Nat.le_trans adds.grows.tables room, fun q hq apart => ?_, sequence',
      ?_, fun k least most => ?_, fun i h => ?_, .cons ?_ carried⟩
    · simp only [Value.fillItems, exec_bind, made, Outcome.andThen_done]
      exact filled
    · rw [kept q (Nat.lt_of_lt_of_le hq adds.grows.tables) apart, adds.tables q hq]
    · rw [metatable, Table.setItem, Table.metatable_setNormal]
    · rw [before k least (by omega), sequence.item_set low (by omega) bounded least (by omega),
        if_neg (by omega)]
    · cases i with
      | zero =>
        rw [Nat.add_zero, before n low (by omega),
          sequence.item_set low (by omega) bounded low (by omega), if_pos rfl]
        rfl
      | succ i =>
        rw [show n + (i + 1) = n + 1 + i by omega, values i (by simpa using h)]
        rfl
    · exact (carries.kept room fun q least most =>
        kept q most (Nat.ne_of_gt (Nat.lt_of_lt_of_le placed least))).mono placed

theorem fillEntries_carries {absent : Value} {entries : List (String × Json)}
    (housed : Json.EveryEntry (Json.Housed absent) entries) {r : TableRef} {m : Machine}
    {fields : List (String × Value)} (placed : r < m.tables.size)
    (record : (m.tables.getD r {}).Record fields)
    (unique : (fields.map (·.1) ++ entries.map (·.1)).Nodup) :
    ∃ new m', (Value.fillEntries absent r entries : Code ε Unit).exec m = .done () m' ∧
      m.tables.size ≤ m'.tables.size ∧
      (∀ q < m.tables.size, q ≠ r → m'.tables.getD q {} = m.tables.getD q {}) ∧
      (m'.tables.getD r {}).Record (fields ++ new) ∧
      (m'.tables.getD r {}).metatable = (m.tables.getD r {}).metatable ∧
      List.Forall₂ (fun e e' => e.1 = e'.1 ∧ m'.Carries (r + 1) e.2 e'.2) new entries := by
  cases entries with
  | nil =>
    exact ⟨[], m, rfl, Nat.le_refl _, fun _ _ _ => rfl, by rwa [List.append_nil], rfl, .nil⟩
  | cons e entries =>
    obtain ⟨k, j⟩ := e
    obtain ⟨v, m₁, made, carries⟩ := make_carries housed.1 m
    have adds := Value.make_adds made
    have placed₁ : r < m₁.tables.size := Nat.lt_of_lt_of_le placed adds.grows.tables
    have here : (changeAt m₁.tables r fun t => t.setField k v).getD r {} =
        (m.tables.getD r {}).setField k v := by
      rw [getD_changeAt_same _ _ placed₁, adds.tables r placed]
    have new : k ∉ fields.map (·.1) := fun there =>
      (List.nodup_append.1 unique).2.2 _ there _ (.head _) rfl
    have grown := record.setField new carries.some_
    obtain ⟨more, m', filled, room, others, record', metatable, carried⟩ :=
      fillEntries_carries (m := { m₁ with tables := changeAt m₁.tables r fun t => t.setField k v })
        housed.2 (by rwa [changeAt_size]) (by rwa [here]) (by simpa using unique)
    simp only [changeAt_size, here] at room others metatable
    have kept (q : Nat) (hq : q < m₁.tables.size) (apart : q ≠ r) :
        m'.tables.getD q {} = m₁.tables.getD q {} := by
      rw [others q hq apart, getD_changeAt_other _ _ (Ne.symm apart)]
    refine ⟨(k, v) :: more, m', ?_, Nat.le_trans adds.grows.tables room, fun q hq apart => ?_, ?_,
      ?_, .cons ⟨rfl, ?_⟩ carried⟩
    · simp only [Value.fillEntries, exec_bind, made, Outcome.andThen_done]
      exact filled
    · rw [kept q (Nat.lt_of_lt_of_le hq adds.grows.tables) apart, adds.tables q hq]
    · simpa using record'
    · rw [metatable, Table.metatable_setField]
    · exact (carries.kept room fun q least most =>
        kept q most (Nat.ne_of_gt (Nat.lt_of_lt_of_le placed least))).mono placed

end

/-- The structured form of data that was made is the data without its inner nulls. -/
theorem make_toJson? {absent v : Value} {j : Json} {m m' : Machine}
    (housed : j.Every (Json.Housed absent))
    (made : (Value.make absent j : Code ε Value).exec m = .done v m') :
    Value.toJson? m' v = .ok j.pruned := by
  obtain ⟨v', m'', made', carries⟩ := make_carries (ε := ε) housed m
  rw [made] at made'
  cases made'
  exact carries.form m'.tables (Nat.le_refl _) (fun _ _ _ => rfl) _ [] nofun (by omega)

end Making

end Lua

end Tasklang
