import Tasklang.Execution.Interpreter
import Tasklang.Proofs.Carriers
import Tasklang.Proofs.Constants
import Tasklang.Proofs.Turns

/-! # Constants where they are used

A program that is written out holds its constants as source, and one that is run makes their values
at once. Both come to the same data: tables of the same length that hold the same data under every
key, and the same numbers and texts, an integer and a double being different. The one exception is
the least integer.
-/

namespace Tasklang

/-- Whether source gives a value with its type: a minus is an operator there, and the least integer
is none's opposite. -/
structure Json.Signed (j : Json) : Prop where
  constant : j.Constant
  other : j ≠ .int Json.leastInt

end Tasklang

namespace Tasklang.Lua

open Code

/-! ## Tables of data -/

namespace Table

variable {t : Table} {before gap after : List Value}

/-- A table that holds a sequence of values and nothing else. -/
structure Lists (t : Table) (vs : List Value) : Prop where
  items : t.items = vs.toArray
  limit : t.limit = vs.length
  others : t.others = []

theorem Lists.sequence {vs : List Value} (h : t.Lists vs) : t.Sequence vs.length :=
  ⟨by simp [h.items], h.limit, h.others⟩

theorem lists_withRoom (n : Nat) (metatable : Option TableRef) :
    Table.Lists { Table.withRoom n 0 with metatable } (List.replicate n .nil) :=
  ⟨by simp [withRoom], by simp [withRoom], rfl⟩

theorem setIfInBounds_append (x v : Value) :
    (before ++ x :: after).toArray.setIfInBounds before.length v =
      (before ++ v :: after).toArray := by
  simp

theorem Lists.setItem {x : Value} (h : t.Lists (before ++ x :: after))
    (bounded : (before ++ x :: after).length < 2 ^ 63) (v : Value) :
    (t.setItem (before.length + 1) v).Lists (before ++ v :: after) := by
  rw [h.sequence.setItem (Nat.succ_pos _) (by simp) bounded]
  refine ⟨?_, by rw [h.limit]; simp, h.others⟩
  rw [putAt, h.items]
  exact setIfInBounds_append x v

/-- Values that are stored together take the place of as many others. -/
theorem Lists.setItems {vs : List Value} (h : t.Lists (before ++ gap ++ after))
    (same : gap.length = vs.length) :
    (t.setItems (before.length + 1) vs).Lists (before ++ vs ++ after) := by
  have room : before.length + 1 + vs.length - 1 ≤ t.items.size := by
    rw [h.items]
    simp
    omega
  rw [Table.setItems, Table.lengthen, if_pos room]
  refine ⟨?_, by rw [h.limit]; simp [same], h.others⟩
  rw [h.items, Nat.add_sub_cancel]
  clear h room
  induction vs generalizing before gap with
  | nil =>
    obtain rfl := List.length_eq_zero_iff.1 same
    rfl
  | cons v vs ih =>
    match gap with
    | x :: gap =>
      have rest := @ih (before ++ [v]) gap (Nat.succ.inj same)
      rw [List.zipIdx_cons, List.foldl_cons]
      simp only [List.append_assoc, List.cons_append] at rest ⊢
      rw [setIfInBounds_append]
      simpa using rest

/-- The fields that a table keeps: one without a value is absent. -/
def kept (fields : List (String × Value)) : List (String × Value) :=
  fields.filter fun e => e.2 != .nil

/-- A new field comes last where it is present. -/
theorem Record.put {fields : List (String × Value)} (h : t.Record (kept fields)) {k : String}
    (new : k ∉ fields.map (·.1)) (v : Value) :
    (t.setField k v).Record (kept (fields ++ [(k, v)])) := by
  have absent : k ∉ (kept fields).map (·.1) := fun there =>
    new ((List.filter_sublist.map _).subset there)
  rw [kept, List.filter_append]
  by_cases none_ : v = .nil
  · subst none_
    have unchanged : t.setField k .nil = t := by
      have missing := h.hasKey_new absent
      simp only [Table.setField, setNormal, Value.ofString, position?] at missing ⊢
      rw [missing, if_neg Bool.false_ne_true]
      exact if_pos trivial
    rw [unchanged]
    simpa [kept] using h
  · have last : [(k, v)].filter (fun e => e.2 != .nil) = [(k, v)] := by simp [none_]
    rw [last]
    exact h.setField absent none_

end Table

/-! ## Values of data -/

mutual

/-- Whether a value is what data stands for, with its tables from a place on. -/
def Machine.Holds (m : Machine) (low : TableRef) (v : Value) : Json → Prop
  | .null => v = .nil
  | .bool b => v = .bool b
  | .int n => v = Value.ofInt n
  | .float x => v = .float (.ofFloat x)
  | .str s => v = .ofString s
  | .arr items => ∃ r vs, v = .table r ∧ low ≤ r ∧ r < m.tables.size ∧
      (m.tables.getD r {}).Lists vs ∧ Machine.HoldsItems m (r + 1) vs items
  | .obj entries => ∃ r fields, v = .table r ∧ low ≤ r ∧ r < m.tables.size ∧
      (m.tables.getD r {}).Record (Table.kept fields) ∧
        Machine.HoldsEntries m (r + 1) fields entries

/-- Whether values are what data stands for. -/
def Machine.HoldsItems (m : Machine) (low : TableRef) (vs : List Value) : List Json → Prop
  | [] => vs = []
  | j :: js => ∃ v rest, vs = v :: rest ∧ Machine.Holds m low v j ∧
      Machine.HoldsItems m low rest js

/-- Whether fields have the keys of entries, and values that these stand for. -/
def Machine.HoldsEntries (m : Machine) (low : TableRef) (fields : List (String × Value)) :
    List (String × Json) → Prop
  | [] => fields = []
  | (k, j) :: es => ∃ v rest, fields = (k, v) :: rest ∧ Machine.Holds m low v j ∧
      Machine.HoldsEntries m low rest es

end

/-- A machine that kept its tables but one. -/
structure Machine.Spared (r : TableRef) (m m' : Machine) : Prop where
  room : m.tables.size ≤ m'.tables.size
  old : ∀ q < m.tables.size, q ≠ r → m'.tables.getD q {} = m.tables.getD q {}
  budget : m'.budget = m.budget

section Kept

variable {m m' m'' : Machine} {r : TableRef}

theorem Machine.Spared.refl (r : TableRef) (m : Machine) : m.Spared r m :=
  ⟨Nat.le_refl _, fun _ _ _ => rfl, rfl⟩

theorem Machine.Spared.trans (h : m.Spared r m') (h' : m'.Spared r m'') : m.Spared r m'' where
  room := Nat.le_trans h.room h'.room
  old q hq apart := (h'.old q (Nat.lt_of_lt_of_le hq h.room) apart).trans (h.old q hq apart)
  budget := h'.budget.trans h.budget

theorem Machine.Retains.spared (h : m.Retains m') (r : TableRef) : m.Spared r m' :=
  ⟨h.room, fun q hq _ => h.old q hq, h.budget⟩

theorem Machine.spared_changed (m : Machine) (r : TableRef) (f : Table → Table) :
    m.Spared r { m with tables := changeAt m.tables r f } where
  room := by simp
  old q _ apart := getD_changeAt_other _ _ (Ne.symm apart) _
  budget := rfl

/-- Filling a new table leaves all that were there. -/
theorem Machine.Spared.pushed {t : Table}
    (h : Machine.Spared m.tables.size { m with tables := m.tables.push t } m') : m.Retains m' where
  room := by
    have := h.room
    rw [Array.size_push] at this
    exact Nat.le_of_succ_le this
  old q hq := by
    rw [h.old q (by rw [Array.size_push]; omega) (Nat.ne_of_lt hq)]
    exact getD_push_other _ _ (Nat.ne_of_lt hq) _
  budget := h.budget

mutual

theorem Machine.Holds.kept {low low' : TableRef} {v : Value} {j : Json} (h : m.Holds low v j) 
    (below : low' ≤ low) (above : r < low) (spared : m.Spared r m') : m'.Holds low' v j := by
  cases j with
  | arr items =>
    obtain ⟨q, vs, rfl, least, most, lists, inside⟩ := h
    refine ⟨q, vs, rfl, Nat.le_trans below least, Nat.lt_of_lt_of_le most spared.room, ?_,
      inside.kept (Nat.lt_succ_of_lt (Nat.lt_of_lt_of_le above least)) spared⟩
    rwa [spared.old q most (Nat.ne_of_gt (Nat.lt_of_lt_of_le above least))]
  | obj entries =>
    obtain ⟨q, fields, rfl, least, most, record, inside⟩ := h
    refine ⟨q, fields, rfl, Nat.le_trans below least, Nat.lt_of_lt_of_le most spared.room, ?_,
      inside.kept (Nat.lt_succ_of_lt (Nat.lt_of_lt_of_le above least)) spared⟩
    rwa [spared.old q most (Nat.ne_of_gt (Nat.lt_of_lt_of_le above least))]
  | _ => exact h

theorem Machine.HoldsItems.kept {low : TableRef} {items : List Json} {vs : List Value}
    (h : m.HoldsItems low vs items) (above : r < low) (spared : m.Spared r m') :
    m'.HoldsItems low vs items := by
  cases items with
  | nil => exact h
  | cons j js =>
    obtain ⟨v, rest, rfl, first, others⟩ := h
    exact ⟨v, rest, rfl, first.kept (Nat.le_refl _) above spared, others.kept above spared⟩

theorem Machine.HoldsEntries.kept {low : TableRef} {entries : List (String × Json)}
    {fields : List (String × Value)} (h : m.HoldsEntries low fields entries) (above : r < low) (spared : m.Spared r m') :
    m'.HoldsEntries low fields entries := by
  match entries with
  | [] => exact h
  | (k, j) :: es =>
    obtain ⟨v, rest, rfl, first, others⟩ := h
    exact ⟨v, rest, rfl, first.kept (Nat.le_refl _) above spared, others.kept above spared⟩

end

end Kept

/-- Whether a computation makes what data stands for, in new tables. -/
def Code.Makes {ε : Type} (x : Code ε Value) (j : Json) : Prop :=
  ∀ m, ∃ v m', x.exec m = .done v m' ∧ m.Retains m' ∧ m'.Holds m.tables.size v j

theorem Machine.Retains.refl (m : Machine) : m.Retains m := ⟨Nat.le_refl _, fun _ _ => rfl, rfl⟩

theorem Code.Makes.congr {ε : Type} {x y : Code ε Value} {j : Json} (makes : y.Makes j)
    (same : ∀ m, x.exec m = y.exec m) : x.Makes j := fun m => same m ▸ makes m

theorem Code.makes_scalar {ε : Type} {x : Code ε Value} {v : Value} {j : Json}
    (made : ∀ m, x.exec m = .done v m) (holds : ∀ m : Machine, m.Holds m.tables.size v j) :
    x.Makes j := fun m => ⟨v, m, made m, .refl m, holds m⟩

section Steps

variable {ε : Type} {x : Code ε Value} {j : Json} {m : Machine} {r : TableRef}

/-- What is made while a table is filled leaves that table alone. -/
theorem Code.Makes.inside (makes : x.Makes j) (placed : r < m.tables.size) :
    ∃ v m', x.exec m = .done v m' ∧ m.Spared r m' ∧ r < m'.tables.size ∧
      m'.tables.getD r {} = m.tables.getD r {} ∧ m'.Holds (r + 1) v j := by
  obtain ⟨v, m', made, retains, holds⟩ := makes m
  exact ⟨v, m', made, retains.spared r, Nat.lt_of_lt_of_le placed retains.room,
    retains.old r placed, holds.kept placed placed (.refl r m')⟩

/-- A new table that is filled. -/
theorem Code.makes_table {fill : TableRef → Code ε Value} {t : Table} {j : Json}
    (filled : ∀ m : Machine, ∀ r, r < m.tables.size → m.tables.getD r {} = t →
      ∃ m', (fill r).exec m = .done (.table r) m' ∧ m.Spared r m' ∧ m'.Holds r (.table r) j) :
    (newTable t >>= fill).Makes j := by
  intro m
  obtain ⟨m', done, spared, holds⟩ := filled { m with tables := m.tables.push t } m.tables.size
    (by simp) (getD_push_same _ _ _)
  refine ⟨.table m.tables.size, m', ?_, spared.pushed, holds⟩
  rw [exec_bind]
  exact done

/-- What is made is stored in a table that is filled. -/
theorem Code.Makes.stored (makes : x.Makes j) (placed : r < m.tables.size)
    (f : Value → Table → Table) : ∃ v m', m.Spared r m' ∧ r < m'.tables.size ∧
      m'.tables.getD r {} = f v (m.tables.getD r {}) ∧ m'.Holds (r + 1) v j ∧
      ∀ {β : Type} (rest : Code ε β),
        (x >>= fun v => modifyTable r (f v) >>= fun _ => rest).exec m = rest.exec m' := by
  obtain ⟨v, m₁, made, spared, placed₁, here, holds⟩ := makes.inside placed
  refine ⟨v, { m₁ with tables := changeAt m₁.tables r (f v) },
    spared.trans (m₁.spared_changed r _), by rwa [changeAt_size], ?_,
    holds.kept (Nat.le_refl _) (Nat.lt_succ_self r) (m₁.spared_changed r _), fun rest => ?_⟩
  · rw [getD_changeAt_same _ _ placed₁, here]
  · rw [exec_bind, made]
    rfl

end Steps

/-! ## Data that is made -/

section Making

variable {ε : Type}

mutual

theorem makes_make {j : Json} (constant : j.Every Json.Constant) :
    (Value.make .nil j : Code ε Value).Makes j := by
  cases j with
  | arr items =>
    refine makes_table fun m r placed here => ?_
    have laid : (m.tables.getD r {}).Lists ([] ++ List.replicate items.length .nil) :=
      here ▸ Table.lists_withRoom _ _
    obtain ⟨vs, m', filled, spared, placed', lists, holds⟩ := fillItems_holds constant.2
      placed laid (by rw [List.length_nil, Nat.zero_add]; exact constant.1)
    refine ⟨m', ?_, spared, r, vs, rfl, Nat.le_refl _, placed', lists, holds⟩
    rw [exec_bind]
    exact congrArg (Outcome.andThen · _ _) filled
  | obj entries =>
    refine makes_table fun m r placed here => ?_
    have empty : (m.tables.getD r {}).Record (Table.kept []) :=
      here ▸ ⟨by simp [Table.withRoom], rfl, rfl, nofun⟩
    obtain ⟨fields, m', filled, spared, placed', record, holds⟩ := fillEntries_holds constant.2
      placed empty constant.1
    refine ⟨m', ?_, spared, r, fields, rfl, Nat.le_refl _, placed', record, holds⟩
    rw [exec_bind]
    exact congrArg (Outcome.andThen · _ _) filled
  | _ => exact makes_scalar (fun _ => rfl) fun _ => rfl

theorem fillItems_holds {items : List Json} (constant : Json.EveryItem Json.Constant items)
    {m : Machine} {r : TableRef} {before : List Value} (placed : r < m.tables.size)
    (lists : (m.tables.getD r {}).Lists (before ++ List.replicate items.length .nil))
    (bounded : before.length + items.length < 2 ^ 63) :
    ∃ vs m', (Value.fillItems .nil r (before.length + 1) items : Code ε Unit).exec m =
      .done () m' ∧ m.Spared r m' ∧ r < m'.tables.size ∧
      (m'.tables.getD r {}).Lists (before ++ vs) ∧ m'.HoldsItems (r + 1) vs items := by
  cases items with
  | nil => exact ⟨[], m, rfl, .refl r m, placed, lists, rfl⟩
  | cons j js =>
    rw [List.length_cons] at bounded
    obtain ⟨v, m₁, spared, placed₁, here, holds, goes⟩ := (makes_make constant.1).stored
      placed fun v t => t.setItem (before.length + 1) v
    have set := lists.setItem (by simpa using bounded) v
    rw [← here, ← List.singleton_append, ← List.append_assoc] at set
    obtain ⟨vs, m', filled, spared', placed', lists', others⟩ := fillItems_holds constant.2
      placed₁ set (by simp; omega)
    refine ⟨v :: vs, m', ?_, spared.trans spared', placed', by simpa using lists', v, vs, rfl,
      holds.kept (Nat.le_refl _) (Nat.lt_succ_self r) spared', others⟩
    rw [List.length_append, List.length_singleton] at filled
    exact (goes _).trans filled

theorem fillEntries_holds {entries : List (String × Json)}
    (constant : Json.EveryEntry Json.Constant entries) {m : Machine} {r : TableRef}
    {fields : List (String × Value)} (placed : r < m.tables.size)
    (record : (m.tables.getD r {}).Record (Table.kept fields))
    (unique : (fields.map (·.1) ++ entries.map (·.1)).Nodup) :
    ∃ new m', (Value.fillEntries .nil r entries : Code ε Unit).exec m = .done () m' ∧
      m.Spared r m' ∧ r < m'.tables.size ∧
      (m'.tables.getD r {}).Record (Table.kept (fields ++ new)) ∧
      m'.HoldsEntries (r + 1) new entries := by
  match entries with
  | [] => exact ⟨[], m, rfl, .refl r m, placed, by rwa [List.append_nil], rfl⟩
  | (k, j) :: es =>
    obtain ⟨v, m₁, spared, placed₁, here, holds, goes⟩ := (makes_make constant.1).stored
      placed fun v t => t.setField k v
    have put := record.put (fun there => (List.nodup_append.1 unique).2.2 _ there _ (.head _) rfl) v
    rw [← here] at put
    obtain ⟨new, m', filled, spared', placed', record', others⟩ := fillEntries_holds constant.2
      placed₁ put (by simpa using unique)
    exact ⟨(k, v) :: new, m', (goes _).trans filled, spared.trans spared', placed',
      by simpa using record', v, new, rfl,
      holds.kept (Nat.le_refl _) (Nat.lt_succ_self r) spared', others⟩

end

end Making

/-! ## Data in source -/

/-- A table that a constructor fills: it gets values, and so many more after them. -/
structure Filling.Gets (f : Filling) (m : Machine) (vs : List Value) (left : Nat) : Prop where
  placed : f.table < m.tables.size
  waits : ∃ stored : List Value, stored.length = f.stored ∧ stored ++ f.waiting.reverse = vs ∧
    (m.tables.getD f.table {}).Lists (stored ++ List.replicate (f.waiting.length + left) .nil)

namespace Filling.Gets

variable {ε : Type} {f : Filling} {m m' : Machine} {vs : List Value} {left : Nat}

/-- Values that wait are stored together. -/
theorem flush (h : f.Gets m vs left) : ∃ f' m', (f.flush : Code ε Filling).exec m = .done f' m' ∧
    m.Spared f.table m' ∧ f'.table = f.table ∧ f'.waiting = [] ∧ f'.Gets m' vs left := by
  obtain ⟨placed, stored, count, is_, lists⟩ := h
  unfold Filling.flush
  by_cases empty : f.waiting = []
  · refine ⟨f, m, ?_, .refl _ m, rfl, empty, placed, stored, count, is_, lists⟩
    simp [empty]
  · have some_ : ¬f.waiting.isEmpty = true := by simpa using empty
    let store (t : Table) : Table := t.setItems (f.stored + 1) f.waiting.reverse
    refine ⟨{ f with stored := f.stored + f.waiting.length, waiting := [] },
      { m with tables := changeAt m.tables f.table store }, ?_, m.spared_changed _ _, rfl, rfl, by rwa [changeAt_size], stored ++ f.waiting.reverse, ?_, ?_, ?_⟩
    · rw [if_neg some_]
      rfl
    · simp [count]
    · simpa using is_
    · rw [List.replicate_add, ← List.append_assoc] at lists
      have put : (Table.setItems _ _ f.waiting.reverse).Lists _ := lists.setItems (by simp)
      rw [count] at put
      rw [getD_changeAt_same _ _ placed, List.length_nil, Nat.zero_add]
      exact put

/-- Where enough values wait, they are stored before another part is evaluated. -/
theorem ready (h : f.Gets m vs left) : ∃ f' m', (f.ready : Code ε Filling).exec m = .done f' m' ∧
    m.Spared f.table m' ∧ f'.table = f.table ∧ f'.Gets m' vs left := by
  unfold Filling.ready
  split
  · obtain ⟨f', m', done, spared, same, -, gets⟩ := h.flush (ε := ε)
    exact ⟨f', m', done, spared, same, gets⟩
  · exact ⟨f, m, rfl, .refl _ m, rfl, h⟩

/-- The next value waits. -/
theorem add (h : f.Gets m vs (left + 1)) (v : Value) : (f.add v).Gets m (vs ++ [v]) left := by
  obtain ⟨placed, stored, count, is_, lists⟩ := h
  refine ⟨placed, stored, count, ?_, ?_⟩
  · rw [Filling.add, List.reverse_cons, ← List.append_assoc, is_]
  · rwa [Filling.add, List.length_cons, Nat.add_right_comm, Nat.add_assoc]

theorem kept (h : f.Gets m vs left) (room : f.table < m'.tables.size)
    (same : m'.tables.getD f.table {} = m.tables.getD f.table {}) : f.Gets m' vs left := by
  obtain ⟨-, stored, count, is_, lists⟩ := h
  exact ⟨room, stored, count, is_, same ▸ lists⟩

/-- The table holds all values in the end. -/
theorem finish (h : f.Gets m vs 0) : ∃ m', (f.finish [] : Code ε Value).exec m =
    .done (.table f.table) m' ∧ m.Spared f.table m' ∧ f.table < m'.tables.size ∧
      (m'.tables.getD f.table {}).Lists vs := by
  obtain ⟨f', m', done, spared, same, empty, placed, stored, count, is_, lists⟩ := h.flush (ε := ε)
  rw [same] at placed lists
  refine ⟨m', ?_, spared, placed, ?_⟩
  · rw [Filling.finish, exec_bind]
    show Outcome.andThen ((Filling.flush f).exec m) _ _ = _
    rw [done]
    show Outcome.done (Value.table f'.table) m' = _
    rw [same]
  · rw [empty] at is_ lists
    simpa [← is_] using lists

end Filling.Gets

section Evaluating

open Literal (valueExpr itemFields entryFields signedExpr)

variable (env : Env) (apply : Apply)

theorem valueExpr_single (v : Json) : (valueExpr v).isMultiple = false := by
  have signed (negative : Bool) (n : Number) : (signedExpr negative n).isMultiple = false := by
    cases negative <;> cases n <;> rfl
  cases v with
  | int n | float x => exact signed _ _
  | _ => rfl

theorem itemCount_items (items : List Json) :
    Filling.itemCount (itemFields items) = items.length := by
  induction items with
  | nil => rfl
  | cons v vs ih =>
    rw [itemFields, List.length_cons, ← ih]
    cases vs with
    | nil => simp [itemFields, Filling.itemCount, valueExpr_single]
    | cons v' vs => rfl

theorem entryCount_items (items : List Json) : Filling.entryCount (itemFields items) = 0 := by
  induction items with
  | nil => rfl
  | cons v vs ih => exact ih

theorem itemCount_entries (entries : List (String × Json)) :
    Filling.itemCount (entryFields entries) = 0 := by
  induction entries with
  | nil => rfl
  | cons e es ih => exact ih

theorem entryCount_entries (entries : List (String × Json)) :
    Filling.entryCount (entryFields entries) = entries.length := by
  induction entries with
  | nil => rfl
  | cons e es ih => exact congrArg (· + 1) ih

/-- The value of a number with its sign. -/
theorem value_signed (negative : Bool) (n : Number) (m : Machine) :
    (env.value apply (signedExpr negative n)).exec m =
      .done (Value.ofNumber (if negative then n.negate else n)) m := by
  cases negative <;> cases n <;> rfl

theorem signed_int {n : Int} (signed : (Json.int n).Signed) :
    Value.ofNumber (if n < 0 then (Numeral.whole n.natAbs).negate else Numeral.whole n.natAbs) =
      Value.ofInt n := by
  obtain ⟨⟨low, high⟩, other⟩ := signed
  replace other : n ≠ Json.leastInt := fun same => other (congrArg Json.int same)
  have least : Json.leastInt = -2 ^ 63 := rfl
  have top : Json.greatestInt = 2 ^ 63 - 1 := rfl
  have topmost : Json.greatestNat = 2 ^ 64 - 1 := rfl
  have power : Nat.pow 2 63 = 2 ^ 63 := rfl
  unfold Numeral.whole Value.ofInt
  by_cases below : n < 0
  · rw [if_pos below, if_pos (by omega), if_pos (by omega)]
    have same : n = -(n.natAbs : Int) := by omega
    show Value.int (-Int64.ofNat n.natAbs) = _
    conv_rhs => rw [same, Int64.ofInt_neg, Int64.ofInt_eq_ofNat]
  · rw [if_neg below]
    by_cases fits : n ≤ Json.greatestInt
    · rw [if_pos (by omega), if_pos (by omega)]
      have same : n = (n.natAbs : Int) := by omega
      show Value.int (Int64.ofNat n.natAbs) = _
      conv_rhs => rw [same, Int64.ofInt_eq_ofNat]
    · rw [if_neg (by omega), if_neg (by omega)]
      have same : n = (n.natAbs : Int) := by omega
      show Value.float (Double.ofFloat (Tasklang.Number.ofDecimal n.natAbs 0)) = _
      have bits : n.natAbs.log2 < 64 := (Nat.log2_lt (by omega)).2 (by omega)
      conv_rhs => rw [same]
      unfold Tasklang.Number.ofDecimal
      dsimp only
      rw [if_neg (by omega), if_neg (by omega), if_neg (by omega)]
      rfl

/-- A constructor fills a new table with room for its parts. -/
theorem value_table (line : Nat) (fs : List Field) (m : Machine) :
    (env.value apply (.table line fs)).exec m =
      (newTable (Table.withRoom (Filling.itemCount fs) (Filling.entryCount fs)) >>= fun r =>
        env.fill apply line { table := r } fs).exec m := rfl

mutual

/-- The expression of known data has its value. -/
theorem makes_value {j : Json} (signed : j.Every Json.Signed) :
    (env.value apply (valueExpr j)).Makes j := by
  cases j with
  | arr items =>
    refine Makes.congr (makes_table fun m r placed here => ?_) (value_table env apply 1 _)
    rw [itemCount_items, entryCount_items] at here
    have laid : (m.tables.getD r {}).Lists ([] ++ List.replicate (0 + items.length) .nil) := by
      rw [here, Nat.zero_add]
      exact Table.lists_withRoom items.length none
    obtain ⟨vs, m', filled, spared, placed', lists, holds⟩ := fill_items signed.2 1
      (f := { table := r }) ⟨placed, [], rfl, rfl, laid⟩
    exact ⟨m', filled, spared, r, vs, rfl, Nat.le_refl _, placed', lists, holds⟩
  | obj entries =>
    refine Makes.congr (makes_table fun m r placed here => ?_) (value_table env apply 1 _)
    rw [itemCount_entries, entryCount_entries] at here
    have empty : (m.tables.getD r {}).Record (Table.kept []) :=
      here ▸ ⟨by simp [Table.withRoom], rfl, rfl, nofun⟩
    obtain ⟨fields, m', filled, spared, placed', record, holds⟩ := fill_entries signed.2 1
      (f := { table := r }) rfl placed empty signed.1.constant
    exact ⟨m', filled, spared, r, fields, rfl, Nat.le_refl _, placed', record, holds⟩
  | int n =>
    refine makes_scalar (fun m => (value_signed env apply _ _ m).trans ?_) fun _ => rfl
    simpa using signed_int signed
  | float x =>
    refine makes_scalar (fun m => (value_signed env apply _ _ m).trans ?_) fun _ => rfl
    refine congrArg (Outcome.done · m) ?_
    show _ = Value.float (Double.ofFloat x)
    conv_rhs => rw [Tasklang.Number.ofFloat_signed signed.constant]
    cases Tasklang.Number.isNegative x <;> rfl
  | _ => exact makes_scalar (fun _ => rfl) fun _ => rfl

theorem fill_items {items : List Json} (signed : Json.EveryItem Json.Signed items)
    (line : Nat) {f : Filling} {m : Machine} {vs : List Value} (gets : f.Gets m vs items.length) :
    ∃ new m', (env.fill apply line f (itemFields items)).exec m = .done (.table f.table) m' ∧
      m.Spared f.table m' ∧ f.table < m'.tables.size ∧
      (m'.tables.getD f.table {}).Lists (vs ++ new) ∧ m'.HoldsItems (f.table + 1) new items := by
  cases items with
  | nil =>
    obtain ⟨m', done, spared, placed, lists⟩ := gets.finish (ε := Value)
    exact ⟨[], m', done, spared, placed, by rwa [List.append_nil], rfl⟩
  | cons j js =>
    obtain ⟨f₁, m₁, ready, spared, same, gets⟩ := gets.ready (ε := Value)
    obtain ⟨v, m₂, made, spared', placed, here, holds⟩ := (makes_value signed.1).inside gets.placed
    obtain ⟨new, m', filled, spared'', placed', lists, others⟩ := fill_items signed.2 line
      ((gets.kept placed here).add v)
    have same' : (f₁.add v).table = f.table := same
    rw [same'] at filled spared'' placed' lists others
    rw [same] at spared' holds
    refine ⟨v :: new, m', ?_, spared.trans (spared'.trans spared''), placed', by simpa using lists,
      v, new, rfl, holds.kept (Nat.le_refl _) (Nat.lt_succ_self _) spared'', others⟩
    rw [itemFields, Env.fill, exec_bind, ready]
    simp only [Outcome.andThen_done, valueExpr_single, Bool.and_false, Bool.false_eq_true, if_false]
    rw [exec_bind, made]
    exact filled

theorem fill_entries {entries : List (String × Json)}
    (signed : Json.EveryEntry Json.Signed entries) (line : Nat) {f : Filling}
    (free : f.waiting = []) {m : Machine} {fields : List (String × Value)}
    (placed : f.table < m.tables.size)
    (record : (m.tables.getD f.table {}).Record (Table.kept fields))
    (unique : (fields.map (·.1) ++ entries.map (·.1)).Nodup) :
    ∃ new m', (env.fill apply line f (entryFields entries)).exec m = .done (.table f.table) m' ∧
      m.Spared f.table m' ∧ f.table < m'.tables.size ∧
      (m'.tables.getD f.table {}).Record (Table.kept (fields ++ new)) ∧
      m'.HoldsEntries (f.table + 1) new entries := by
  match entries with
  | [] =>
    refine ⟨[], m, ?_, .refl _ m, placed, by rwa [List.append_nil], rfl⟩
    rw [entryFields, Env.fill, Filling.finish, Filling.flush, free]
    rfl
  | (k, j) :: es =>
    obtain ⟨v, m₁, spared, placed₁, here, holds, goes⟩ := (makes_value signed.1).stored
      placed fun v t => t.setField k v
    have put := record.put (fun there => (List.nodup_append.1 unique).2.2 _ there _ (.head _) rfl) v
    rw [← here] at put
    obtain ⟨new, m', filled, spared', placed', record', others⟩ := fill_entries signed.2 line free
      placed₁ put (by simpa using unique)
    refine ⟨(k, v) :: new, m', ?_, spared.trans spared', placed',
      by simpa using record', v, new, rfl,
      holds.kept (Nat.le_refl _) (Nat.lt_succ_self _) spared', others⟩
    have ready : (f.ready : Code Value Filling) = Code.pure f := by
      rw [Filling.ready, free]
      rfl
    rw [entryFields, Env.fill, ready]
    exact (goes _).trans filled

end

end Evaluating

/-! ## The same data -/

namespace Table

section Measure

variable {t t' : Table} (absent : ∀ n, t.item n = .nil ↔ t'.item n = .nil)

include absent

theorem borderBetween_congr (fuel low high : Nat) :
    t.borderBetween fuel low high = t'.borderBetween fuel low high := by
  induction fuel generalizing low high with
  | zero => rfl
  | succ fuel ih => simp only [borderBetween, absent, ih]

theorem borderAbove_congr (fuel used : Nat) :
    t.borderAbove fuel used = t'.borderAbove fuel used := by
  induction fuel generalizing used with
  | zero => rfl
  | succ fuel ih => simp only [borderAbove, absent, ih, borderBetween_congr absent]

/-- The length of a table depends on which positions are used. -/
theorem border_congr (size : t.items.size = t'.items.size) (limit : t.limit = t'.limit) :
    t.border = t'.border := by
  have beyond : t.borderBeyond = t'.borderBeyond := by
    simp only [borderBeyond, size, absent, borderAbove_congr absent]
  have same : t.measure = t'.measure := by
    simp only [measure, size, limit, absent, ne_eq, beyond, borderBetween_congr absent]
  rw [border, border, same]

end Measure

theorem Lists.getNormal {t : Table} {vs : List Value} (h : t.Lists vs) (key : Value) :
    t.getNormal key = match position? vs.length key with
      | some n => vs.getD (n - 1) .nil
      | none => .nil := by
  rw [Table.getNormal, h.items, h.others, List.size_toArray]
  cases position? vs.length key <;> simp [Array.getD_eq_getD_getElem?, find]

theorem Record.getNormal {t : Table} {fields : List (String × Value)} (h : t.Record fields)
    (key : Value) :
    t.getNormal key = find key (fields.map fun e => (Value.ofString e.1, e.2)) := by
  have outside : position? 0 key = none := by
    unfold position?
    split
    next n =>
      refine if_neg fun inside => ?_
      have positive : (0 : Int64).toInt < n.toInt := Int64.lt_iff_toInt_lt.1 inside.1
      have := inside.2
      rw [Int64.toInt_zero] at positive
      omega
    · rfl
  rw [Table.getNormal, h.items, h.others]
  simp only [List.size_toArray, List.length_nil, outside]

end Table

/-- Whether two values are the same data, each in its own machine: the same value where they are no
tables, and else tables of the same length that hold the same data under every key. -/
inductive Alike (m m' : Machine) : Value → Value → Prop
  | plain {v : Value} : v.isTable = false → Alike m m' v v
  | table {r r' : TableRef} :
    (m.tables.getD r {}).border = (m'.tables.getD r' {}).border →
    (∀ key, Alike m m' ((m.tables.getD r {}).get key) ((m'.tables.getD r' {}).get key)) →
    Alike m m' (.table r) (.table r')

namespace Alike

variable {m m' : Machine} {v v' : Value} {r r' : TableRef}

theorem nil : Alike m m' .nil .nil := .plain rfl

theorem nil_iff (h : Alike m m' v v') : v = .nil ↔ v' = .nil := by
  cases h with
  | plain => exact Iff.rfl
  | table => exact ⟨nofun, nofun⟩

theorem getD {vs vs' : List Value} (h : List.Forall₂ (Alike m m') vs vs') (n : Nat) :
    Alike m m' (vs.getD n .nil) (vs'.getD n .nil) := by
  induction h generalizing n with
  | nil => exact .nil
  | cons first _ ih =>
    cases n with
    | zero => exact first
    | succ n => exact ih n

/-- Sequences of the same data. -/
theorem lists {vs vs' : List Value} (h : List.Forall₂ (Alike m m') vs vs')
    (lists : (m.tables.getD r {}).Lists vs) (lists' : (m'.tables.getD r' {}).Lists vs') :
    Alike m m' (.table r) (.table r') := by
  have length := h.length_eq
  have normal (key : Value) : Alike m m' ((m.tables.getD r {}).getNormal key)
      ((m'.tables.getD r' {}).getNormal key) := by
    rw [lists.getNormal, lists'.getNormal, length]
    split
    · exact getD h _
    · exact .nil
  refine .table (Table.border_congr (fun n => (normal _).nil_iff) ?_ ?_) fun key => normal _
  · rw [lists.items, lists'.items, List.size_toArray, List.size_toArray, length]
  · rw [lists.limit, lists'.limit, length]

theorem find {fields fields' : List (String × Value)}
    (h : List.Forall₂ (fun e e' => e.1 = e'.1 ∧ Alike m m' e.2 e'.2) fields fields') (key : Value) :
    Alike m m'
      (Table.find key ((Table.kept fields).map fun e => (Value.ofString e.1, e.2)))
      (Table.find key ((Table.kept fields').map fun e => (Value.ofString e.1, e.2))) := by
  induction h with
  | nil => exact .nil
  | @cons e e' fields fields' first _ ih =>
    obtain ⟨k, v⟩ := e
    obtain ⟨k', v'⟩ := e'
    obtain ⟨same, alike⟩ := first
    obtain rfl : k = k' := same
    have absent := alike.nil_iff
    simp only at absent
    by_cases none_ : v = .nil
    · rw [Table.kept, Table.kept, List.filter_cons_of_neg (by simpa using none_),
        List.filter_cons_of_neg (by simpa using absent.1 none_)]
      exact ih
    · rw [Table.kept, Table.kept, List.filter_cons_of_pos (by simpa using none_),
        List.filter_cons_of_pos (by simpa using fun is_ => none_ (absent.2 is_)), List.map_cons,
        List.map_cons, Table.find, Table.find]
      split
      · exact alike
      · exact ih

/-- Mappings of the same data. -/
theorem records {fields fields' : List (String × Value)}
    (h : List.Forall₂ (fun e e' => e.1 = e'.1 ∧ Alike m m' e.2 e'.2) fields fields')
    (record : (m.tables.getD r {}).Record (Table.kept fields))
    (record' : (m'.tables.getD r' {}).Record (Table.kept fields')) :
    Alike m m' (.table r) (.table r') := by
  refine .table (record.border.trans record'.border.symm) fun key => ?_
  rw [Table.get, Table.get, record.getNormal, record'.getNormal]
  exact find h _

end Alike

section Same

variable {m m' : Machine}

mutual

/-- What data stands for is the same data in any machine. -/
theorem Machine.Holds.alike {low low' : TableRef} {v v' : Value} {j : Json} (h : m.Holds low v j)
    (h' : m'.Holds low' v' j) : Alike m m' v v' := by
  cases j with
  | arr items =>
    obtain ⟨r, vs, rfl, -, -, lists, inside⟩ := h
    obtain ⟨r', vs', rfl, -, -, lists', inside'⟩ := h'
    exact Alike.lists (inside.alike inside') lists lists'
  | obj entries =>
    obtain ⟨r, fields, rfl, -, -, record, inside⟩ := h
    obtain ⟨r', fields', rfl, -, -, record', inside'⟩ := h'
    exact Alike.records (inside.alike inside') record record'
  | int n =>
    obtain rfl : v = Value.ofInt n := h
    obtain rfl : v' = Value.ofInt n := h'
    refine .plain ?_
    unfold Value.ofInt
    split <;> rfl
  | _ =>
    cases h
    cases h'
    exact .plain rfl

theorem Machine.HoldsItems.alike {low low' : TableRef} {vs vs' : List Value} {items : List Json}
    (h : m.HoldsItems low vs items) (h' : m'.HoldsItems low' vs' items) :
    List.Forall₂ (Alike m m') vs vs' := by
  cases items with
  | nil =>
    obtain rfl : vs = [] := h
    obtain rfl : vs' = [] := h'
    exact .nil
  | cons j js =>
    obtain ⟨v, rest, rfl, first, others⟩ := h
    obtain ⟨v', rest', rfl, first', others'⟩ := h'
    exact .cons (first.alike first') (others.alike others')

theorem Machine.HoldsEntries.alike {low low' : TableRef} {fields fields' : List (String × Value)}
    {entries : List (String × Json)} (h : m.HoldsEntries low fields entries)
    (h' : m'.HoldsEntries low' fields' entries) :
    List.Forall₂ (fun e e' => e.1 = e'.1 ∧ Alike m m' e.2 e'.2) fields fields' := by
  match entries with
  | [] =>
    obtain rfl : fields = [] := h
    obtain rfl : fields' = [] := h'
    exact .nil
  | (k, j) :: es =>
    obtain ⟨v, rest, rfl, first, others⟩ := h
    obtain ⟨v', rest', rfl, first', others'⟩ := h'
    exact .cons ⟨rfl, first.alike first'⟩ (others.alike others')

end

end Same

end Tasklang.Lua

namespace Tasklang.Execution

open Lua Literal

section Constants

variable {v : Json}

/-! ## Constants in programs -/

mutual

theorem valueExpr_free (v : Json) : (valueExpr v).hasCall = false := by
  have signed (negative : Bool) (n : Lua.Number) : (signedExpr negative n).hasCall = false := by
    cases negative <;> cases n <;> rfl
  cases v with
  | arr items => exact itemFields_free items
  | obj entries => exact entryFields_free entries
  | int n | float x => exact signed _ _
  | _ => rfl

theorem itemFields_free (items : List Json) : fieldsHaveCall (itemFields items) = false := by
  cases items with
  | nil => rfl
  | cons v vs => rw [itemFields, fieldsHaveCall, valueExpr_free v, itemFields_free vs]; rfl

theorem entryFields_free (entries : List (String × Json)) :
    fieldsHaveCall (entryFields entries) = false := by
  match entries with
  | [] => rfl
  | (k, v) :: es =>
    rw [entryFields, fieldsHaveCall, valueExpr_free v, entryFields_free es]
    rfl

end

/-- The source of a known value evaluates to the value of its expression. -/
theorem eval_valueSource (constant : v.Every Json.Constant)
    (nests : levels v < Site.levelLimit - 1) (fits : places v ≤ Binding.placeLimit) {s : Scope}
    {m m' : Machine} {n : Nat} (budget : m.budget = n + 1) (enough : 5 ≤ n) {a : Value}
    (value : ((placeholderEnv m (valueSource v)).value (within n) (valueExpr v)).exec
      (m.loaded s (valueSource v) [.ret [valueExpr v]]) = .done a m') :
    s.eval (valueSource v) m = .done a m' :=
  eval_returned (has_value constant) (parse_value constant nests fits) budget enough
    ((leads_ret_value (valueExpr_free v) (valueExpr_single v) value).trans leads_returned)

/-- A constant of a program is the same data to whoever evaluates its source as to whoever makes its
value at once. -/
theorem constants_agree (constant : v.Every Json.Constant)
    (other : v.Every (· ≠ .int Json.leastInt)) (nests : levels v < Site.levelLimit - 1)
    (fits : places v ≤ Binding.placeLimit) (s : Scope) {m : Machine} (budget : 5 < m.budget) :
    ∃ a m₁ b m₂, s.eval (Literal.const v).source m = .done a m₁ ∧
      literalValue s (.const v) m = .done b m₂ ∧ Alike m₁ m₂ a b := by
  obtain ⟨n, some_⟩ := Nat.exists_eq_add_of_lt budget
  have signed := constant.combine (fun _ => Json.Signed.mk) other
  obtain ⟨a, m₁, value, -, holds⟩ := makes_value (placeholderEnv m (valueSource v))
    (within (5 + n)) signed (m.loaded s (valueSource v) [.ret [valueExpr v]])
  obtain ⟨b, m₂, made, -, holds'⟩ := makes_make (ε := RuntimeError) constant m
  exact ⟨a, m₁, b, m₂, eval_valueSource constant nests fits some_ (Nat.le_add_right 5 n) value,
    made, holds.alike holds'⟩

/-- A new scope among the names that there are from the start. -/
theorem root_opens : ∃ s m, (Scope.root : Run EvalError Scope) (Machine.initial {}) = .done s m ∧
    m.budget = 9999999999 + 1 := ⟨_, _, rfl, rfl⟩

/-- Nulls, numbers at the limits, and keys of both kinds. -/
def sampleConstant : Json :=
  .obj [("limits", .arr [.int (-9223372036854775807), .null, .int 18446744073709551615, .null]),
    ("no name", .obj [("n", .float (-0.5)), ("end", .str "a\nb")])]

theorem constants_agree_sample : ∃ s m,
    (Scope.root : Run EvalError Scope) (Machine.initial {}) = .done s m ∧
    ∃ a m₁ b m₂, s.eval (Literal.const sampleConstant).source m = .done a m₁ ∧
      literalValue s (.const sampleConstant) m = .done b m₂ ∧ Alike m₁ m₂ a b := by
  have finite : Number.isFinite (-0.5) = true := by decide +kernel
  have low : Json.leastInt ≤ -9223372036854775807 ∧
      (-9223372036854775807 : Int) ≤ Json.greatestNat := by decide
  have high : Json.leastInt ≤ 18446744073709551615 ∧
      (18446744073709551615 : Int) ≤ Json.greatestNat := by decide
  have constant : sampleConstant.Every Json.Constant :=
    ⟨(by decide : ["limits", "no name"].Nodup),
      ⟨(by decide : 4 < 2 ^ 63), low, trivial, high, trivial, trivial⟩,
      ⟨(by decide : ["n", "end"].Nodup), finite, trivial, trivial⟩, trivial⟩
  have apart {n : Int} (h : n ≠ Json.leastInt) : Json.int n ≠ .int Json.leastInt :=
    fun same => h (Json.int.inj same)
  have other : sampleConstant.Every (· ≠ .int Json.leastInt) :=
    ⟨nofun, ⟨nofun, apart (by decide), nofun, apart (by decide), nofun, trivial⟩,
      ⟨nofun, nofun, nofun, trivial⟩, trivial⟩
  obtain ⟨s, m, opened, budget⟩ := root_opens
  exact ⟨s, m, opened,
    constants_agree constant other (by decide +kernel) (by decide) s (by omega)⟩

/-- The least integer is a double in source: its digits fit no integer before the minus. -/
theorem constants_agree_least : ∃ s m,
    (Scope.root : Run EvalError Scope) (Machine.initial {}) = .done s m ∧
    ∃ a m₁ b m₂, s.eval (Literal.const (.int Json.leastInt)).source m = .done (.float a) m₁ ∧
      literalValue s (.const (.int Json.leastInt)) m = .done (.int b) m₂ ∧
      ¬Alike m₁ m₂ (.float a) (.int b) := by
  have constant : (Json.int Json.leastInt).Every Json.Constant :=
    (by decide : Json.leastInt ≤ Json.leastInt ∧ Json.leastInt ≤ Json.greatestNat)
  obtain ⟨s, m, opened, budget⟩ := root_opens
  have made : literalValue s (.const (.int Json.leastInt)) m =
      .done (.int Int64.minValue) m := rfl
  have evaluated := eval_valueSource constant (s := s) (by decide) (by decide) budget (by decide)
    (value_signed _ _ true (Numeral.double (Nat.pow 2 63) 0) _)
  exact ⟨s, m, opened, _, _, _, _, evaluated, made, nofun⟩

end Constants

end Tasklang.Execution
