import Tasklang.Proofs.Furnished

/-! # Tables made of data

A mapping became a table that has a field for each of its keys, the last entry of a key winning; a
sequence became a table without fields. The tables within are made at the end of all tables, so that
they stay as they are while later ones come.
-/

namespace Tasklang

open Lua Lua.Code

namespace Lua

/-- Whether a value is what is made of structured data, with all tables of it at places from one on
and as they were made. -/
def Machine.MadeFrom (n : Nat) (m : Machine) (v : Value) (j : Json) : Prop :=
  ∃ (ε : Type) (m₀ m₁ : Machine), n ≤ m₀.tables.size ∧
    (Value.make .nil j : Code ε Value).exec m₀ = .done v m₁ ∧ m₁.tables.size ≤ m.tables.size ∧
    ∀ r, m₀.tables.size ≤ r → r < m₁.tables.size → m.tables.getD r {} = m₁.tables.getD r {}

/-- Data stays made while the tables from its first place on stay. -/
theorem Machine.MadeFrom.kept {n : Nat} {m m' : Machine} {v : Value} {j : Json}
    (made : m.MadeFrom n v j) (room : m.tables.size ≤ m'.tables.size)
    (same : ∀ r, n ≤ r → r < m.tables.size → m'.tables.getD r {} = m.tables.getD r {}) :
    m'.MadeFrom n v j := by
  obtain ⟨ε, m₀, m₁, low, made, high, tables⟩ := made
  refine ⟨ε, m₀, m₁, low, made, Nat.le_trans high room, fun r least most => ?_⟩
  rw [same r (Nat.le_trans low least) (Nat.lt_of_lt_of_le most high), tables r least most]

theorem Machine.MadeFrom.made {n : Nat} {m : Machine} {v : Value} {j : Json}
    (made : m.MadeFrom n v j) : m.Made v j := by
  obtain ⟨ε, m₀, m₁, -, made, high, tables⟩ := made
  exact ⟨ε, m₀, m₁, made, high, tables⟩

end Lua

/-- What the last entry with a key holds. -/
def Json.lastOf? (key : Bytes) : List (String × Json) → Option Json
  | [] => none
  | (k, j) :: rest => match lastOf? key rest with
    | some later => some later
    | none => if Bytes.ofString k = key then some j else none

/-- What data holds under a key. -/
def Json.entry? (key : Bytes) : Json → Option Json
  | .obj entries => lastOf? key entries
  | _ => none

namespace Lua

section Filling

variable {ε : Type} {r : TableRef} {m m' : Machine}

/-- What filling a table with entries comes to. The induction is on the entries: each value is made
at the end of the tables and then put into its field, where a later entry may replace it. -/
theorem fillEntries_named {entries : List (String × Json)} (placed : r < m.tables.size)
    (done : (Value.fillEntries .nil r entries : Code ε Unit).exec m = .done () m') :
    m.tables.size ≤ m'.tables.size ∧
    (∀ q < m.tables.size, q ≠ r → m'.tables.getD q {} = m.tables.getD q {}) ∧
    (m'.tables.getD r {}).metatable = (m.tables.getD r {}).metatable ∧
    ∀ key, match Json.lastOf? key entries with
      | some j => m'.MadeFrom m.tables.size ((m'.tables.getD r {}).named key) j
      | none => (m'.tables.getD r {}).named key = (m.tables.getD r {}).named key := by
  induction entries generalizing m with
  | nil =>
    cases done
    exact ⟨Nat.le_refl _, fun _ _ _ => rfl, rfl, fun _ => rfl⟩
  | cons e entries ih =>
    obtain ⟨k, j⟩ := e
    simp only [Value.fillEntries, bind_done] at done
    obtain ⟨v, m₁, made, _, m₂, put, done⟩ := done
    cases put
    have adds := Value.make_adds made
    have placed₁ : r < m₁.tables.size := Nat.lt_of_lt_of_le placed adds.grows.tables
    have here : (changeAt m₁.tables r fun t => t.setField k v).getD r {} =
        (m.tables.getD r {}).setField k v := by
      rw [getD_changeAt_same _ _ placed₁, adds.tables r placed]
    obtain ⟨room, others, metatable, fields⟩ := ih
      (m := { m₁ with tables := changeAt m₁.tables r fun t => t.setField k v })
      (by rwa [changeAt_size]) done
    simp only [changeAt_size, here] at room others metatable fields
    have kept (q : Nat) (hq : q < m₁.tables.size) (apart : q ≠ r) :
        m'.tables.getD q {} = m₁.tables.getD q {} := by
      rw [others q hq apart, getD_changeAt_other _ _ (Ne.symm apart)]
    refine ⟨Nat.le_trans adds.grows.tables room, fun q hq apart => ?_, ?_, fun key => ?_⟩
    · rw [kept q (Nat.lt_of_lt_of_le hq adds.grows.tables) apart, adds.tables q hq]
    · rw [metatable, Table.metatable_setField]
    · have field := fields key
      rw [Json.lastOf?]
      cases later : Json.lastOf? key entries with
      | some j' =>
        simp only [later] at field
        obtain ⟨ε', m₃, m₄, low, made', high, tables⟩ := field
        exact ⟨ε', m₃, m₄, Nat.le_trans adds.grows.tables low, made', high, tables⟩
      | none =>
        simp only [later] at field
        rw [field]
        by_cases own : Bytes.ofString k = key
        · subst own
          have given : ((m.tables.getD r {}).setField k v).named (Bytes.ofString k) = v :=
            Table.find_setNormal_same _ _ _
          simp only [if_true, given]
          refine ⟨ε, m, m₁, Nat.le_refl _, made, room, fun q least most => ?_⟩
          exact kept q most (Nat.ne_of_gt (Nat.lt_of_lt_of_le placed least))
        · simp only [if_neg own]
          exact Table.find_setNormal_other _ _ fun same => own (Value.str.inj same).symm

/-- Filling a table with items leaves its fields and its metatable alone. -/
theorem fillItems_named {n : Nat} {items : List Json} (placed : r < m.tables.size)
    (done : (Value.fillItems .nil r n items : Code ε Unit).exec m = .done () m') :
    r < m'.tables.size ∧ (m'.tables.getD r {}).metatable = (m.tables.getD r {}).metatable ∧
    ∀ key, (m'.tables.getD r {}).named key = (m.tables.getD r {}).named key := by
  induction items generalizing n m with
  | nil =>
    cases done
    exact ⟨placed, rfl, fun _ => rfl⟩
  | cons j items ih =>
    simp only [Value.fillItems, bind_done] at done
    obtain ⟨v, m₁, made, _, m₂, put, done⟩ := done
    cases put
    have adds := Value.make_adds made
    have placed₁ : r < m₁.tables.size := Nat.lt_of_lt_of_le placed adds.grows.tables
    have here : (changeAt m₁.tables r fun t => t.setItem n v).getD r {} =
        (m.tables.getD r {}).setItem n v := by
      rw [getD_changeAt_same _ _ placed₁, adds.tables r placed]
    obtain ⟨room, metatable, fields⟩ := ih
      (m := { m₁ with tables := changeAt m₁.tables r fun t => t.setItem n v })
      (by rwa [changeAt_size]) done
    simp only [here] at metatable fields
    refine ⟨room, ?_, fun key => ?_⟩
    · rw [metatable, Table.setItem, Table.metatable_setNormal]
    · rw [fields key]
      exact Table.find_setNormal_other _ _ nofun

end Filling

/-- A table made of data has the fields of the data, and at most the mark of a sequence for a
metatable. -/
theorem Machine.Made.fields {m : Machine} {r : TableRef} {j : Json} (made : m.Made (.table r) j) :
    ((m.tables.getD r {}).metatable = none ∨ (m.tables.getD r {}).metatable = some arrayMetaRef) ∧
    ∀ key, match j.entry? key with
      | some j' => m.Made ((m.tables.getD r {}).named key) j'
      | none => (m.tables.getD r {}).named key = .nil := by
  obtain ⟨ε, m₀, m₁, made, room, same⟩ := made
  cases j with
  | arr items =>
    simp only [Value.make, bind_done, exec_pure, Outcome.done.injEq] at made
    obtain ⟨r', m₂, new, _, m₃, filled, is_, rfl⟩ := made
    cases new
    cases is_
    obtain ⟨placed, metatable, fields⟩ := fillItems_named (by simp) filled
    simp only [getD_push_same] at metatable fields
    rw [same _ (Nat.le_refl _) placed]
    exact ⟨.inr metatable, fields⟩
  | obj entries =>
    simp only [Value.make, bind_done, exec_pure, Outcome.done.injEq] at made
    obtain ⟨r', m₂, new, _, m₃, filled, is_, rfl⟩ := made
    cases new
    cases is_
    obtain ⟨grown, -, metatable, fields⟩ := fillEntries_named (by simp) filled
    simp only [getD_push_same, Array.size_push] at metatable fields grown
    rw [same _ (Nat.le_refl _) grown]
    refine ⟨.inl metatable, fun key => ?_⟩
    have field := fields key
    rw [Json.entry?]
    cases found : Json.lastOf? key entries with
    | some j' =>
      simp only [found] at field ⊢
      exact (field.kept room fun q least most => same q (Nat.le_of_succ_le least) most).made
    | none =>
      simp only [found] at field ⊢
      exact field
  | int n =>
    simp only [Value.make, exec_pure, Outcome.done.injEq, Value.ofInt] at made
    split at made <;> cases made.1
  | _ => cases made

end Lua

end Tasklang
