import Tasklang.Lua.Table
import Tasklang.Proofs.Encoding

/-! # Fields of tables

A table answers for a named field with the value that the field was given last, however it was laid
out anew in between. A name is never a position, so that a field always stands among the other
entries; those keep their keys apart.
-/

namespace Tasklang.Lua.Table

theorem hasKey_iff (key : Value) (entries : List (Value × Value)) :
    hasKey key entries = true ↔ key ∈ entries.map (·.1) := by
  induction entries with
  | nil => simp [hasKey]
  | cons e rest ih =>
    simp only [hasKey, Bool.or_eq_true, decide_eq_true_eq, ih, List.map_cons, List.mem_cons]
    exact or_congr_left ⟨Eq.symm, Eq.symm⟩

theorem find_of_notMem {key : Value} {entries : List (Value × Value)}
    (h : key ∉ entries.map (·.1)) : find key entries = .nil := by
  induction entries with
  | nil => rfl
  | cons e rest ih =>
    simp only [List.map_cons, List.mem_cons, not_or] at h
    rw [find, if_neg (Ne.symm h.1), ih h.2]

theorem find_append (key : Value) (entries more : List (Value × Value)) :
    find key (entries ++ more) = if key ∈ entries.map (·.1) then find key entries else find key more := by
  induction entries with
  | nil => rfl
  | cons e rest ih =>
    by_cases h : e.1 = key
    · simp [find, h]
    · simp only [List.cons_append, find, if_neg h, ih, List.map_cons, List.mem_cons,
        show ¬key = e.1 from fun heq => h heq.symm, false_or]

/-- Dropping entries by their keys changes nothing for a key that stays. -/
theorem find_filter_key {key : Value} (p : Value → Bool) (entries : List (Value × Value))
    (h : p key = true) : find key (entries.filter fun e => p e.1) = find key entries := by
  induction entries with
  | nil => rfl
  | cons e rest ih =>
    by_cases hk : e.1 = key
    · subst hk
      simp [h, find]
    · cases hp : p e.1 <;> simp [hp, find, hk, ih]

/-- Dropping the entries that are absent changes nothing. -/
theorem find_filter_present (key : Value) {entries : List (Value × Value)}
    (unique : (entries.map (·.1)).Nodup) :
    find key (entries.filter fun e => e.2 != .nil) = find key entries := by
  induction entries with
  | nil => rfl
  | cons e rest ih =>
    simp only [List.map_cons, List.nodup_cons] at unique
    by_cases hk : e.1 = key
    · subst hk
      by_cases hv : e.2 = .nil
      · simp [hv, ih unique.2, find, find_of_notMem unique.1]
      · simp [hv, find]
    · cases hp : e.2 != .nil <;> simp [hp, find, hk, ih unique.2]

theorem find_withEntry_same (entries : List (Value × Value)) (key value : Value) :
    find key (withEntry entries (key, value)) = value := by
  have gone : key ∉ (entries.filter fun e => e.1 != key).map (·.1) := by
    intro h
    obtain ⟨e, he, hk⟩ := List.mem_map.1 h
    have := (List.mem_filter.1 he).2
    simp [hk] at this
  rw [withEntry, find_append, if_neg gone]
  simp [find]

theorem find_withEntry_other {key : Value} (entries : List (Value × Value)) {entry : Value × Value}
    (h : key ≠ entry.1) : find key (withEntry entries entry) = find key entries := by
  have kept : find key (entries.filter fun e => e.1 != entry.1) = find key entries :=
    find_filter_key (fun k => k != entry.1) entries (by simp [h])
  rw [withEntry, find_append, kept]
  split
  · rfl
  · rename_i absent
    rw [← kept, find_of_notMem absent]
    simp [find, h.symm]

theorem find_withEntries_other {key : Value} (entries more : List (Value × Value))
    (h : key ∉ more.map (·.1)) : find key (more.foldl withEntry entries) = find key entries := by
  induction more generalizing entries with
  | nil => rfl
  | cons e more ih =>
    simp only [List.map_cons, List.mem_cons, not_or] at h
    rw [List.foldl_cons, ih _ h.2, find_withEntry_other _ h.1]

theorem find_replace_same {key : Value} (value : Value) {entries : List (Value × Value)}
    (h : hasKey key entries = true) : find key (replace key value entries) = value := by
  induction entries with
  | nil => simp [hasKey] at h
  | cons e rest ih =>
    obtain ⟨k, v⟩ := e
    by_cases hk : k = key
    · simp [replace, find, hk]
    · have there : hasKey key rest = true := by simpa [hasKey, hk] using h
      simp [replace, find, hk, ih there]

theorem find_replace_other {key other : Value} (value : Value) (entries : List (Value × Value))
    (h : other ≠ key) : find other (replace key value entries) = find other entries := by
  induction entries with
  | nil => rfl
  | cons e rest ih =>
    obtain ⟨k, v⟩ := e
    by_cases hk : k = key
    · subst hk
      simp [replace, find, h.symm]
    · rw [replace, if_neg hk]
      simp only [find, ih]

end Tasklang.Lua.Table

namespace Tasklang.Lua.Layout

/-- A key whose place a new key takes was absent. -/
theorem place_gone {l l' : Layout} {isPresent : Value → Bool} {key gone : Value}
    (h : l.place isPresent key = some (l', some gone)) : isPresent gone = false := by
  simp only [place] at h
  split at h
  · cases h
  · split at h
    · cases h
    · split at h
      · rename_i absent
        simp only [Option.some.injEq, Prod.mk.injEq] at h
        rw [← h.2]
        simpa using absent
      · split at h <;> simp at h

end Tasklang.Lua.Layout

namespace Tasklang.Lua.Table

/-- A key among the other entries is kept when a table is laid out anew. -/
theorem find_resize (t : Table) (size room : Nat) (s : Bytes) :
    find (.str s) (t.resize size room).others = find (.str s) t.others := by
  simp only [resize]
  rw [find_filter_key (fun k => !inSequence size k) _ rfl, find_withEntries_other,
    find_filter_present _ t.unique]
  simp

theorem find_grow (t : Table) (key : Value) (s : Bytes) :
    find (.str s) (t.grow key).others = find (.str s) t.others := by
  simp only [grow]
  exact find_resize t _ _ s

/-- A table that finds room for a new key answers with its value. -/
theorem find_insert?_same {t t' : Table} {s : Bytes} {value : Value}
    (h : t.insert? (.str s) value = some t') : find (.str s) t'.others = value := by
  simp only [insert?, position?] at h
  split at h
  · cases h
  · cases h
    exact find_withEntry_same _ _ _
  · cases h
    exact find_withEntry_same _ _ _

/-- A table that finds room for a new key answers for the others as before: the key whose place is
taken was absent. -/
theorem find_insert?_other {t t' : Table} {key value other : Value}
    (h : t.insert? key value = some t') (apart : other ≠ key) :
    find other t'.others = find other t.others := by
  simp only [insert?] at h
  split at h
  · cases h
    rfl
  · split at h
    · cases h
    · cases h
      exact find_withEntry_other _ apart
    · rename_i layout gone taken
      cases h
      simp only
      rw [find_withEntry_other _ apart]
      have absent := Layout.place_gone taken
      by_cases hg : other = gone
      · subst hg
        have nothing : find other t.others = .nil := by simpa [isPresent] using absent
        rw [nothing, find_of_notMem]
        simp
      · exact find_filter_key (fun k => k != gone) _ (by simp [hg])

/-- Looking at a key changes where the length is looked for at most. -/
theorem touch_eq (t : Table) (key : Value) : t.touch key = { t with limit := (t.touch key).limit } := by
  simp only [touch]
  split
  · rfl
  · split
    · split <;> rfl
    · rfl

/-- A table answers for a name with the value that it was given. -/
theorem find_setNormal_same (t : Table) (s : Bytes) (value : Value) :
    find (.str s) (t.setNormal (.str s) value).others = value := by
  simp only [setNormal, position?]
  split
  · rename_i there
    exact find_replace_same _ there
  · rename_i new
    split
    · rename_i nothing
      rw [nothing, find_of_notMem]
      rwa [← hasKey_iff]
    · split
      · rename_i t' found
        exact find_insert?_same found
      · cases found : (t.grow (.str s)).insert? (.str s) value with
        | some t' =>
          rw [Option.getD_some]
          exact find_insert?_same found
        | none =>
          rw [Option.getD_none]
          exact find_withEntry_same _ _ _

/-- A table answers for a name as before when another key was given a value. -/
theorem find_setNormal_other (t : Table) {key : Value} {s : Bytes} (value : Value)
    (apart : Value.str s ≠ key) :
    find (.str s) (t.setNormal key value).others = find (.str s) t.others := by
  simp only [setNormal]
  split
  · rw [touch_eq]
  · split
    · exact find_replace_other _ _ apart
    · split
      · rfl
      · split
        · rename_i found
          exact find_insert?_other found apart
        · cases found : (t.grow key).insert? key value with
          | some t' => rw [Option.getD_some, find_insert?_other found apart, find_grow]
          | none =>
            simp only [Option.getD_none]
            rw [find_withEntry_other _ apart, find_grow]

theorem metatable_insert? {t t' : Table} {key value : Value} (h : t.insert? key value = some t') :
    t'.metatable = t.metatable := by
  simp only [insert?] at h
  split at h
  · cases h
    rfl
  · split at h
    · cases h
    · cases h
      rfl
    · cases h
      rfl

theorem metatable_setNormal (t : Table) (key value : Value) :
    (t.setNormal key value).metatable = t.metatable := by
  simp only [setNormal]
  split
  · rw [touch_eq]
  · split
    · rfl
    · split
      · rfl
      · split
        · rename_i found
          exact metatable_insert? found
        · cases found : (t.grow key).insert? key value with
          | some t' =>
            rw [Option.getD_some, metatable_insert? found]
            simp only [grow, resize]
          | none => simp only [Option.getD_none, grow, resize]

@[simp] theorem field_setField_same (t : Table) (name : String) (value : Value) :
    (t.setField name value).field name = value :=
  find_setNormal_same t _ value

theorem field_setField_other (t : Table) {name other : String} (value : Value)
    (h : other ≠ name) : (t.setField name value).field other = t.field other :=
  find_setNormal_other t value fun heq => h (Bytes.ofString_injective (Value.str.inj heq))

@[simp] theorem metatable_setField (t : Table) (name : String) (value : Value) :
    (t.setField name value).metatable = t.metatable :=
  metatable_setNormal t _ value

/-- Looking at a text changes nothing. -/
@[simp] theorem touch_str (t : Table) (key : Bytes) : t.touch (.str key) = t := by
  simp [touch, Value.normalKey, position?]

/-- The value of a field whose name is some bytes. -/
def named (t : Table) (key : Bytes) : Value := find (.str key) t.others

/-- Looking up a text is reading a field. -/
theorem get_str (t : Table) (key : Bytes) : t.get (.str key) = t.named key := rfl

end Tasklang.Lua.Table
