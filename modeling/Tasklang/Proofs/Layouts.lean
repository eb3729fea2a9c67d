import Tasklang.Proofs.Elements

/-! # Tables however they are laid out

What a table answers for a key is what the key was given last: laying out the table anew moves
values between the sequence and the other entries, and no key stands in both. The length is found
by halving and doubling, and it is the number of items when these have no gap, wherever they stand
and wherever it is looked for first.
-/

namespace Tasklang.Lua.Table

variable {t : Table} {key other v : Value} {n size : Nat}

/-! ## The length of a sequence without gaps -/

/-- Whether exactly the first positions are used. -/
structure Full (t : Table) (n : Nat) : Prop where
  bounded : n ≤ greatest
  used : ∀ k, 0 < k → k ≤ greatest → (t.item k = .nil ↔ n < k)

namespace Full

/-- Halving finds the last used position, as its distance to an unused one shrinks by half. -/
theorem borderBetween (full : t.Full n) {fuel low high : Nat} (below : low ≤ n) (above : n < high)
    (within : high ≤ greatest) (near : high - low ≤ 2 ^ fuel) :
    t.borderBetween fuel low high = n := by
  induction fuel generalizing low high with
  | zero =>
    rw [Table.borderBetween]
    rw [Nat.pow_zero] at near
    omega
  | succ fuel ih =>
    rw [Nat.pow_succ] at near
    rw [Table.borderBetween]
    split
    · have middle := full.used ((low + high) / 2) (by omega) (by omega)
      simp only
      split
      · rename_i empty
        exact ih below (middle.1 empty) (by omega) (by omega)
      · rename_i used
        exact ih (Nat.le_of_not_lt (used ∘ middle.2)) above within (by omega)
    · omega

/-- Doubling goes on as long as positions are used, so that it passes the last one. -/
theorem borderAbove (full : t.Full n) {fuel present : Nat} (positive : 0 < present)
    (below : present ≤ n) (enough : greatest < present * 2 ^ fuel) :
    t.borderAbove fuel present = n := by
  have bounded := full.bounded
  induction fuel generalizing present with
  | zero =>
    rw [Nat.pow_zero] at enough
    omega
  | succ fuel ih =>
    rw [Table.borderAbove]
    have high : greatest = 2 ^ 63 - 1 := rfl
    have wide : greatest ≤ 2 ^ 64 := by decide
    generalize next_eq : (if present ≤ greatest / 2 then present * 2 else greatest) = next
    have larger : present ≤ next ∧ next ≤ greatest := by
      rw [← next_eq]
      split <;> omega
    have there := full.used next (by omega) larger.2
    split
    · rename_i empty
      exact full.borderBetween below (there.1 empty) larger.2 (by omega)
    · rename_i used
      have below' : next ≤ n := Nat.le_of_not_lt (used ∘ there.2)
      split
      · omega
      · rename_i more
        refine ih (by omega) below' ?_
        -- The next position is the greatest one only where the search ends.
        have doubled : next = present * 2 := by
          rw [← next_eq]
          exact if_pos (by_contra fun far => more (next_eq.symm.trans (if_neg far)))
        rw [doubled, Nat.mul_assoc, Nat.mul_comm 2, ← Nat.pow_succ]
        exact enough

theorem borderBeyond (full : t.Full n) (below : t.items.size ≤ n)
    (small : t.items.size < greatest) : t.borderBeyond = n := by
  have next := full.used (t.items.size + 1) (Nat.succ_pos _) small
  rw [Table.borderBeyond]
  split
  · rename_i empty
    have := next.1 empty
    omega
  · rename_i used
    have more := Nat.le_of_not_lt (used ∘ next.2)
    refine full.borderAbove (by omega) (by omega) ?_
    have high : greatest < 2 ^ 64 := by decide
    have : 1 * 2 ^ 64 ≤ max t.items.size 1 * 2 ^ 64 := Nat.mul_le_mul_right _ (by omega)
    omega

/-- The length is the number of positions that are used, wherever it is looked for first. -/
theorem border (full : t.Full n) (limit : t.limit ≤ t.items.size)
    (small : t.items.size < greatest) : t.border = n := by
  have wide : greatest ≤ 2 ^ 64 := by decide
  have at_limit := full.used t.limit
  have before_limit := full.used (t.limit - 1)
  have after_limit := full.used (t.limit + 1)
  have at_end := full.used t.items.size
  rw [Table.border, Table.measure]
  simp only
  split
  · rename_i empty
    have above := (at_limit (by omega) (by omega)).1 empty.2
    simp only
    split
    · rename_i used
      have := (before_limit (by omega) (by omega)).not.1 used.2
      omega
    · exact full.borderBetween (Nat.zero_le n) above (by omega) (by omega)
  · rename_i used
    have below : t.limit ≤ n := by
      by_contra above
      exact used ⟨by omega, (at_limit (by omega) (by omega)).2 (by omega)⟩
    split
    · rename_i last
      exact full.borderBeyond (last ▸ below) small
    · split
      · rename_i empty
        have := (after_limit (by omega) (by omega)).1 empty
        simp only
        omega
      · split
        · rename_i empty
          have := (at_end (by omega) (by omega)).1 empty
          exact full.borderBetween below this (by omega) (by omega)
        · rename_i used
          have := (at_end (by omega) (by omega)).not.1 used
          exact full.borderBeyond (by omega) small

end Full

/-! ## Keys and positions -/

/-- The positions of a sequence are the integers from one to its length. -/
theorem position?_eq_some (small : size < 2 ^ 63) :
    position? size key = some n ↔ 0 < n ∧ n ≤ size ∧ key = .int (Int64.ofNat n) := by
  constructor
  · intro is_
    match key with
    | .int m =>
      rw [position?] at is_
      split at is_
      · rename_i inside
        cases is_
        have positive : 0 < m.toInt := by
          have := Int64.lt_iff_toInt_lt.1 inside.1
          rwa [Int64.toInt_zero] at this
        refine ⟨by omega, inside.2, congrArg Value.int (Int64.toInt_inj.1 ?_)⟩
        rw [Int64.toInt_ofNat_of_lt (by omega), Int.toNat_of_nonneg (by omega)]
      · cases is_
  · rintro ⟨low, high, rfl⟩
    rw [position_ofNat low (by omega), if_pos high]

theorem mem_usedPositions :
    n ∈ t.usedPositions ↔ 0 < n ∧ n ≤ t.items.size ∧ t.items.getD (n - 1) .nil ≠ .nil := by
  simp only [usedPositions, List.mem_map, List.mem_filter, List.mem_zipIdx_iff_le_and_getElem?_sub,
    Array.getElem?_toList, bne_iff_ne, Prod.exists, exists_eq_right, Array.getD_eq_getD_getElem?]
  constructor
  · rintro ⟨w, ⟨low, there⟩, some_⟩
    obtain ⟨below, -⟩ := Array.getElem?_eq_some_iff.1 there
    exact ⟨low, by omega, by rwa [there]⟩
  · rintro ⟨low, high, some_⟩
    have inside : n - 1 < t.items.size := by omega
    have there := Array.getElem?_eq_getElem inside
    rw [there] at some_ ⊢
    exact ⟨_, ⟨low, rfl⟩, some_⟩

/-! ## Entries that are laid out anew -/

/-- Entries that are added in place of others have their values; the rest stay. -/
theorem find_withEntries (value : Value → Value) {more : List (Value × Value)}
    (same : ∀ e ∈ more, e.2 = value e.1) (entries : List (Value × Value)) (key : Value) :
    find key (more.foldl withEntry entries) =
      if key ∈ more.map (·.1) then value key else find key entries := by
  induction more generalizing entries with
  | nil => rfl
  | cons e more ih =>
    obtain ⟨first, others⟩ := List.forall_mem_cons.1 same
    simp only [List.foldl_cons, ih others, List.map_cons, List.mem_cons]
    by_cases there : key ∈ more.map (·.1)
    · rw [if_pos there, if_pos (.inr there)]
    · rw [if_neg there]
      by_cases is_ : key = e.1
      · rw [if_pos (.inl is_), is_, ← first]
        exact find_withEntry_same entries e.1 e.2
      · rw [if_neg (by simp [is_, there]), find_withEntry_other _ is_]

theorem keys_withEntries {more : List (Value × Value)} {entries : List (Value × Value)}
    (there : key ∈ (more.foldl withEntry entries).map (·.1)) :
    key ∈ more.map (·.1) ∨ key ∈ entries.map (·.1) := by
  induction more generalizing entries with
  | nil => exact .inr there
  | cons e more ih =>
    rcases ih there with later | earlier
    · exact .inl (.tail _ later)
    · rw [withEntry, List.map_append, List.mem_append] at earlier
      rcases earlier with kept | last
      · exact .inr ((List.filter_sublist.map _).subset kept)
      · rw [List.mem_singleton.1 last]
        exact .inl (.head _)

/-- Put an entry at its position in a sequence of some length, if it has one there. -/
def store (size : Nat) (items : Array Value) (e : Value × Value) : Array Value :=
  match position? size e.1 with
  | some n => items.setIfInBounds (n - 1) e.2
  | none => items

theorem size_store (entries : List (Value × Value)) (items : Array Value) :
    (entries.foldl (store size) items).size = items.size := by
  induction entries generalizing items with
  | nil => rfl
  | cons e entries ih =>
    rw [List.foldl_cons, ih, store]
    split
    · exact Array.size_setIfInBounds
    · rfl

/-- A position has the value of its entry after all are stored, and else what was there. -/
theorem getD_store {entries : List (Value × Value)} {items : Array Value}
    (small : size < 2 ^ 63) (unique : (entries.map (·.1)).Nodup) (room : items.size = size)
    (at_ : position? size key = some n) : (entries.foldl (store size) items).getD (n - 1) .nil =
      if key ∈ entries.map (·.1) then find key entries else items.getD (n - 1) .nil := by
  induction entries generalizing items with
  | nil => rfl
  | cons e entries ih =>
    rw [List.map_cons, List.nodup_cons] at unique
    have size_ : (store size items e).size = size := (size_store [e] items).trans room
    simp only [List.foldl_cons, ih unique.2 size_, List.map_cons, List.mem_cons, find]
    by_cases is_ : e.1 = key
    · subst is_
      have inside := (position?_eq_some small).1 at_
      rw [if_neg unique.1, if_pos (.inl rfl), if_pos rfl, store, at_]
      simp [show n - 1 < items.size by omega]
    · have stays : (store size items e).getD (n - 1) .nil = items.getD (n - 1) .nil := by
        rw [store]
        split
        · rename_i m other
          have apart : m - 1 ≠ n - 1 := by
            intro same
            have := (position?_eq_some small).1 at_
            have := (position?_eq_some small).1 other
            obtain rfl : m = n := by omega
            exact is_ (by simp_all)
          simp only [Array.getD_eq_getD_getElem?, Array.getElem?_setIfInBounds_ne apart]
        · rfl
      simp only [stays, Ne.symm is_, false_or, if_neg is_]

/-! ## What a table answers -/

/-- Whether no key stands both in the sequence and among the other entries, and the sequence is as
long as a table makes it by itself. -/
structure Tidy (t : Table) : Prop where
  apart : ∀ e ∈ t.others, position? t.items.size e.1 = none
  limit : t.limit ≤ t.items.size
  small : t.items.size ≤ positionLimit

/-- The items that a sequence of some length has no place for. -/
def cut (t : Table) (size : Nat) : List (Value × Value) :=
  (t.usedPositions.filter (size < ·)).map fun n =>
    (Value.int (Int64.ofNat n), t.items.getD (n - 1) .nil)

/-- The entries beside a sequence of some length. -/
def spilled (t : Table) (size : Nat) : List (Value × Value) :=
  (t.cut size).foldl withEntry (t.others.filter fun e => e.2 != .nil)

/-- The items of a sequence of some length before the entries are stored. -/
def fitted (t : Table) (size : Nat) : Array Value :=
  t.items.extract 0 size ++ Array.replicate (size - t.items.size) .nil

theorem size_fitted (t : Table) (size : Nat) : (t.fitted size).size = size := by
  simp [fitted]
  omega

theorem getD_fitted (within : n < size) : (t.fitted size).getD n .nil = t.items.getD n .nil := by
  by_cases before : n < t.items.size
  · simp [fitted, Array.getD_eq_getD_getElem?, Array.getElem?_append, before, within]
  · simp only [fitted, Array.getD_eq_getD_getElem?, Array.getElem?_append, Array.size_extract,
      Array.getElem?_replicate, show ¬n < min size t.items.size - 0 by omega, if_false]
    rw [Array.getElem?_eq_none (by omega)]
    split <;> rfl

theorem items_resize (t : Table) (size room : Nat) :
    (t.resize size room).items = (t.spilled size).foldl (store size) (t.fitted size) := rfl

theorem others_resize (t : Table) (size room : Nat) :
    (t.resize size room).others = (t.spilled size).filter fun e => !inSequence size e.1 := rfl

theorem size_resize (t : Table) (size room : Nat) : (t.resize size room).items.size = size := by
  rw [items_resize, size_store, size_fitted]

theorem unique_spilled (t : Table) (size : Nat) : ((t.spilled size).map (·.1)).Nodup :=
  withEntries_unique _ (filter_unique _ t.unique)

theorem mem_cut (small : t.items.size < 2 ^ 63) : key ∈ (t.cut size).map (·.1) ↔
    position? size key = none ∧ ∃ n, position? t.items.size key = some n ∧
      t.items.getD (n - 1) .nil ≠ .nil := by
  simp only [cut, List.map_map, List.mem_map, List.mem_filter, mem_usedPositions,
    decide_eq_true_eq, Function.comp_apply]
  constructor
  · rintro ⟨n, ⟨⟨low, high, used⟩, beyond⟩, rfl⟩
    rw [position_ofNat low (by omega), position_ofNat low (by omega), if_neg (by omega),
      if_pos high]
    exact ⟨rfl, n, rfl, used⟩
  · rintro ⟨outside, n, at_, used⟩
    obtain ⟨low, high, rfl⟩ := (position?_eq_some small).1 at_
    rw [position_ofNat low (by omega)] at outside
    have beyond : ¬n ≤ size := fun within => by
      rw [if_pos within] at outside
      cases outside
    exact ⟨n, ⟨⟨low, high, used⟩, by omega⟩, rfl⟩

namespace Tidy

theorem lt (tidy : t.Tidy) : t.items.size < 2 ^ 63 :=
  Nat.lt_of_le_of_lt tidy.small (by decide)

theorem notMem_others (tidy : t.Tidy) (at_ : position? t.items.size key = some n) :
    key ∉ t.others.map (·.1) := by
  intro there
  obtain ⟨e, inside, rfl⟩ := List.mem_map.1 there
  rw [tidy.apart e inside] at at_
  cases at_

/-- Beside a sequence of some length stand the entries that it has no place for, and those that were
no positions before. -/
theorem find_spilled (tidy : t.Tidy) (size : Nat) (key : Value) : find key (t.spilled size) =
    if position? size key = none then t.getNormal key else find key t.others := by
  have items : ∀ e ∈ t.cut size, e.2 = t.getNormal e.1 := by
    intro e there
    obtain ⟨n, used, rfl⟩ := List.mem_map.1 there
    obtain ⟨low, high, -⟩ := mem_usedPositions.1 (List.mem_filter.1 used).1
    rw [getNormal, (position?_eq_some tidy.lt).2 ⟨low, high, rfl⟩]
  rw [spilled, find_withEntries t.getNormal items, find_filter_present key t.unique]
  by_cases outside : position? size key = none
  · rw [if_pos outside]
    split
    · rfl
    · -- A position that was not cut off has no value, and is not among the others either.
      rename_i kept
      rw [mem_cut tidy.lt] at kept
      rw [getNormal]
      split
      · rename_i n at_
        rw [find_of_notMem (tidy.notMem_others at_)]
        by_contra used
        exact kept ⟨outside, n, at_, Ne.symm used⟩
      · rfl
  · rw [if_neg outside, if_neg fun there => outside ((mem_cut tidy.lt).1 there).1]

/-- A table that is laid out anew answers as before. -/
theorem getNormal_resize (tidy : t.Tidy) (small : size < 2 ^ 63) (room : Nat) (key : Value) :
    (t.resize size room).getNormal key = t.getNormal key := by
  have spilled := tidy.find_spilled size key
  rw [getNormal, size_resize]
  split
  · rename_i n at_
    rw [if_neg (by simp [at_])] at spilled
    obtain ⟨low, high, is_⟩ := (position?_eq_some small).1 at_
    rw [items_resize, getD_store small (unique_spilled t size) (size_fitted t size) at_,
      getD_fitted (by omega), spilled, getNormal]
    split
    · rename_i there
      split
      · rename_i n' at_'
        -- A position of the sequence is neither cut off from it nor among the others.
        rcases keys_withEntries there with cut | other
        · rw [mem_cut tidy.lt, at_] at cut
          cases cut.1
        · exact absurd ((List.filter_sublist.map _).subset other) (tidy.notMem_others at_')
      · rfl
    · rename_i absent
      rw [find_of_notMem absent] at spilled
      by_cases before : n ≤ t.items.size
      · rw [(position?_eq_some tidy.lt).2 ⟨low, before, is_⟩]
      · rw [is_, position_ofNat low (by omega), if_neg before, ← is_, ← spilled]
        simp [Array.getD_eq_getD_getElem?, show ¬n - 1 < t.items.size by omega]
  · rename_i outside
    rw [if_pos outside] at spilled
    have stays : (!inSequence size key) = true := by simp [inSequence, outside]
    rw [others_resize, find_filter_key (fun k => !inSequence size k) _ stays]
    exact spilled

theorem resize (_ : t.Tidy) (small : size ≤ positionLimit) (room : Nat) :
    (t.resize size room).Tidy where
  apart e there := by
    have outside := (List.mem_filter.1 there).2
    rw [size_resize]
    simpa [inSequence] using outside
  limit := by
    rw [size_resize]
    exact Nat.le_refl size
  small := by rwa [size_resize]

end Tidy

/-- The sequence is made a power of two that is not too large. -/
theorem bestSize_le {counts : Array Nat} {total fuel exponent covered : Nat} {best : Nat × Nat}
    (low : best.1 ≤ positionLimit) (few : exponent + fuel ≤ 32) :
    (bestSize counts total fuel exponent covered best).1 ≤ positionLimit := by
  induction fuel generalizing exponent covered best with
  | zero => exact low
  | succ fuel ih =>
    rw [bestSize]
    simp only
    split
    · refine ih ?_ (by omega)
      split
      · exact Nat.pow_le_pow_right (by decide) (by omega)
      · exact low
    · exact low

theorem grow_eq_resize (t : Table) (key : Value) :
    ∃ size room, size ≤ positionLimit ∧ t.grow key = t.resize size room := by
  simp only [grow]
  refine ⟨_, _, ?_, rfl⟩
  exact bestSize_le (Nat.zero_le _) (Nat.le_refl _)

/-- Whether a table is one that answers for a key with a value, and for all others as before. -/
structure Puts (t : Table) (key v : Value) (t' : Table) : Prop where
  tidy : t'.Tidy
  getNormal : ∀ other, t'.getNormal other = if other = key then v else t.getNormal other

namespace Tidy

/-- A position is given a value. -/
theorem putAt (tidy : t.Tidy) (at_ : position? t.items.size key = some n) {t' : Table}
    (items : t'.items = Tasklang.Lua.putAt t.items (n - 1) v) (others : t'.others = t.others)
    (limit : t'.limit ≤ t.items.size) : t.Puts key v t' := by
  have same : t'.items.size = t.items.size := by
    rw [items]
    exact Array.size_setIfInBounds
  refine ⟨⟨?_, by rwa [same], same ▸ tidy.small⟩, fun other => ?_⟩
  · rw [same, others]
    exact tidy.apart
  · obtain ⟨low, high, is_⟩ := (position?_eq_some tidy.lt).1 at_
    rw [Table.getNormal, Table.getNormal, same, items, others]
    split
    · rename_i m at_'
      obtain ⟨low', high', is_'⟩ := (position?_eq_some tidy.lt).1 at_'
      by_cases this : m = n
      · subst this
        rw [if_pos (is_'.trans is_.symm)]
        simp [Tasklang.Lua.putAt, Array.getD_eq_getD_getElem?, show m - 1 < t.items.size by omega]
      · have apart : other ≠ key := by
          rintro rfl
          exact this (Option.some.inj (at_'.symm.trans at_))
        rw [if_neg apart]
        simp [Tasklang.Lua.putAt, Array.getD_eq_getD_getElem?,
          Array.getElem?_setIfInBounds_ne (show n - 1 ≠ m - 1 by omega)]
    · rename_i outside
      rw [if_neg]
      rintro rfl
      rw [at_] at outside
      cases outside

/-- Another entry is given a value. -/
theorem putOther (tidy : t.Tidy) (outside : position? t.items.size key = none) {t' : Table}
    (items : t'.items = t.items) (limit : t'.limit = t.limit)
    (keys : ∀ e ∈ t'.others, e.1 = key ∨ e.1 ∈ t.others.map (·.1))
    (found : ∀ other, find other t'.others = if other = key then v else find other t.others) :
    t.Puts key v t' := by
  refine ⟨⟨fun e there => ?_, ?_, ?_⟩, fun other => ?_⟩
  · rw [items]
    rcases keys e there with is_ | before
    · rwa [is_]
    · obtain ⟨e', there', is_⟩ := List.mem_map.1 before
      exact is_ ▸ tidy.apart e' there'
  · rw [items, limit]
    exact tidy.limit
  · rw [items]
    exact tidy.small
  · rw [Table.getNormal, Table.getNormal, items]
    split
    · rename_i at_
      rw [if_neg]
      rintro rfl
      rw [outside] at at_
      cases at_
    · exact found other

/-- An entry takes the place of the one that has its key. -/
theorem putEntry (tidy : t.Tidy) (outside : position? t.items.size key = none) {t' : Table}
    (items : t'.items = t.items) (limit : t'.limit = t.limit)
    {entries : List (Value × Value)} (others : t'.others = withEntry entries (key, v))
    (fewer : entries.Sublist t.others)
    (kept : ∀ other, other ≠ key → find other entries = find other t.others) :
    t.Puts key v t' := by
  refine tidy.putOther outside items limit (fun e there => ?_) fun other => ?_
  · rw [others, withEntry, List.mem_append] at there
    rcases there with there | last
    · exact .inr (List.mem_map_of_mem (fewer.subset (List.mem_filter.1 there).1))
    · exact .inl (by rw [List.mem_singleton.1 last])
  · rw [others]
    by_cases is_ : other = key
    · rw [is_, if_pos rfl, find_withEntry_same]
    · rw [if_neg is_, find_withEntry_other _ is_, kept other is_]

theorem insert? (tidy : t.Tidy) {t' : Table} (done : t.insert? key v = some t') :
    t.Puts key v t' := by
  have others (other : Value) (apart : other ≠ key) := find_insert?_other done apart
  rw [Table.insert?] at done
  split at done
  · rename_i n at_
    cases done
    exact tidy.putAt at_ rfl rfl tidy.limit
  · rename_i outside
    split at done
    · cases done
    · cases done
      exact tidy.putEntry outside rfl rfl rfl (List.Sublist.refl _) fun _ _ => rfl
    · rename_i layout gone taken
      cases done
      refine tidy.putEntry outside rfl rfl rfl List.filter_sublist fun other apart => ?_
      have same := others other apart
      rwa [find_withEntry_other _ apart] at same

/-- A table in which a new key finds no room is laid out anew without changing its answers. -/
theorem grow (tidy : t.Tidy) (key : Value) :
    (t.grow key).Tidy ∧ ∀ other, (t.grow key).getNormal other = t.getNormal other := by
  obtain ⟨size, room, small, grown⟩ := t.grow_eq_resize key
  rw [grown]
  exact ⟨tidy.resize small room,
    tidy.getNormal_resize (Nat.lt_of_le_of_lt small (by decide)) room⟩

theorem touch_limit (tidy : t.Tidy) (key : Value) : (t.touch key).limit ≤ t.items.size := by
  rw [touch]
  split
  · exact tidy.limit
  · split
    · rename_i n at_
      split
      · exact ((position?_eq_some tidy.lt).1 at_).2.1
      · exact tidy.limit
    · exact tidy.limit

/-- A table answers for a key with the value that it was given, and for all others as before. -/
theorem setNormal (tidy : t.Tidy) (key v : Value) : t.Puts key v (t.setNormal key v) := by
  simp only [Table.setNormal]
  split
  · rename_i n at_
    have items : (t.touch key).items = t.items := by rw [touch_eq]
    have others : (t.touch key).others = t.others := by rw [touch_eq]
    exact tidy.putAt at_ (congrArg (Lua.putAt · (n - 1) v) items) others (tidy.touch_limit key)
  rename_i outside
  split
  · rename_i there
    refine tidy.putOther outside rfl rfl (fun e inside => .inr ?_) fun other => ?_
    · rw [← replace_keys key v]
      exact List.mem_map_of_mem inside
    · by_cases is_ : other = key
      · rw [is_, if_pos rfl, find_replace_same v there]
      · rw [if_neg is_, find_replace_other v _ is_]
  rename_i new
  split
  · rename_i nothing
    have absent : find key t.others = .nil := find_of_notMem fun there =>
      new ((hasKey_iff key t.others).2 there)
    refine ⟨tidy, fun other => ?_⟩
    by_cases is_ : other = key
    · rw [is_, if_pos rfl, nothing, Table.getNormal, outside, absent]
    · rw [if_neg is_]
  split
  · rename_i t' found
    exact tidy.insert? found
  · -- No room is left: the table grows without another answer, and then the key is put into it.
    obtain ⟨again, answers⟩ := tidy.grow key
    suffices puts : (t.grow key).Puts key v _ from
      ⟨puts.tidy, fun other => by rw [puts.getNormal, answers]⟩
    cases found : (t.grow key).insert? key v with
    | some t' =>
      rw [Option.getD_some]
      exact again.insert? found
    | none =>
      rw [Option.getD_none]
      have outside : position? (t.grow key).items.size key = none := by
        cases at_ : position? (t.grow key).items.size key with
        | none => rfl
        | some n =>
          rw [Table.insert?, at_] at found
          cases found
      exact again.putEntry outside rfl rfl rfl (List.Sublist.refl _) fun _ _ => rfl

end Tidy

/-! ## Sequences -/

/-- Whether a table holds a sequence of values and nothing else, however it is laid out. -/
def Spans (t : Table) (vs : List Value) : Prop :=
  ∀ key, t.getNormal key = match position? vs.length key with
    | some n => vs.getD (n - 1) .nil
    | none => .nil

theorem tidy_empty : ({} : Table).Tidy where
  apart _ there := absurd there List.not_mem_nil
  limit := Nat.le_refl 0
  small := Nat.zero_le positionLimit

theorem spans_empty : ({} : Table).Spans [] := by
  intro key
  rw [getNormal]
  split <;> split <;> rfl

namespace Spans

variable {vs : List Value}

/-- One more value at the end of a sequence. -/
theorem setItem (spans : t.Spans vs) (tidy : t.Tidy) (bounded : vs.length + 1 < 2 ^ 63)
    (v : Value) : (t.setItem (vs.length + 1) v).Spans (vs ++ [v]) := by
  intro key
  rw [Table.setItem, (tidy.setNormal _ v).getNormal, spans, List.length_append,
    List.length_singleton]
  have last : position? (vs.length + 1) (.int (Int64.ofNat (vs.length + 1))) =
      if vs.length + 1 ≤ vs.length + 1 then some (vs.length + 1) else none :=
    position_ofNat (Nat.succ_pos _) bounded
  by_cases is_ : key = .int (Int64.ofNat (vs.length + 1))
  · rw [if_pos is_, is_, last, if_pos (Nat.le_refl _)]
    simp
  · rw [if_neg is_]
    cases at_ : position? vs.length key with
    | some n =>
      obtain ⟨low, high, is_⟩ := (position?_eq_some (by omega)).1 at_
      have later := (position?_eq_some bounded).2 ⟨low, Nat.le_succ_of_le high, is_⟩
      simp [later, List.getElem?_append_left (show n - 1 < vs.length by omega)]
    | none =>
      cases at_' : position? (vs.length + 1) key with
      | some n =>
        obtain ⟨low, high, is_'⟩ := (position?_eq_some bounded).1 at_'
        have apart : n ≠ vs.length + 1 := fun same => is_ (same ▸ is_')
        rw [(position?_eq_some (by omega)).2 ⟨low, by omega, is_'⟩] at at_
        cases at_
      | none => rfl

/-- A sequence without gaps is as long as there are values. -/
theorem full (spans : t.Spans vs) (bounded : vs.length < 2 ^ 63) (some_ : ∀ v ∈ vs, v ≠ .nil) :
    t.Full vs.length where
  bounded := by
    have high : greatest = 2 ^ 63 - 1 := rfl
    omega
  used k low high := by
    have high : k < 2 ^ 63 := Nat.lt_of_le_of_lt high (by decide)
    rw [item, spans, position_ofNat low high]
    by_cases within : k ≤ vs.length
    · have there : k - 1 < vs.length := by omega
      simp only [within, if_true, List.getD_eq_getElem?_getD, List.getElem?_eq_getElem there,
        Option.getD_some, some_ _ (List.getElem_mem there), false_iff]
      omega
    · simp only [within, if_false, true_iff]
      omega

end Spans

end Tasklang.Lua.Table
