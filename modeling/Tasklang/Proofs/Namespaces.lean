import Tasklang.Proofs.Calls
import Tasklang.Proofs.Identifiers

/-! # Installed functions

Functions are installed in the order of their names, by bytes, so that a name comes before all names
below it. So installing fails exactly when a registered name is above another one. When it does not,
a path leads to a function exactly when it is registered, and to a table exactly when it is above a
registered name.
-/

namespace Tasklang

open Lua Lua.Run

/-! ## The order of names -/

namespace Bytes

theorem lt_append {as bs : Bytes} (more : bs ≠ []) : lt as (as ++ bs) = true := by
  induction as with
  | nil =>
    obtain ⟨b, bs, rfl⟩ := List.exists_cons_of_ne_nil more
    rfl
  | cons a as ih => simp [lt, ih]

theorem lt_cons {a b : UInt8} {as bs : Bytes} :
    lt (a :: as) (b :: bs) = true ↔ a < b ∨ a = b ∧ lt as bs = true := by
  rw [lt]
  by_cases low : a < b
  · simp [low]
  · by_cases high : b < a
    · have apart : a ≠ b := fun same => low (same ▸ high)
      simp [low, high, apart]
    · have same : a = b := by
        rw [UInt8.lt_iff_toNat_lt] at low high
        exact UInt8.toNat_inj.1 (by omega)
      simp [same]

theorem lt_trans {as bs cs : Bytes} (h : lt as bs = true) (h' : lt bs cs = true) :
    lt as cs = true := by
  induction as generalizing bs cs with
  | nil =>
    cases cs with
    | nil => cases bs <;> cases h'
    | cons c cs => rfl
  | cons a as ih =>
    cases bs with
    | nil => cases h
    | cons b bs =>
      cases cs with
      | nil => cases h'
      | cons c cs =>
        rw [lt_cons] at h h' ⊢
        rw [UInt8.lt_iff_toNat_lt] at *
        rcases h with h | ⟨rfl, h⟩
        · rcases h' with h' | ⟨rfl, -⟩
          · exact .inl (Nat.lt_trans h h')
          · exact .inl h
        · exact h'.imp_right fun ⟨same, h'⟩ => ⟨same, ih h h'⟩

theorem lt_irrefl (as : Bytes) : lt as as = false := by
  induction as with
  | nil => rfl
  | cons a as ih =>
    rw [← Bool.not_eq_true, lt_cons, ih]
    simp

theorem lt_total (as bs : Bytes) : lt as bs = true ∨ as = bs ∨ lt bs as = true := by
  induction as generalizing bs with
  | nil => cases bs <;> simp [lt]
  | cons a as ih =>
    cases bs with
    | nil => exact .inr (.inr rfl)
    | cons b bs =>
      rw [lt_cons, lt_cons, List.cons.injEq, UInt8.lt_iff_toNat_lt, UInt8.lt_iff_toNat_lt,
        ← UInt8.toNat_inj, ← UInt8.toNat_inj]
      rcases Nat.lt_trichotomy a.toNat b.toNat with low | same | high
      · exact .inl (.inl low)
      · rcases ih bs with low | same' | high
        · exact .inl (.inr ⟨same, low⟩)
        · exact .inr (.inl ⟨same, same'⟩)
        · exact .inr (.inr (.inr ⟨same.symm, high⟩))
      · exact .inr (.inr (.inl high))

end Bytes

namespace Registry

/-- A name that is above another one: the other one goes on with a dot. -/
def Above (a b : String) : Prop := ∃ rest, b = a ++ "." ++ rest

theorem Above.before {a b : String} (h : Above a b) : before a b = true := by
  obtain ⟨rest, rfl⟩ := h
  rw [Registry.before, String.append_assoc, Bytes.ofString_append]
  refine Bytes.lt_append ?_
  rw [Bytes.ofString_append]
  exact List.append_ne_nil_of_left_ne_nil (by decide) _

end Registry

namespace Text

/-- The first pieces of a text are those of its beginning up to a separator. -/
theorem splitChars_begins {sep : Char} {as bs : List Char} :
    splitChars sep as <+: splitChars sep bs ↔ bs = as ∨ ∃ rest, bs = as ++ sep :: rest := by
  constructor
  · intro h
    induction as generalizing bs with
    | nil =>
      cases bs with
      | nil => exact .inl rfl
      | cons b bs =>
        rw [splitChars, splitChars] at h
        split at h
        next is_ => exact .inr ⟨bs, by rw [is_, List.nil_append]⟩
        next => simp at h
    | cons a as ih =>
      cases bs with
      | nil =>
        rw [splitChars, splitChars] at h
        split at h
        · simp [splitChars_ne_nil] at h
        · simp at h
      | cons b bs =>
        obtain ⟨p, ps, is_⟩ := List.exists_cons_of_ne_nil (splitChars_ne_nil sep as)
        obtain ⟨q, qs, is_'⟩ := List.exists_cons_of_ne_nil (splitChars_ne_nil sep bs)
        have onwards : a = b → splitChars sep as <+: splitChars sep bs →
            b :: bs = a :: as ∨ ∃ rest, b :: bs = a :: as ++ sep :: rest := by
          rintro rfl h
          rcases ih h with same | ⟨rest, same⟩
          · exact .inl (by rw [same])
          · exact .inr ⟨rest, by rw [same]; rfl⟩
        simp only [splitChars, is_, is_', List.headD_cons, List.tail_cons] at h
        split at h <;> split at h
        next a_ b_ => exact onwards (a_.trans b_.symm) (is_ ▸ is_' ▸ (List.cons_prefix_cons.1 h).2)
        next => simp at h
        next => simp at h
        next =>
          obtain ⟨same, tails⟩ := List.cons_prefix_cons.1 h
          obtain ⟨heads, pieces⟩ := List.cons.inj same
          exact onwards heads (is_ ▸ is_' ▸ List.cons_prefix_cons.2 ⟨pieces, tails⟩)
  · rintro (rfl | ⟨rest, rfl⟩)
    · exact List.prefix_refl _
    · rw [splitChars_append]
      exact List.prefix_append _ _

/-- The first pieces of a text are the pieces of a text of their own. -/
theorem splitChars_first {sep : Char} {cs : List Char} {pieces : List (List Char)}
    (some_ : pieces ≠ []) (h : pieces <+: splitChars sep cs) :
    ∃ as, splitChars sep as = pieces := by
  induction cs generalizing pieces with
  | nil =>
    obtain ⟨p, ps, rfl⟩ := List.exists_cons_of_ne_nil some_
    obtain ⟨rfl, none⟩ := List.cons_prefix_cons.1 h
    exact ⟨[], by rw [List.prefix_nil.1 none]; rfl⟩
  | cons c cs ih =>
    obtain ⟨p, ps, rfl⟩ := List.exists_cons_of_ne_nil some_
    rw [splitChars] at h
    split at h
    next is_ =>
      obtain ⟨rfl, rest⟩ := List.cons_prefix_cons.1 h
      by_cases last : ps = []
      · exact ⟨[], by rw [last]; rfl⟩
      · obtain ⟨as, same⟩ := ih last rest
        exact ⟨sep :: as, by rw [splitChars, if_pos rfl, same]⟩
    next other =>
      obtain ⟨q, qs, is_⟩ := List.exists_cons_of_ne_nil (splitChars_ne_nil sep cs)
      rw [is_, List.headD_cons, List.tail_cons] at h
      obtain ⟨rfl, rest⟩ := List.cons_prefix_cons.1 h
      have first : q :: ps <+: splitChars sep cs := is_ ▸ List.cons_prefix_cons.2 ⟨rfl, rest⟩
      obtain ⟨as, same⟩ := ih (List.cons_ne_nil q ps) first
      exact ⟨c :: as, by rw [splitChars, if_neg other, same]; rfl⟩

theorem split_first {name : String} {segments : List String} (some_ : segments ≠ [])
    (h : segments <+: split '.' name) : ∃ path, split '.' path = segments := by
  obtain ⟨rest, h⟩ := h
  have h' := congrArg (List.map String.toList) h
  simp only [split, List.map_append, List.map_map, Function.comp_def, String.toList_ofList,
    List.map_id'] at h'
  have first : segments.map String.toList <+: splitChars '.' name.toList := ⟨_, h'⟩
  obtain ⟨as, same⟩ := splitChars_first (fun none => some_ (List.map_eq_nil_iff.1 none)) first
  refine ⟨String.ofList as, ?_⟩
  rw [split, String.toList_ofList, same, List.map_map]
  simp

/-- A name is above another one when its segments are the first ones of the other. -/
theorem split_begins {a b : String} :
    split '.' a <+: split '.' b ↔ b = a ∨ Registry.Above a b := by
  have spelled (rest : List Char) : b.toList = a.toList ++ '.' :: rest ↔
      b = a ++ "." ++ String.ofList rest := by
    rw [← String.toList_inj]
    simp
  have mapped : split '.' a <+: split '.' b ↔
      splitChars '.' a.toList <+: splitChars '.' b.toList := by
    constructor
    · rintro ⟨rest, h⟩
      have h' := congrArg (List.map String.toList) h
      simp only [split, List.map_append, List.map_map, Function.comp_def, String.toList_ofList,
        List.map_id'] at h'
      exact ⟨_, h'⟩
    · exact fun h => h.map _
  rw [mapped, splitChars_begins, String.toList_inj, Registry.Above]
  refine or_congr_right ⟨?_, ?_⟩
  · rintro ⟨rest, h⟩
    exact ⟨_, (spelled rest).1 h⟩
  · rintro ⟨rest, h⟩
    refine ⟨rest.toList, ?_⟩
    rw [spelled, String.ofList_toList]
    exact h

theorem split_inj {a b : String} : split '.' a = split '.' b ↔ a = b := by
  refine ⟨fun same => ?_, fun same => same ▸ rfl⟩
  rcases split_begins.1 (same ▸ List.prefix_refl _ : split '.' a <+: split '.' b) with is_ | above
  · exact is_.symm
  · rcases split_begins.1 (same ▸ List.prefix_refl _ : split '.' b <+: split '.' a) with is_ | above'
    · exact is_
    · have circle := Bytes.lt_trans above.before above'.before
      rw [Bytes.lt_irrefl] at circle
      cases circle

end Text

/-! ## Putting a function into a namespace -/

/-- What following a path reaches. -/
inductive Reached where
  | nothing
  | table
  | function (f : HostFunction)
  deriving DecidableEq, Repr

namespace Namespace

/-- What following the segments of a path from a namespace reaches. -/
def reach : List String → Namespace → Reached
  | [], .function f => .function f
  | [], .table _ => .table
  | segment :: rest, .table entries =>
    match entries.lookup segment with
    | some n => reach rest n
    | none => .nothing
  | _ :: _, .function _ => .nothing

theorem lookup_cons {α : Type} (key k : String) (v : α) (entries : List (String × α)) :
    ((k, v) :: entries).lookup key = if key = k then some v else entries.lookup key := by
  rw [List.lookup_cons]
  by_cases same : key = k
  · simp [same]
  · simp [same, beq_eq_false_iff_ne.2 same]

theorem lookup_replace (key : String) (n : Namespace) (entries : List (String × Namespace))
    (other : String) : (replace key n entries).lookup other =
      if other = key then some n else entries.lookup other := by
  induction entries with
  | nil => rw [replace, lookup_cons]
  | cons e rest ih =>
    obtain ⟨k, w⟩ := e
    rw [replace]
    by_cases here : k = key
    · rw [if_pos here, lookup_cons, lookup_cons, here]
      split <;> rfl
    · rw [if_neg here, lookup_cons, lookup_cons, ih]
      by_cases same : other = k
      · rw [if_pos same, if_pos same, if_neg (same ▸ here)]
      · rw [if_neg same, if_neg same]

variable {f : HostFunction} {path : List String} {last : String}
  {entries entries' : List (String × Namespace)}

/-- A function that was put at the end of a path is reached there and nothing below it; what is above
it are tables, and all else is as it was. -/
theorem reach_put (h : put f path last entries = some entries') (segments : List String) :
    reach segments (.table entries') =
      if segments = path ++ [last] then .function f
      else if path ++ [last] <+: segments then .nothing
      else if segments <+: path ++ [last] then .table
      else reach segments (.table entries) := by
  induction path generalizing entries entries' segments with
  | nil =>
    cases h
    cases segments with
    | nil => simp [reach]
    | cons s rest =>
      rw [reach, lookup_replace]
      by_cases here : s = last
      · subst here
        cases rest with
        | nil => simp [reach]
        | cons t rest => simp [reach]
      · simp [here, Ne.symm here, reach]
  | cons segment path ih =>
    -- The function goes into what the first segment leads to, or into a new table.
    obtain ⟨inner, inner', before, put_, rfl⟩ : ∃ inner inner', (∀ rest, reach rest (.table inner) =
        if rest = [] then .table else reach (segment :: rest) (.table entries)) ∧
        put f path last inner = some inner' ∧
        entries' = replace segment (.table inner') entries := by
      rw [put] at h
      split at h
      next inner found =>
        obtain ⟨inner', put_, rfl⟩ := Option.map_eq_some_iff.1 h
        refine ⟨inner, inner', fun rest => ?_, put_, rfl⟩
        cases rest with
        | nil => rfl
        | cons s rest => simp [reach, found]
      next absent =>
        obtain ⟨inner', put_, rfl⟩ := Option.map_eq_some_iff.1 h
        refine ⟨[], inner', fun rest => ?_, put_, rfl⟩
        cases rest with
        | nil => rfl
        | cons s rest => simp [reach, absent]
      next => cases h
    cases segments with
    | nil => simp [reach]
    | cons s rest =>
      rw [reach, lookup_replace]
      by_cases here : s = segment
      · subst here
        simp only [if_true, ih put_ rest, before, List.cons_append, List.cons_prefix_cons, true_and,
          List.cons.injEq]
        by_cases none : rest = []
        · simp [none]
        · rw [if_neg none]
      · simp [here, Ne.symm here, reach]

/-- Nothing is put where the path leads through a function. -/
theorem put_eq_none : put f path last entries = none ↔
    ∃ above g, above <+: path ∧ reach above (.table entries) = .function g := by
  induction path generalizing entries with
  | nil => simp [put, reach]
  | cons segment path ih =>
    rw [put]
    split
    next inner found =>
      rw [Option.map_eq_none_iff, ih]
      constructor
      · rintro ⟨above, g, first, leads⟩
        exact ⟨segment :: above, g, List.cons_prefix_cons.2 ⟨rfl, first⟩, by simp [reach, found, leads]⟩
      · rintro ⟨above, g, first, leads⟩
        cases above with
        | nil => cases leads
        | cons s above =>
          obtain ⟨rfl, inner_first⟩ := List.cons_prefix_cons.1 first
          exact ⟨above, g, inner_first, by simpa [reach, found] using leads⟩
    next absent =>
      rw [Option.map_eq_none_iff, ih]
      constructor
      · rintro ⟨above, g, -, leads⟩
        cases above <;> cases leads
      · rintro ⟨above, g, first, leads⟩
        cases above with
        | nil => cases leads
        | cons s above =>
          obtain ⟨rfl, -⟩ := List.cons_prefix_cons.1 first
          simp [reach, absent] at leads
    next g found =>
      simp only [true_iff]
      exact ⟨[segment], g, by simp, by simp [reach, found]⟩

/-- A namespace in which no table has two entries with one name. -/
inductive Distinct : Namespace → Prop where
  | function (f : HostFunction) : Distinct (.function f)
  | table {entries : List (String × Namespace)} (names : (entries.map (·.1)).Nodup)
      (each : ∀ e ∈ entries, Distinct e.2) : Distinct (.table entries)

theorem mem_replace {key : String} {n : Namespace} {e : String × Namespace}
    (there : e ∈ replace key n entries) : e = (key, n) ∨ e ∈ entries := by
  induction entries with
  | nil => exact .inl (List.mem_singleton.1 there)
  | cons e' rest ih =>
    obtain ⟨k, w⟩ := e'
    rw [replace] at there
    split at there
    next here => exact (List.mem_cons.1 there).imp (here ▸ ·) (.tail _)
    next =>
      rcases List.mem_cons.1 there with rfl | there
      · exact .inr (.head _)
      · exact (ih there).imp_right (.tail _)

theorem replace_distinct {key : String} {n : Namespace} (inner : n.Distinct)
    (h : Distinct (.table entries)) : Distinct (.table (replace key n entries)) := by
  obtain _ | ⟨names, each⟩ := h
  constructor
  · induction entries with
    | nil => exact List.nodup_singleton _
    | cons e rest ih =>
      obtain ⟨k, w⟩ := e
      obtain ⟨new, names⟩ := List.nodup_cons.1 names
      rw [replace]
      split
      next here => exact List.nodup_cons.2 ⟨here ▸ new, names⟩
      next apart =>
        refine List.nodup_cons.2 ⟨fun there => ?_, ih names fun e there => each e (.tail _ there)⟩
        obtain ⟨e, there, same⟩ := List.mem_map.1 there
        rcases mem_replace there with rfl | there
        · exact apart same.symm
        · exact new (same ▸ List.mem_map_of_mem there)
  · intro e there
    rcases mem_replace there with rfl | there
    · exact inner
    · exact each e there

theorem lookup_mem {α : Type} {key : String} {v : α} {entries : List (String × α)}
    (found : entries.lookup key = some v) : (key, v) ∈ entries := by
  obtain ⟨before, after, rfl, -⟩ := List.lookup_eq_some_iff.1 found
  exact List.mem_append_right _ (.head _)

theorem nothing_distinct : Distinct (.table []) := .table List.nodup_nil fun _ there => nomatch there

theorem put_distinct (h : Distinct (.table entries)) (done : put f path last entries = some entries') :
    Distinct (.table entries') := by
  induction path generalizing entries entries' with
  | nil =>
    cases done
    exact replace_distinct (.function f) h
  | cons segment path ih =>
    rw [put] at done
    split at done
    next inner found =>
      obtain ⟨inner', put_, rfl⟩ := Option.map_eq_some_iff.1 done
      obtain _ | ⟨names, each⟩ := h
      exact replace_distinct (ih (each _ (lookup_mem found)) put_) (.table names each)
    next =>
      obtain ⟨inner', put_, rfl⟩ := Option.map_eq_some_iff.1 done
      exact replace_distinct (ih nothing_distinct put_) h
    next => cases done

end Namespace

/-! ## Tables of a machine -/

/-- What following the fields that a path names reaches from a value. -/
def Lua.Machine.reach (m : Machine) : List String → Value → Value
  | [], v => v
  | segment :: rest, .table r => m.reach rest ((m.tables.getD r {}).field segment)
  | _ :: _, _ => .nil

/-- Whether a value is what a path reaches. -/
def Reached.Is : Reached → Value → Prop
  | .nothing, v => v = .nil
  | .table, v => ∃ r, v = .table r
  | .function f, v => v = .function (.host f)

theorem Reached.Is.function_iff {x : Reached} {v : Value} (h : x.Is v) (g : Function) :
    v = .function g ↔ ∃ f, g = .host f ∧ x = .function f := by
  cases x with
  | nothing =>
    obtain rfl := h
    simp
  | table =>
    obtain ⟨r, rfl⟩ := h
    simp
  | function f =>
    obtain rfl := h
    simp [eq_comm]

theorem Reached.Is.table_iff {x : Reached} {v : Value} (h : x.Is v) :
    (∃ r, v = .table r) ↔ x = .table := by
  cases x with
  | nothing =>
    obtain rfl := h
    simp
  | table => exact ⟨fun _ => rfl, fun _ => h⟩
  | function f =>
    obtain rfl := h
    simp

namespace Namespace

section Values

/-- What a computation made at the end of the tables of a machine; `r` is a table that it changed. -/
structure Makes (r : Option TableRef) (m m' : Machine) : Prop where
  room : m.tables.size ≤ m'.tables.size
  others : ∀ q < m.tables.size, some q ≠ r → m'.tables.getD q {} = m.tables.getD q {}

mutual

/-- A namespace becomes a value from which paths reach what they reach in the namespace, as long as
the tables that were made for it stay. -/
theorem toValue_reaches (ε : Type) {n : Namespace} (distinct : n.Distinct) (m : Machine) :
    ∃ v m', (toValue n : Run ε Value) m = .done v m' ∧ Makes none m m' ∧
      ∀ m'' : Machine, (∀ q, m.tables.size ≤ q → q < m'.tables.size →
        m''.tables.getD q {} = m'.tables.getD q {}) →
        ∀ segments, (n.reach segments).Is (m''.reach segments v) := by
  cases n with
  | function f =>
    refine ⟨_, m, rfl, ⟨Nat.le_refl _, fun _ _ _ => rfl⟩, fun m'' _ segments => ?_⟩
    cases segments <;> rfl
  | table entries =>
    obtain _ | ⟨names, each⟩ := distinct
    let pushed : Machine := { m with tables := m.tables.push {} }
    obtain ⟨m', filled, makes, reaches⟩ :=
      fill_reaches ε (r := m.tables.size) names each pushed (by simp [pushed])
    have room : m.tables.size < m'.tables.size := by simpa [pushed] using makes.room
    refine ⟨.table m.tables.size, m', ?_, ⟨Nat.le_of_lt room, fun q low _ => ?_⟩,
      fun m'' same segments => ?_⟩
    · rw [toValue]
      exact bind_done.2 ⟨_, pushed, rfl, bind_done.2 ⟨(), m', filled, rfl⟩⟩
    · rw [makes.others q (by simp [pushed]; omega) (fun same => by cases same; omega)]
      exact getD_push_other _ _ (Nat.ne_of_lt low) _
    · cases segments with
      | nil => exact ⟨_, rfl⟩
      | cons segment rest =>
        have reached := reaches m'' (fun q here most => same q (by
          rcases here with rfl | here
          · exact Nat.le_refl _
          · simp [pushed] at here; omega) most) segment rest
        rw [reach, Machine.reach]
        cases found : entries.lookup segment with
        | some n =>
          simp only [found] at reached ⊢
          exact reached
        | none =>
          simp only [found] at reached ⊢
          rw [reached, getD_push_same]
          cases rest <;> rfl

/-- A table is filled with entries: their names are its fields, from which paths go on as they do
from the entries. -/
theorem fill_reaches (ε : Type) {r : TableRef} {entries : List (String × Namespace)}
    (names : (entries.map (·.1)).Nodup) (each : ∀ e ∈ entries, e.2.Distinct) (m : Machine)
    (placed : r < m.tables.size) :
    ∃ m', (fill r entries : Run ε Unit) m = .done () m' ∧ Makes (some r) m m' ∧
      ∀ m'' : Machine, (∀ q, q = r ∨ m.tables.size ≤ q → q < m'.tables.size →
        m''.tables.getD q {} = m'.tables.getD q {}) →
        ∀ segment rest, match entries.lookup segment with
          | some n => (n.reach rest).Is (m''.reach rest ((m''.tables.getD r {}).field segment))
          | none => (m''.tables.getD r {}).field segment = (m.tables.getD r {}).field segment := by
  cases entries with
  | nil =>
    refine ⟨m, rfl, ⟨Nat.le_refl _, fun _ _ _ => rfl⟩, fun m'' same segment rest => ?_⟩
    exact congrArg (Table.field · segment) (same r (.inl rfl) placed)
  | cons e entries =>
    obtain ⟨k, n⟩ := e
    obtain ⟨new, names⟩ := List.nodup_cons.1 names
    obtain ⟨v, m₁, made, makes, reaches⟩ := toValue_reaches ε (each _ (.head _)) m
    have placed₁ : r < m₁.tables.size := Nat.lt_of_lt_of_le placed makes.room
    let given : Machine := { m₁ with tables := changeAt m₁.tables r fun t => t.setField k v }
    have size : given.tables.size = m₁.tables.size := changeAt_size ..
    obtain ⟨m', filled, makes', reaches'⟩ := fill_reaches ε (r := r) names
      (fun e there => each e (.tail _ there)) given (by rwa [size])
    have own : given.tables.getD r {} = (m.tables.getD r {}).setField k v := by
      rw [getD_changeAt_same _ _ placed₁, makes.others r placed nofun]
    have kept (q : Nat) (there : q < m₁.tables.size) (apart : q ≠ r) :
        m'.tables.getD q {} = m₁.tables.getD q {} := by
      rw [makes'.others q (size ▸ there) (fun same => apart (Option.some.inj same)),
        getD_changeAt_other _ _ (Ne.symm apart)]
    refine ⟨m', ?_, ⟨Nat.le_trans makes.room (size ▸ makes'.room), fun q there apart => ?_⟩,
      fun m'' same segment rest => ?_⟩
    · rw [fill]
      exact bind_done.2 ⟨v, m₁, made, bind_done.2 ⟨(), given, rfl, filled⟩⟩
    · rw [kept q (Nat.lt_of_lt_of_le there makes.room) (fun is_ => apart (is_ ▸ rfl)),
        makes.others q there nofun]
    · have later := reaches' m'' (fun q here most => same q (here.imp_right fun least =>
        Nat.le_trans makes.room (size ▸ least)) most) segment rest
      rw [lookup_cons]
      cases found : entries.lookup segment with
      | some n' =>
        have apart : segment ≠ k := by
          rintro rfl
          exact new (List.mem_map.2 ⟨_, lookup_mem found, rfl⟩)
        simp only [found, if_neg apart] at later ⊢
        exact later
      | none =>
        simp only [found, own] at later
        by_cases here : segment = k
        · subst here
          rw [later, Table.field_setField_same, if_pos rfl]
          refine reaches m'' (fun q least most => ?_) rest
          have apart : q ≠ r := Nat.ne_of_gt (Nat.lt_of_lt_of_le placed least)
          rw [same q (.inr least) (Nat.lt_of_lt_of_le most (size ▸ makes'.room)), kept q most apart]
        · rw [later, Table.field_setField_other _ _ here, if_neg here]

end

end Values

end Namespace

/-! ## Registered names -/

namespace Registry

/-- The registry in which functions were registered one after the other. -/
def ofList (registered : List (String × HostFunction)) : Registry :=
  registered.foldl (fun r (name, f) => r.register name f) {}

/-- The function that is registered under a name. -/
def get? (r : Registry) (name : String) : Option HostFunction := r.entries.lookup name

/-- Entries in the order of their names, each of which occurs once. -/
def Sorted (entries : List (String × HostFunction)) : Prop :=
  entries.Pairwise fun a b => before a.1 b.1 = true

theorem before_total {a b : String} (apart : a ≠ b) (not : ¬before a b = true) :
    before b a = true := by
  rcases Bytes.lt_total (Bytes.ofString a) (Bytes.ofString b) with low | same | high
  · exact absurd low not
  · exact absurd (Bytes.ofString_injective same) apart
  · exact high

theorem mem_insert {name : String} {f : HostFunction} {entries : List (String × HostFunction)}
    {e : String × HostFunction} (there : e ∈ insert name f entries) :
    e = (name, f) ∨ e ∈ entries := by
  induction entries with
  | nil => exact .inl (List.mem_singleton.1 there)
  | cons e' rest ih =>
    rw [insert] at there
    split at there
    · exact (List.mem_cons.1 there).imp_right (.tail _)
    · split at there
      · exact List.mem_cons.1 there
      · rcases List.mem_cons.1 there with rfl | there
        · exact .inr (.head _)
        · exact (ih there).imp_right (.tail _)

theorem Sorted.insert {entries : List (String × HostFunction)} (sorted : Sorted entries)
    (name : String) (f : HostFunction) : Sorted (insert name f entries) := by
  induction entries with
  | nil => exact List.pairwise_singleton _ _
  | cons e rest ih =>
    obtain ⟨k, g⟩ := e
    obtain ⟨first, others⟩ := List.pairwise_cons.1 sorted
    rw [Registry.insert]
    split
    next same => exact List.pairwise_cons.2 ⟨same ▸ first, others⟩
    next apart =>
      split
      next low =>
        refine List.pairwise_cons.2 ⟨fun e there => ?_, sorted⟩
        rcases List.mem_cons.1 there with rfl | there
        · exact low
        · exact Bytes.lt_trans low (first e there)
      next high =>
        refine List.pairwise_cons.2 ⟨fun e there => ?_, ih others⟩
        rcases mem_insert there with rfl | there
        · exact before_total (Ne.symm apart) high
        · exact first e there

theorem lookup_insert (name : String) (f : HostFunction) (entries : List (String × HostFunction))
    (other : String) : (insert name f entries).lookup other =
      if other = name then some f else entries.lookup other := by
  induction entries with
  | nil => rw [insert, Namespace.lookup_cons]
  | cons e rest ih =>
    obtain ⟨k, g⟩ := e
    rw [insert]
    split
    next same =>
      rw [Namespace.lookup_cons, Namespace.lookup_cons, same]
      split <;> rfl
    next apart =>
      split
      · rw [Namespace.lookup_cons]
      · rw [Namespace.lookup_cons, Namespace.lookup_cons, ih]
        by_cases same : other = k
        · rw [if_pos same, if_pos same, if_neg (same ▸ apart)]
        · rw [if_neg same, if_neg same]

theorem ofList_concat (registered : List (String × HostFunction)) (name : String)
    (f : HostFunction) :
    ofList (registered ++ [(name, f)]) = (ofList registered).register name f := by
  rw [ofList, List.foldl_append]
  rfl

theorem ofList_sorted (registered : List (String × HostFunction)) :
    Sorted (ofList registered).entries := by
  induction registered using List.reverseRecOn with
  | nil => exact .nil
  | append_singleton registered e ih =>
    rw [ofList_concat]
    exact ih.insert _ _

/-- A name has the function that was registered under it last. -/
theorem get?_ofList (registered : List (String × HostFunction)) (name : String) :
    (ofList registered).get? name = registered.reverse.lookup name := by
  induction registered using List.reverseRecOn with
  | nil => rfl
  | append_singleton registered e ih =>
    obtain ⟨k, f⟩ := e
    rw [ofList_concat, List.reverse_concat, Namespace.lookup_cons, ← ih]
    exact lookup_insert _ _ _ _

/-! ## Installing -/

/-- Entries that lead where names lead: to the functions that were put there, and by tables to what
is above them. -/
structure Leads (entries : List (String × HostFunction)) (n : Namespace) : Prop where
  function : ∀ path f, n.reach (Text.split '.' path) = .function f ↔ (path, f) ∈ entries
  table : ∀ path, n.reach (Text.split '.' path) = .table ↔ ∃ e ∈ entries, Above path e.1

theorem not_before {a b : String} (h : before a b = true) (h' : before b a = true) : False := by
  have circle := Bytes.lt_trans h h'
  rw [Bytes.lt_irrefl] at circle
  cases circle

theorem Above.split {a b : String} (h : Above a b) :
    Text.split '.' a <+: Text.split '.' b ∧ Text.split '.' a ≠ Text.split '.' b := by
  refine ⟨Text.split_begins.2 (.inr h), fun same => ?_⟩
  obtain rfl := Text.split_inj.1 same
  exact not_before h.before h.before

theorem above_iff {a b : String} :
    Above a b ↔ Text.split '.' a <+: Text.split '.' b ∧ Text.split '.' a ≠ Text.split '.' b := by
  refine ⟨Above.split, fun ⟨first, apart⟩ => ?_⟩
  rcases Text.split_begins.1 first with rfl | above
  · exact absurd rfl apart
  · exact above

/-- The segments of a name. -/
theorem split_concat (name : String) : (Text.split '.' name).dropLast
    ++ [(Text.split '.' name).getLastD ""] = Text.split '.' name := by
  have pieces : Text.split '.' name ≠ [] := by
    rw [Execution.split_eq]
    nofun
  rw [List.getLastD_eq_getLast?, List.getLast?_eq_some_getLast pieces, Option.getD_some,
    List.dropLast_append_getLast]

/-- Installing one more function, whose name comes after those of all others: it fails when one of
them is above it, and otherwise leads where names lead. -/
theorem Leads.next {entries : List (String × HostFunction)} {tree : List (String × Namespace)}
    (h : Leads entries (.table tree)) {name : String} {f : HostFunction}
    (later : ∀ e ∈ entries, before e.1 name = true) :
    match Namespace.put f (Text.split '.' name).dropLast ((Text.split '.' name).getLastD "") tree with
    | some tree' => Leads (entries ++ [(name, f)]) (.table tree')
    | none => ∃ e ∈ entries, Above e.1 name := by
  have own (e : String × HostFunction) (there : e ∈ entries) : ¬Above name e.1 :=
    fun above => not_before above.before (later e there)
  have new (e : String × HostFunction) (there : e ∈ entries) : e.1 ≠ name := by
    rintro rfl
    exact not_before (later e there) (later e there)
  cases put_ : Namespace.put f (Text.split '.' name).dropLast ((Text.split '.' name).getLastD "") tree
    with
  | none =>
    obtain ⟨segments, g, first, leads⟩ := Namespace.put_eq_none.1 put_
    have some_ : segments ≠ [] := by
      rintro rfl
      cases leads
    have within := first.trans <| List.dropLast_prefix _
    obtain ⟨path, rfl⟩ := Text.split_first some_ within
    refine ⟨_, (h.function path g).1 leads, above_iff.2 ⟨within, fun same => ?_⟩⟩
    have shorter := first.length_le
    rw [same, List.length_dropLast] at shorter
    have := List.length_pos_of_ne_nil some_
    rw [same] at this
    omega
  | some tree' =>
    have free (e : String × HostFunction) (there : e ∈ entries) : ¬Above e.1 name := by
      intro above
      obtain ⟨first, apart⟩ := above.split
      rw [← split_concat name] at first apart
      have refused : Namespace.put f (Text.split '.' name).dropLast
          ((Text.split '.' name).getLastD "") tree = none :=
        Namespace.put_eq_none.2
          ⟨_, _, (List.prefix_concat_iff.1 first).resolve_left apart, (h.function e.1 e.2).2 there⟩
      rw [refused] at put_
      cases put_
    have reached (path : String) := Namespace.reach_put put_ (Text.split '.' path)
    simp only [split_concat] at reached
    constructor
    · intro path g
      rw [reached, List.mem_append, List.mem_singleton, Prod.mk.injEq]
      split
      next same =>
        obtain rfl := Text.split_inj.1 same
        have absent : (path, g) ∉ entries := fun there => new _ there rfl
        simp [absent, eq_comm]
      next apart =>
        rw [Text.split_inj] at apart
        have only : (path, g) ∈ entries ∨ path = name ∧ g = f ↔ (path, g) ∈ entries := by
          simp [apart]
        rw [only]
        split
        next below =>
          have absent : (path, g) ∉ entries :=
            fun there => own _ there ((Text.split_begins.1 below).resolve_left apart)
          simp [absent]
        next =>
          split
          next above =>
            have absent : (path, g) ∉ entries :=
              fun there => free _ there ((Text.split_begins.1 above).resolve_left (Ne.symm apart))
            simp [absent]
          next => exact h.function path g
    · intro path
      have members : (∃ e ∈ entries ++ [(name, f)], Above path e.1) ↔
          (∃ e ∈ entries, Above path e.1) ∨ Above path name := by
        simp [or_and_right, exists_or]
      rw [reached, members]
      split
      next same =>
        obtain rfl := Text.split_inj.1 same
        have alone : ¬Above path path := fun above => above.split.2 rfl
        simp only [reduceCtorEq, alone, or_false, false_iff, not_exists, not_and]
        exact own
      next apart =>
        rw [Text.split_inj] at apart
        split
        next below =>
          have below := (Text.split_begins.1 below).resolve_left apart
          simp only [reduceCtorEq, false_iff, not_or, not_exists, not_and]
          exact ⟨fun e there above => not_before (Bytes.lt_trans below.before above.before)
            (later e there), fun above => not_before below.before above.before⟩
        next =>
          split
          next above =>
            have above := (Text.split_begins.1 above).resolve_left (Ne.symm apart)
            simp only [above, or_true]
          next aside =>
            have aside : ¬Above path name := fun above => aside (Text.split_begins.2 (.inr above))
            rw [h.table, or_iff_left aside]

/-- Installing functions after others, in the order of all their names: it gives entries that lead
where all names lead, or fails for a name that another one is above. -/
theorem installFrom_leads {entries : List (String × HostFunction)}
    {tree : List (String × Namespace)} (h : Leads entries (.table tree))
    {more : List (String × HostFunction)} (sorted : Sorted (entries ++ more)) :
    match installFrom tree more with
    | .ok tree' => Leads (entries ++ more) (.table tree')
    | .error e => ∃ a ∈ entries ++ more, ∃ b ∈ entries ++ more, Above a.1 b.1 ∧ b.1 = e.name := by
  induction more generalizing entries tree with
  | nil =>
    rw [installFrom, List.append_nil]
    exact h
  | cons e more ih =>
    obtain ⟨name, f⟩ := e
    have last : ∀ e ∈ entries, before e.1 name = true := fun e there =>
      (List.pairwise_append.1 sorted).2.2 e there (name, f) (.head _)
    have next := h.next (f := f) last
    rw [installFrom]
    cases put_ : Namespace.put f (Text.split '.' name).dropLast
        ((Text.split '.' name).getLastD "") tree with
    | some tree' =>
      simp only [put_] at next ⊢
      rw [List.append_cons] at sorted ⊢
      exact ih next sorted
    | none =>
      simp only [put_] at next ⊢
      obtain ⟨e, there, above⟩ := next
      exact ⟨e, List.mem_append_left _ there, (name, f), List.mem_append_right _ (.head _), above, rfl⟩

theorem leads_nothing : Leads [] (.table []) := by
  constructor
  · intro path f
    rw [Execution.split_eq]
    simp [Namespace.reach]
  · intro path
    rw [Execution.split_eq]
    simp [Namespace.reach]

/-- Installing succeeds exactly when no registered name is above another one, and what is installed
then leads where the names lead. -/
theorem install_leads (r : Registry) (sorted : Sorted r.entries) :
    ((∃ tree, r.install = .ok tree) ↔ ∀ a ∈ r.names, ∀ b ∈ r.names, ¬Above a b) ∧
      ∀ tree, r.install = .ok tree → Leads r.entries (.table tree) := by
  have installed := installFrom_leads leads_nothing ((List.nil_append r.entries).symm ▸ sorted)
  rw [List.nil_append] at installed
  rw [install]
  cases is_ : installFrom [] r.entries with
  | ok tree =>
    rw [is_] at installed
    have apart : ∀ a ∈ r.names, ∀ b ∈ r.names, ¬Above a b := by
      intro a a_named b b_named above
      obtain ⟨⟨a, f⟩, registered, rfl⟩ := List.mem_map.1 a_named
      obtain ⟨e, registered', rfl⟩ := List.mem_map.1 b_named
      have reached := (installed.table a).2 ⟨e, registered', above⟩
      rw [(installed.function a f).2 registered] at reached
      cases reached
    refine ⟨⟨fun _ => apart, fun _ => ⟨_, rfl⟩⟩, fun tree' same => ?_⟩
    cases same
    exact installed
  | error e =>
    rw [is_] at installed
    obtain ⟨a, there, b, there', above, -⟩ := installed
    refine ⟨⟨fun ok => ?_, fun apart => ?_⟩, fun tree' same => ?_⟩
    · obtain ⟨_, same⟩ := ok
      cases same
    · exact absurd above (apart _ (List.mem_map_of_mem there) _ (List.mem_map_of_mem there'))
    · cases same

/-- A path is contained when it is registered or above a registered name. -/
theorem contains_iff {r : Registry} {path : String} (some_ : path ≠ "") :
    r.contains path = true ↔ path ∈ r.names ∨ ∃ name ∈ r.names, Above path name := by
  have starts (name : String) : name.startsWith (path ++ ".") = true ↔ Above path name := by
    rw [String.startsWith_string_iff, Above]
    constructor
    · rintro ⟨rest, spelled⟩
      refine ⟨String.ofList rest, String.toList_injective ?_⟩
      rw [String.toList_append, String.toList_ofList, spelled]
    · rintro ⟨rest, rfl⟩
      exact ⟨rest.toList, (String.toList_append ..).symm⟩
  have some_' : path.isEmpty = false := by simp [some_]
  simp only [contains, some_', Bool.not_false, Bool.true_and, List.any_eq_true, Bool.or_eq_true,
    beq_iff_eq, starts]
  constructor
  · rintro ⟨name, there, rfl | above⟩
    · exact .inl there
    · exact .inr ⟨name, there, above⟩
  · rintro (there | ⟨name, there, above⟩)
    · exact ⟨path, there, .inl rfl⟩
    · exact ⟨name, there, .inr above⟩

theorem install_distinct {r : Registry} {tree : List (String × Namespace)}
    (installed : r.install = .ok tree) : Namespace.Distinct (.table tree) := by
  have kept {more : List (String × HostFunction)} {tree tree' : List (String × Namespace)}
      (h : Namespace.Distinct (.table tree)) (done : installFrom tree more = .ok tree') :
      Namespace.Distinct (.table tree') := by
    induction more generalizing tree with
    | nil =>
      cases done
      exact h
    | cons e more ih =>
      rw [installFrom] at done
      split at done
      next put_ => exact ih (Namespace.put_distinct h put_) done
      next => cases done
  exact kept Namespace.nothing_distinct installed

theorem mem_keys {name : String} {entries : List (String × HostFunction)} :
    name ∈ entries.map (·.1) ↔ ∃ f, entries.lookup name = some f := by
  constructor
  · intro there
    obtain ⟨e, entry, rfl⟩ := List.mem_map.1 there
    refine Option.ne_none_iff_exists'.1 fun none => ?_
    simpa using List.lookup_eq_none_iff.1 none e entry
  · rintro ⟨f, found⟩
    exact List.mem_map.2 ⟨_, Namespace.lookup_mem found, rfl⟩

theorem Sorted.mem_iff {entries : List (String × HostFunction)} (sorted : Sorted entries)
    {e : String × HostFunction} : e ∈ entries ↔ entries.lookup e.1 = some e.2 := by
  refine ⟨fun there => ?_, Namespace.lookup_mem⟩
  induction entries with
  | nil => cases there
  | cons e' rest ih =>
    obtain ⟨first, others⟩ := List.pairwise_cons.1 sorted
    rw [Namespace.lookup_cons]
    rcases List.mem_cons.1 there with rfl | there
    · exact if_pos rfl
    · rw [if_neg, ih others there]
      intro same
      exact not_before (same ▸ first e there) (same ▸ first e there)

/-- Functions that are registered one after the other, under whatever names. Installing them succeeds
exactly when no name is above another one. The segments of a path then lead from the table that was
made of them to a function exactly when the path is a name, to the function registered under it last,
and to a table exactly when the path is above a name. A path is contained in these two cases only. -/
theorem install_agrees (registered : List (String × HostFunction)) :
    ((∃ tree, (ofList registered).install = .ok tree) ↔
      ∀ a ∈ registered, ∀ b ∈ registered, ¬Above a.1 b.1) ∧
    (∀ tree, (ofList registered).install = .ok tree → ∀ (ε : Type) (m : Machine),
      ∃ t m', ((Namespace.table tree).toValue : Run ε Value) m = .done (.table t) m' ∧
        ∀ path, (∀ g, m'.reach (Text.split '.' path) (.table t) = .function g ↔
            ∃ f, g = .host f ∧ registered.reverse.lookup path = some f) ∧
          ((∃ inner, m'.reach (Text.split '.' path) (.table t) = .table inner) ↔
            ∃ e ∈ registered, Above path e.1)) ∧
    ∀ path, path ≠ "" → ((ofList registered).contains path = true ↔
      path ∈ registered.map (·.1) ∨ ∃ e ∈ registered, Above path e.1) := by
  have named (name : String) : name ∈ (ofList registered).names ↔ name ∈ registered.map (·.1) := by
    have last : name ∈ registered.reverse.map (·.1) ↔ _ := mem_keys
    rw [List.map_reverse, List.mem_reverse] at last
    rw [names, mem_keys, last, ← get?_ofList, get?]
  have above (path : String) : (∃ name ∈ (ofList registered).names, Above path name) ↔
      ∃ e ∈ registered, Above path e.1 := by
    simp [named]
  obtain ⟨succeeds, leads⟩ := install_leads (ofList registered) (ofList_sorted registered)
  refine ⟨succeeds.trans ?_, fun tree installed ε m => ?_, fun path some_ => ?_⟩
  · simp only [named, List.forall_mem_map]
  · have leads := leads tree installed
    obtain ⟨v, m', made, -, reaches⟩ := Namespace.toValue_reaches ε (install_distinct installed) m
    have reaches := reaches m' fun _ _ _ => rfl
    obtain ⟨t, rfl⟩ : ∃ t, v = .table t := reaches []
    refine ⟨t, m', made, fun path => ⟨fun g => ?_, ?_⟩⟩
    · rw [(reaches _).function_iff]
      refine exists_congr fun f => and_congr_right fun _ => ?_
      rw [leads.function, (ofList_sorted registered).mem_iff, ← get?_ofList, get?]
    · rw [(reaches _).table_iff, leads.table, ← above, names]
      simp
  · rw [contains_iff some_, named, above]

/-- Three functions, two of which share a table. -/
def files : List (String × HostFunction) :=
  [("fs.write", .fsWrite), ("sleep", .sleep), ("fs.read", .fsRead)]

theorem files_install : (ofList files).install = .ok
    [("fs", .table [("read", .function .fsRead), ("write", .function .fsWrite)]),
      ("sleep", .function .sleep)] := by
  rfl

theorem install_agrees_files : ∃ t m', ((Namespace.table
      [("fs", .table [("read", .function .fsRead), ("write", .function .fsWrite)]),
        ("sleep", .function .sleep)]).toValue : Run Unit Value) {} = .done (.table t) m' ∧
    m'.reach ["fs", "write"] (.table t) = .function (.host .fsWrite) ∧
    (∃ inner, m'.reach ["fs"] (.table t) = .table inner) ∧ (ofList files).contains "fs" = true := by
  obtain ⟨-, made, contained⟩ := install_agrees files
  obtain ⟨t, m', made, reaches⟩ := made _ files_install Unit {}
  have above : ∃ e ∈ files, Above "fs" e.1 := ⟨_, .head _, "write", rfl⟩
  refine ⟨t, m', made, ((reaches "fs.write").1 _).2 ⟨.fsWrite, rfl, ?_⟩, (reaches "fs").2.2 above,
    (contained "fs" (by decide)).2 (.inr above)⟩
  decide

end Registry

end Tasklang
