import Tasklang.Proofs.Emitted
import Tasklang.Proofs.Layouts
import Tasklang.Proofs.Sources

/-! # Literals and their constants

A literal that is known has a value in two ways: the interpreter builds it part by part, and the
folder makes it of the constant at once. The tables that are built part by part grow as they are
filled, so that they are laid out in other ways, but they hold the same data: where no sequence has
a null, both come to the same.
-/

namespace Tasklang

/-- Whether a sequence has no null among its items. -/
def Json.Seamless : Json → Prop
  | .arr items => .null ∉ items
  | _ => True

namespace Literal

mutual

/-- Whether no mapping of a literal has a key twice. -/
def Keyed : Literal → Prop
  | .seq items => KeyedItems items
  | .map entries => (entries.map (·.1)).Nodup ∧ KeyedEntries entries
  | _ => True

def KeyedItems : List Literal → Prop
  | [] => True
  | l :: ls => l.Keyed ∧ KeyedItems ls

def KeyedEntries : List (String × Literal) → Prop
  | [] => True
  | e :: es => e.2.Keyed ∧ KeyedEntries es

end

theorem constants_length {ls : List Literal} {js : List Json} (known : constants ls = some js) :
    ls.length = js.length := by
  induction ls generalizing js with
  | nil =>
    cases known
    rfl
  | cons l ls ih =>
    obtain ⟨v, vs, -, others, rfl⟩ := constants_cons.1 known
    exact congrArg Nat.succ (ih others)

theorem constantEntries_keys {es : List (String × Literal)} {js : List (String × Json)}
    (known : constantEntries es = some js) : es.map (·.1) = js.map (·.1) := by
  induction es generalizing js with
  | nil =>
    cases known
    rfl
  | cons e es ih =>
    obtain ⟨k, l⟩ := e
    obtain ⟨v, vs, -, others, rfl⟩ := constantEntries_cons.1 known
    exact congrArg (k :: ·) (ih others)

end Literal

namespace Compile

variable {bindings : Bindings}

theorem EntriesMadeOf.keys {entries : List (String × Json)} {es : List (String × Literal)}
    (h : EntriesMadeOf bindings entries es) : es.map (·.1) = entries.map (·.1) := by
  match h with
  | .nil => rfl
  | .cons _ others => exact congrArg (_ :: ·) others.keys

mutual

/-- No key comes twice when a literal is made of data where none does. -/
theorem MadeOf.keyed {j : Json} {l : Literal} (h : MadeOf bindings j l)
    (keyed : j.Every Json.Keyed) : l.Keyed := by
  cases h with
  | atom | value | expr => trivial
  | text =>
    unfold Folder.literalOf
    split <;> trivial
  | seq made => exact made.keyed keyed.2
  | map made => exact ⟨made.keys ▸ keyed.1, made.keyed keyed.2⟩

theorem AllMadeOf.keyed {items : List Json} {ls : List Literal} (h : AllMadeOf bindings items ls)
    (keyed : Json.EveryItem Json.Keyed items) : Literal.KeyedItems ls := by
  cases h with
  | nil => trivial
  | cons first others => exact ⟨first.keyed keyed.1, others.keyed keyed.2⟩

theorem EntriesMadeOf.keyed {entries : List (String × Json)} {es : List (String × Literal)}
    (h : EntriesMadeOf bindings entries es) (keyed : Json.EveryEntry Json.Keyed entries) :
    Literal.KeyedEntries es := by
  cases h with
  | nil => trivial
  | cons first others => exact ⟨first.keyed keyed.1, others.keyed keyed.2⟩

end

end Compile

/-! ## Values that are built -/

namespace Lua

mutual

/-- Whether a value is what a known literal is built to, with its tables from a place on. -/
def Machine.Builds (m : Machine) (low : TableRef) (v : Value) : Literal → Prop
  | .const j => m.Holds low v j
  | .seq ls => ∃ r vs, v = .table r ∧ low ≤ r ∧ r < m.tables.size ∧ (m.tables.getD r {}).Tidy ∧
      (m.tables.getD r {}).Spans vs ∧ Machine.BuildsItems m (r + 1) vs ls
  | .map es => ∃ r fields, v = .table r ∧ low ≤ r ∧ r < m.tables.size ∧
      (m.tables.getD r {}).Record (Table.kept fields) ∧ Machine.BuildsEntries m (r + 1) fields es
  | _ => False

/-- Whether values are what known literals are built to. -/
def Machine.BuildsItems (m : Machine) (low : TableRef) (vs : List Value) : List Literal → Prop
  | [] => vs = []
  | l :: ls => ∃ v rest, vs = v :: rest ∧ Machine.Builds m low v l ∧
      Machine.BuildsItems m low rest ls

/-- Whether fields have the keys of entries, and values that these are built to. -/
def Machine.BuildsEntries (m : Machine) (low : TableRef) (fields : List (String × Value)) :
    List (String × Literal) → Prop
  | [] => fields = []
  | (k, l) :: es => ∃ v rest, fields = (k, v) :: rest ∧ Machine.Builds m low v l ∧
      Machine.BuildsEntries m low rest es

end

section Kept

variable {m m' : Machine} {r : TableRef}

mutual

theorem Machine.Builds.kept {low low' : TableRef} {v : Value} {l : Literal} (h : m.Builds low v l)
    (below : low' ≤ low) (above : r < low) (spared : m.Spared r m') : m'.Builds low' v l := by
  cases l with
  | const j => exact Machine.Holds.kept h below above spared
  | seq ls =>
    obtain ⟨q, vs, rfl, least, most, tidy, spans, inside⟩ := h
    have same := spared.old q most (Nat.ne_of_gt (Nat.lt_of_lt_of_le above least))
    exact ⟨q, vs, rfl, Nat.le_trans below least, Nat.lt_of_lt_of_le most spared.room,
      same ▸ tidy, same ▸ spans,
      inside.kept (Nat.lt_succ_of_lt (Nat.lt_of_lt_of_le above least)) spared⟩
  | map es =>
    obtain ⟨q, fields, rfl, least, most, record, inside⟩ := h
    have same := spared.old q most (Nat.ne_of_gt (Nat.lt_of_lt_of_le above least))
    exact ⟨q, fields, rfl, Nat.le_trans below least, Nat.lt_of_lt_of_le most spared.room,
      same ▸ record, inside.kept (Nat.lt_succ_of_lt (Nat.lt_of_lt_of_le above least)) spared⟩
  | _ => exact h.elim

theorem Machine.BuildsItems.kept {low : TableRef} {ls : List Literal} {vs : List Value}
    (h : m.BuildsItems low vs ls) (above : r < low) (spared : m.Spared r m') :
    m'.BuildsItems low vs ls := by
  cases ls with
  | nil => exact h
  | cons l ls =>
    obtain ⟨v, rest, rfl, first, others⟩ := h
    exact ⟨v, rest, rfl, first.kept (Nat.le_refl _) above spared, others.kept above spared⟩

theorem Machine.BuildsEntries.kept {low : TableRef} {es : List (String × Literal)}
    {fields : List (String × Value)} (h : m.BuildsEntries low fields es) (above : r < low)
    (spared : m.Spared r m') : m'.BuildsEntries low fields es := by
  match es with
  | [] => exact h
  | (k, l) :: es =>
    obtain ⟨v, rest, rfl, first, others⟩ := h
    exact ⟨v, rest, rfl, first.kept (Nat.le_refl _) above spared, others.kept above spared⟩

end

end Kept

/-- A value that was built is stored in a table that is filled. -/
theorem Machine.Retains.stored {m m' : Machine} {r : TableRef} {v : Value} {l : Literal}
    (retains : m.Retains m') (builds : m'.Builds m.tables.size v l) (placed : r < m.tables.size)
    (f : Table → Table) : ∃ m'', m'' = { m' with tables := changeAt m'.tables r f } ∧
      m.Spared r m'' ∧ r < m''.tables.size ∧
      m''.tables.getD r {} = f (m.tables.getD r {}) ∧ m''.Builds (r + 1) v l := by
  have placed' := Nat.lt_of_lt_of_le placed retains.room
  refine ⟨_, rfl, (retains.spared r).trans (m'.spared_changed r f), by rwa [changeAt_size], ?_,
    builds.kept placed placed (m'.spared_changed r f)⟩
  rw [getD_changeAt_same _ _ placed', retains.old r placed]

end Lua

namespace Execution

open Lua

section Building

variable (s : Scope)

mutual

/-- The interpreter builds the value of a known literal. -/
theorem literalValue_builds {l : Literal} {j : Json} (known : l.constant = some j)
    (constant : j.Every Json.Constant) (keyed : l.Keyed) (m : Machine) :
    ∃ v m', literalValue s l m = .done v m' ∧ m.Retains m' ∧ m'.Builds m.tables.size v l := by
  cases l with
  | const j =>
    cases known
    obtain ⟨v, m', made, retains, holds⟩ := makes_make (ε := RuntimeError) constant m
    exact ⟨v, m', made, retains, holds⟩
  | deferred | expr => cases known
  | seq ls =>
    obtain ⟨js, parts, rfl⟩ := Option.map_eq_some_iff.1 known
    obtain ⟨vs, m', filled, spared, placed, tidy, spans, inside⟩ := fillSequence_builds parts
      constant.2 keyed { m with tables := m.tables.push {} } [] (r := m.tables.size) (by simp)
      (by rw [getD_push_same]; exact Table.tidy_empty)
      (by rw [getD_push_same]; exact Table.spans_empty)
      (by rw [List.length_nil, Nat.zero_add, Literal.constants_length parts]; exact constant.1)
    exact ⟨.table m.tables.size, m', literalValue_seq filled, spared.pushed, _, vs, rfl,
      Nat.le_refl _, placed, tidy, spans, inside⟩
  | map es =>
    obtain ⟨js, parts, rfl⟩ := Option.map_eq_some_iff.1 known
    rw [Bindings.ofList_unique (Literal.constantEntries_keys parts ▸ keyed.1)] at constant
    obtain ⟨fields, m', filled, spared, placed, record, inside⟩ := fillMapping_builds parts
      constant.2 keyed.2 { m with tables := m.tables.push {} } [] (r := m.tables.size) (by simp)
      (by rw [getD_push_same]; exact ⟨rfl, rfl, rfl, nofun⟩) keyed.1
    exact ⟨.table m.tables.size, m', literalValue_map filled, spared.pushed, _, fields, rfl,
      Nat.le_refl _, placed, record, inside⟩

theorem fillSequence_builds {ls : List Literal} {js : List Json}
    (known : Literal.constants ls = some js) (constant : Json.EveryItem Json.Constant js)
    (keyed : Literal.KeyedItems ls) (m : Machine) (before : List Value) {r : TableRef}
    (placed : r < m.tables.size) (tidy : (m.tables.getD r {}).Tidy)
    (spans : (m.tables.getD r {}).Spans before) (bounded : before.length + ls.length < 2 ^ 63) :
    ∃ vs m', fillSequence s r (before.length + 1) ls m = .done () m' ∧ m.Spared r m' ∧
      r < m'.tables.size ∧ (m'.tables.getD r {}).Tidy ∧
      (m'.tables.getD r {}).Spans (before ++ vs) ∧ m'.BuildsItems (r + 1) vs ls := by
  cases ls with
  | nil => exact ⟨[], m, rfl, .refl r m, placed, tidy, by rwa [List.append_nil], rfl⟩
  | cons l ls =>
    obtain ⟨j, js, first, others, rfl⟩ := Literal.constants_cons.1 known
    rw [List.length_cons] at bounded
    obtain ⟨v, m₁, built, retains, builds⟩ := literalValue_builds first constant.1 keyed.1 m
    -- Building the part left the table as it was, so that its item comes right after the others.
    obtain ⟨m₂, changed, spared, placed', here, builds⟩ :=
      retains.stored builds placed fun t => t.setItem (before.length + 1) v
    have longer := spans.setItem tidy (by omega) v
    rw [← here] at longer
    obtain ⟨vs, m', filled, spared', placed'', tidy', spans', inside⟩ :=
      fillSequence_builds others constant.2 keyed.2 m₂ _ placed'
        (here ▸ (tidy.setNormal _ v).tidy) longer (by simp; omega)
    refine ⟨v :: vs, m', ?_, spared.trans spared', placed'', tidy', by simpa using spans', v, vs,
      rfl, builds.kept (Nat.le_refl _) (Nat.lt_succ_self r) spared', inside⟩
    rw [List.length_append, List.length_singleton, changed] at filled
    exact (fillSequence_cons built _ ls).trans filled

theorem fillMapping_builds {es : List (String × Literal)} {js : List (String × Json)}
    (known : Literal.constantEntries es = some js) (constant : Json.EveryEntry Json.Constant js)
    (keyed : Literal.KeyedEntries es) (m : Machine) (fields : List (String × Value)) {r : TableRef}
    (placed : r < m.tables.size)
    (record : (m.tables.getD r {}).Record (Table.kept fields))
    (unique : (fields.map (·.1) ++ es.map (·.1)).Nodup) :
    ∃ new m', fillMapping s r es m = .done () m' ∧ m.Spared r m' ∧ r < m'.tables.size ∧
      (m'.tables.getD r {}).Record (Table.kept (fields ++ new)) ∧
      m'.BuildsEntries (r + 1) new es := by
  match es with
  | [] => exact ⟨[], m, rfl, .refl r m, placed, by rwa [List.append_nil], rfl⟩
  | (k, l) :: es =>
    obtain ⟨j, js, first, others, rfl⟩ := Literal.constantEntries_cons.1 known
    obtain ⟨v, m₁, built, retains, builds⟩ := literalValue_builds first constant.1 keyed.1 m
    obtain ⟨m₂, changed, spared, placed', here, builds⟩ :=
      retains.stored builds placed fun t => t.setField k v
    have put := record.put
      (fun there => (List.nodup_append.1 unique).2.2 _ there _ (.head _) rfl) v
    rw [← here] at put
    obtain ⟨new, m', filled, spared', placed'', record', inside⟩ :=
      fillMapping_builds others constant.2 keyed.2 m₂ _ placed' put (by simpa using unique)
    refine ⟨(k, v) :: new, m', ?_, spared.trans spared', placed'', by simpa using record', v, new,
      rfl, builds.kept (Nat.le_refl _) (Nat.lt_succ_self r) spared', inside⟩
    rw [changed] at filled
    exact (fillMapping_cons built k es).trans filled

end

end Building

end Execution

/-! ## The same data -/

namespace Lua

variable {m m' : Machine}

theorem Table.Lists.spans {t : Table} {vs : List Value} (h : t.Lists vs) : t.Spans vs := h.getNormal

theorem Machine.Holds.ne_nil {low : TableRef} {v : Value} {j : Json} (h : m.Holds low v j)
    (full : j ≠ .null) : v ≠ .nil := by
  cases j with
  | null => exact absurd rfl full
  | arr items =>
    obtain ⟨r, vs, rfl, -⟩ := h
    simp
  | obj entries =>
    obtain ⟨r, fields, rfl, -⟩ := h
    simp
  | int n =>
    obtain rfl : v = Value.ofInt n := h
    unfold Value.ofInt
    split <;> simp
  | _ =>
    cases h
    rintro ⟨⟩

theorem Machine.HoldsItems.length {low : TableRef} {vs : List Value} {items : List Json}
    (h : m.HoldsItems low vs items) : vs.length = items.length := by
  induction items generalizing vs with
  | nil =>
    obtain rfl : vs = [] := h
    rfl
  | cons j js ih =>
    obtain ⟨v, rest, rfl, -, others⟩ := h
    exact congrArg Nat.succ (ih others)

theorem Machine.HoldsItems.ne_nil {low : TableRef} {vs : List Value} {items : List Json}
    (h : m.HoldsItems low vs items) (full : .null ∉ items) : ∀ v ∈ vs, v ≠ .nil := by
  induction items generalizing vs with
  | nil =>
    obtain rfl : vs = [] := h
    nofun
  | cons j js ih =>
    obtain ⟨v, rest, rfl, first, others⟩ := h
    rw [List.mem_cons, not_or] at full
    exact List.forall_mem_cons.2 ⟨first.ne_nil (Ne.symm full.1), ih others full.2⟩

namespace Alike

variable {r r' : TableRef} {vs vs' : List Value}

theorem ne_nil (h : List.Forall₂ (Alike m m') vs vs') (some_ : ∀ v ∈ vs', v ≠ .nil) :
    ∀ v ∈ vs, v ≠ .nil := by
  induction h with
  | nil => nofun
  | cons first _ ih =>
    obtain ⟨here, others⟩ := List.forall_mem_cons.1 some_
    exact List.forall_mem_cons.2 ⟨here ∘ first.nil_iff.1, ih others⟩

/-- Sequences of the same data without gaps, one of them laid out in any way. -/
theorem spans (h : List.Forall₂ (Alike m m') vs vs') (tidy : (m.tables.getD r {}).Tidy)
    (spans : (m.tables.getD r {}).Spans vs) (lists : (m'.tables.getD r' {}).Lists vs')
    (bounded : vs'.length < 2 ^ 63) (some_ : ∀ v ∈ vs', v ≠ .nil) :
    Alike m m' (.table r) (.table r') := by
  have length := h.length_eq
  have border : (m.tables.getD r {}).border = vs.length :=
    (spans.full (length ▸ bounded) (ne_nil h some_)).border tidy.limit
      (Nat.lt_of_le_of_lt tidy.small (by decide))
  have border' : (m'.tables.getD r' {}).border = vs'.length :=
    lists.sequence.border bounded fun k low high => by
      have full := lists.spans.full bounded some_
      have used := full.used k low (Nat.le_trans high full.bounded)
      exact fun empty => Nat.not_lt.2 high (used.1 empty)
  refine .table (border.trans (length.trans border'.symm)) fun key => ?_
  rw [Table.get, Table.get, spans, lists.getNormal, length]
  cases Table.position? vs'.length key.normalKey with
  | some n => exact getD h _
  | none => exact .nil

end Alike

section Same

mutual

/-- What a known literal is built to is the same data as what its constant stands for. -/
theorem Machine.Builds.alike {low low' : TableRef} {v v' : Value} {l : Literal} {j : Json}
    (h : m.Builds low v l) (known : l.constant = some j) (keyed : l.Keyed)
    (constant : j.Every Json.Constant) (full : j.Every Json.Seamless) (h' : m'.Holds low' v' j) :
    Alike m m' v v' := by
  cases l with
  | const j =>
    cases known
    exact Machine.Holds.alike h h'
  | deferred | expr => cases known
  | seq ls =>
    obtain ⟨js, parts, rfl⟩ := Option.map_eq_some_iff.1 known
    obtain ⟨r, vs, rfl, -, -, tidy, spans, inside⟩ := h
    obtain ⟨r', vs', rfl, -, -, lists, inside'⟩ := h'
    have parts := inside.alike parts keyed constant.2 full.2 inside'
    have bounded : vs'.length < 2 ^ 63 := inside'.length ▸ constant.1
    exact Alike.spans parts tidy spans lists bounded (inside'.ne_nil full.1)
  | map es =>
    obtain ⟨js, parts, rfl⟩ := Option.map_eq_some_iff.1 known
    -- No key comes twice, so that the constant has the entries in the order of the literal.
    rw [Bindings.ofList_unique (Literal.constantEntries_keys parts ▸ keyed.1)] at constant full h'
    obtain ⟨r, fields, rfl, -, -, record, inside⟩ := h
    obtain ⟨r', fields', rfl, -, -, record', inside'⟩ := h'
    exact Alike.records (inside.alike parts keyed.2 constant.2 full.2 inside') record record'

theorem Machine.BuildsItems.alike {low low' : TableRef} {vs vs' : List Value} {ls : List Literal}
    {js : List Json} (h : m.BuildsItems low vs ls) (known : Literal.constants ls = some js)
    (keyed : Literal.KeyedItems ls) (constant : Json.EveryItem Json.Constant js)
    (full : Json.EveryItem Json.Seamless js) (h' : m'.HoldsItems low' vs' js) :
    List.Forall₂ (Alike m m') vs vs' := by
  cases ls with
  | nil =>
    cases known
    obtain rfl : vs = [] := h
    obtain rfl : vs' = [] := h'
    exact .nil
  | cons l ls =>
    obtain ⟨j, js, this, others, rfl⟩ := Literal.constants_cons.1 known
    obtain ⟨v, rest, rfl, first, inside⟩ := h
    obtain ⟨v', rest', rfl, first', inside'⟩ := h'
    exact .cons (first.alike this keyed.1 constant.1 full.1 first')
      (inside.alike others keyed.2 constant.2 full.2 inside')

theorem Machine.BuildsEntries.alike {low low' : TableRef} {fields fields' : List (String × Value)}
    {es : List (String × Literal)} {js : List (String × Json)} (h : m.BuildsEntries low fields es)
    (known : Literal.constantEntries es = some js) (keyed : Literal.KeyedEntries es)
    (constant : Json.EveryEntry Json.Constant js) (full : Json.EveryEntry Json.Seamless js)
    (h' : m'.HoldsEntries low' fields' js) :
    List.Forall₂ (fun e e' => e.1 = e'.1 ∧ Alike m m' e.2 e'.2) fields fields' := by
  match es with
  | [] =>
    cases known
    obtain rfl : fields = [] := h
    obtain rfl : fields' = [] := h'
    exact .nil
  | (k, l) :: es =>
    obtain ⟨j, js, this, others, rfl⟩ := Literal.constantEntries_cons.1 known
    obtain ⟨v, rest, rfl, first, inside⟩ := h
    obtain ⟨v', rest', rfl, first', inside'⟩ := h'
    exact .cons ⟨rfl, first.alike this keyed.1 constant.1 full.1 first'⟩
      (inside.alike others keyed.2 constant.2 full.2 inside')

end

end Same

end Lua

namespace Execution

open Lua

/-- The value that the interpreter builds for a literal that was folded from data is the same data
as what the folder makes of its constant, in any two machines, when no sequence has a null. -/
theorem folded_values_agree {f : Folder} {j v : Json} {l : Literal} {m₀ m₀' : Machine}
    (keyed : j.Every Json.Keyed) (folded : f.reconstruct j m₀ = .done l m₀')
    (known : l.constant = some v) (constant : v.Every Json.Constant)
    (full : v.Every Json.Seamless) (s : Scope) (m m' : Machine) :
    ∃ a m₁ b m₂, literalValue s l m = .done a m₁ ∧
      (Value.ofJson .nil v : Running Value) m' = .done b m₂ ∧ Alike m₁ m₂ a b := by
  have keyed := (Compile.reconstruct_madeOf folded).keyed keyed
  obtain ⟨a, m₁, built, -, builds⟩ := literalValue_builds s known constant keyed m
  obtain ⟨b, m₂, made, -, holds⟩ := makes_make (ε := RuntimeError) constant m'
  exact ⟨a, m₁, b, m₂, built, made, builds.alike known keyed constant full holds⟩

/-- A sequence of three in a mapping, with a sequence and a mapping in it. -/
def sampleArgument : Json :=
  .obj [("name", .str "a$b"), ("list", .arr [.int 1, .arr [], .obj [("on", .bool true)]])]

theorem folded_values_agree_sample : ∃ s m l,
    (Scope.root : Run EvalError Scope) (Machine.initial {}) = .done s m ∧
    (Folder.mk [] none).reconstruct sampleArgument m = .done l m ∧
    l.constant = some sampleArgument ∧
    ∃ a m₁ b m₂, literalValue s l m = .done a m₁ ∧
      (Value.ofJson .nil sampleArgument : Running Value) m = .done b m₂ ∧ Alike m₁ m₂ a b := by
  have unique : ["name", "list"].Nodup := by decide
  have single (k : String) : [k].Nodup := List.nodup_singleton k
  have plain : ¬['$', '\x7b'] <:+: "a$b".toList := by decide +kernel
  have clean : sampleArgument.Clean :=
    ⟨unique, plain, ⟨trivial, trivial, ⟨single "on", trivial, trivial⟩, trivial⟩, trivial⟩
  have keyed : sampleArgument.Every Json.Keyed :=
    ⟨unique, trivial, ⟨trivial, trivial, ⟨trivial, trivial⟩, ⟨single "on", trivial, trivial⟩,
      trivial⟩, trivial⟩
  have constant : sampleArgument.Every Json.Constant :=
    ⟨unique, trivial, ⟨(by decide : 3 < 2 ^ 63), ⟨by decide, by decide⟩,
      ⟨(by decide : 0 < 2 ^ 63), trivial⟩, ⟨single "on", trivial, trivial⟩, trivial⟩, trivial⟩
  have full : sampleArgument.Every Json.Seamless := by
    simp [sampleArgument, Json.Every, Json.EveryItem, Json.EveryEntry, Json.Seamless]
  obtain ⟨s, m, opened, -⟩ := root_opens
  obtain ⟨l, folded, known⟩ := (Folder.mk [] none).reconstruct_clean m clean
  exact ⟨s, m, l, opened, folded, known,
    folded_values_agree keyed folded known constant full s m m⟩

end Execution

end Tasklang
