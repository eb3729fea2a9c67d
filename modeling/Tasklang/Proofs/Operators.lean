import Tasklang.Proofs.Data
import Tasklang.Proofs.Globals

/-! # Operators on data

What an operator gives depends on the data that its operands are, wherever the library is as it was at
the start: strings that denote numbers take part in arithmetic through their metatable, and
structured data takes part in nothing but being looked into. No operator changes anything.
-/

namespace Tasklang

open Lua

/-- What an expression comes to: a value that is no table, or structured data in tables. -/
inductive Datum where
  | flat (v : Value)
  | nested (j : Json)

/-- What structured data comes to. -/
def Json.datum : Json → Datum
  | .null => .flat .nil
  | .bool b => .flat (.bool b)
  | .int n => .flat (.ofInt n)
  | .float x => .flat (.float (.ofFloat x))
  | .str s => .flat (.ofString s)
  | j => .nested j

namespace Lua

variable {m : Machine} {v : Value}

/-- Whether a value in a machine is a datum. -/
def Machine.Stands (m : Machine) (v : Value) : Datum → Prop
  | .flat w => v = w ∧ w.isTable = false
  | .nested j => v.isTable = true ∧ m.Made v j

/-- What is made of structured data stands for it. -/
theorem Machine.Made.stands {j : Json} (h : m.Made v j) : m.Stands v j.datum := by
  have whole := h
  obtain ⟨ε, m₀, m₁, made, -, -⟩ := h
  cases j with
  | arr items =>
    simp only [Value.make, Code.bind_done, Code.exec_pure, Outcome.done.injEq] at made
    obtain ⟨r, _, _, _, _, _, rfl, _⟩ := made
    exact ⟨rfl, whole⟩
  | obj entries =>
    simp only [Value.make, Code.bind_done, Code.exec_pure, Outcome.done.injEq] at made
    obtain ⟨r, _, _, _, _, _, rfl, _⟩ := made
    exact ⟨rfl, whole⟩
  | int n =>
    cases made
    refine ⟨rfl, ?_⟩
    rw [Value.ofInt]
    split <;> rfl
  | _ =>
    cases made
    exact ⟨rfl, rfl⟩

/-- What a table made of data has under a text stands for the entry of the data, if there is one. -/
theorem Machine.Made.entry {r : TableRef} {j : Json} (h : m.Made (.table r) j) (key : Bytes) :
    m.Stands ((m.tables.getD r {}).named key) ((j.entry? key).getD .null).datum := by
  have found := h.fields.2 key
  cases known : j.entry? key with
  | some j' =>
    rw [known] at found
    exact found.stands
  | none =>
    rw [known] at found
    exact ⟨found, rfl⟩

/-! ## Metamethods -/

/-- The fields of the metatable of strings. -/
def stringMeta : Table := tableOf (stringMetaFields firstLibraryRef)

/-- The functions on strings. -/
def stringTable : Table := tableOf stringFields

section Places

variable (f : m.Furnished)

include f

theorem Machine.Furnished.has_stringMeta : m.tables.getD stringMetaRef {} = stringMeta := by
  rw [f.tables stringMetaRef (by decide +kernel) (by decide) (by decide)]
  simp only [initialTables, stringMetaRef, List.cons_append, List.getD_cons_succ,
    List.getD_cons_zero, stringMeta]

theorem Machine.Furnished.has_stringTable : m.tables.getD firstLibraryRef {} = stringTable := by
  rw [f.tables firstLibraryRef (by decide +kernel) (by decide) (by decide)]
  simp only [initialTables, firstLibraryRef, libraryTables, List.map_cons, List.cons_append,
    List.nil_append, List.getD_cons_succ, List.getD_cons_zero, stringTable]

/-- The mark of sequences says nothing but that it is not to be looked at. -/
theorem Machine.Furnished.arrayMeta_nil (event : String) (apart : event ≠ "__metatable") :
    (m.tables.getD arrayMetaRef {}).field event = .nil := by
  rw [f.tables arrayMetaRef (by decide +kernel) (by decide) (by decide)]
  simp only [initialTables, arrayMetaRef, List.cons_append, List.getD_cons_succ,
    List.getD_cons_zero]
  exact field_tableOf (by simpa using apart)

end Places

/-- What an operator does to strings, if it takes them for numbers. -/
def BinaryOp.onStrings? : BinaryOp → Option StringOperator
  | .add => some .add
  | .sub => some .sub
  | .mul => some .mul
  | .mod => some .mod
  | .pow => some .pow
  | .div => some .div
  | .idiv => some .idiv
  | _ => none

theorem stringMeta_event (op : BinaryOp) : stringMeta.field op.event =
    match op.onStrings? with
    | some on => .function (.stringOperator on)
    | none => .nil := by
  cases op <;> first | exact field_tableOf (by decide) | decide +kernel

/-- Strings have no other metamethods. -/
theorem stringMeta_other {event : String}
    (other : event ∉ (stringMetaFields firstLibraryRef).map (·.1)) : stringMeta.field event = .nil :=
  field_tableOf other

theorem BinaryOp.binary?_onStrings {op : BinaryOp} {on : StringOperator}
    (h : op.onStrings? = some on) : on.binary? = some op := by
  cases op <;> cases h <;> rfl

section Metamethods

open Code

variable {d : Datum} (f : m.Furnished)

include f

theorem Machine.Furnished.metamethod_str (s : Bytes) (event : String) :
    (metamethod (.str s) event).exec m = .done (stringMeta.field event) m := by
  show Outcome.done ((m.tables.getD stringMetaRef {}).field event) m = _
  rw [f.has_stringMeta]

/-- Only strings have metamethods that an operator asks for. -/
theorem Machine.Furnished.metamethod_nil (stands : m.Stands v d) (other : v.isString = false)
    (event : String) (apart : event ≠ "__metatable") :
    (metamethod v event).exec m = .done .nil m := by
  cases d with
  | flat w =>
    obtain ⟨rfl, flat⟩ := stands
    cases v with
    | table => cases flat
    | str => cases other
    | _ => rfl
  | nested j =>
    obtain ⟨table, made⟩ := stands
    cases v with
    | table r =>
      simp only [metamethod, metatableOf, exec_bind, exec_table, exec_pure, Outcome.andThen_done]
      rcases made.fields.1 with none_ | some_
      · rw [none_]
        rfl
      · rw [some_]
        exact congrArg (Outcome.done · m) (f.arrayMeta_nil event apart)
    | _ => cases table

end Metamethods

/-! ## Looking into data -/

/-- Whether an operation has a datum as its value and changes nothing, or has no value. -/
def Outcome.Amounts (m : Machine) (o : Outcome Value Value) : Option Datum → Prop
  | some d => ∃ v, o = .done v m ∧ m.Stands v d
  | none => ∀ v m', o ≠ .done v m'

theorem Outcome.Amounts.failed {o : Outcome Value Value} {e : Value}
    (h : o = .failed e m) : o.Amounts m none := by
  intro v m' done
  rw [h] at done
  cases done

end Lua

/-- What a datum has under a text. -/
def Datum.member (key : Bytes) : Datum → Option Datum
  | .nested j => some ((j.entry? key).getD .null).datum
  | .flat (.str _) => some (.flat (stringTable.named key))
  | .flat (.stream _) => some (.flat (streamField (.str key)))
  | .flat _ => none

namespace Lua

variable {m : Machine} {v : Value} {d : Datum}

section Looking

open Code

variable (f : m.Furnished)

/-- Nothing under the functions on strings is a table. -/
theorem stringTable_flat (key : Bytes) : (stringTable.named key).isTable = false := by
  have flat : ∀ e ∈ stringTable.others, e.2.isTable = false := by decide +kernel
  rw [Table.named]
  generalize stringTable.others = entries at flat
  induction entries with
  | nil => rfl
  | cons e entries ih =>
    rw [Table.find]
    split
    · exact flat e (.head _)
    · exact ih fun e' there => flat e' (.tail _ there)

theorem streamField_flat (key : Value) : (streamField key).isTable = false := by
  unfold streamField
  split
  · split
    · rfl
    · split <;> rfl
  · rfl

/-- A table that asks nobody else answers for a text with what it has there. -/
theorem index_silent (c : Caller) (hops : Nat) (r : TableRef) (key : Bytes)
    (silent : ∀ place, (m.tables.getD r {}).metatable = some place →
      (m.tables.getD place {}).field "__index" = .nil) :
    (index c (hops + 1) (.table r) (.str key)).exec m =
      .done ((m.tables.getD r {}).named key) m := by
  by_cases nothing : (m.tables.getD r {}).named key = .nil
  · simp only [index, exec_bind, lookUp_str, Outcome.andThen_done, nothing, exec_table]
    cases asks : (m.tables.getD r {}).metatable with
    | none => rfl
    | some place =>
      simp only [exec_bind, exec_table, Outcome.andThen_done, silent place asks]
      rfl
  · simp only [index, exec_bind, lookUp_str, Outcome.andThen_done]
    rfl

include f

/-- Looking into data for a text. -/
theorem index_amounts (c : Caller) (hops : Nat) (stands : m.Stands v d) (key : Bytes) :
    ((index c (hops + 2) v (.str key)).exec m).Amounts m (d.member key) := by
  cases d with
  | nested j =>
    obtain ⟨table, made⟩ := stands
    cases v with
    | table r =>
      refine ⟨_, index_silent c (hops + 1) r key fun place asks => ?_, made.entry key⟩
      rcases made.fields.1 with none_ | some_
      · cases none_.symm.trans asks
      · cases some_.symm.trans asks
        exact f.arrayMeta_nil "__index" (by decide)
    | _ => cases table
  | flat w =>
    obtain ⟨rfl, flat⟩ := stands
    cases v with
    | table => cases flat
    | str s =>
      have indexed : stringMeta.field "__index" = .table firstLibraryRef := by decide +kernel
      have answered := index_silent (m := m) c hops firstLibraryRef key fun place asks => by
        rw [f.has_stringTable, stringTable, metatable_tableOf] at asks
        cases asks
      rw [f.has_stringTable] at answered
      refine ⟨_, ?_, rfl, stringTable_flat key⟩
      rw [← answered]
      simp only [index.eq_def _ (hops + 2), exec_bind, f.metamethod_str, indexed,
        Outcome.andThen_done, Value.isFunction, Bool.false_eq_true, if_false]
    | stream => exact ⟨_, rfl, rfl, streamField_flat _⟩
    | _ => exact .failed rfl

end Looking

/-! ## Operators -/

namespace Value

/-- Whether one value is less than another, or at most it, when they have an order. -/
def less? (orEqual : Bool) (a b : Value) : Option Bool :=
  match a, b with
  | .str x, .str y => some (if orEqual then !Bytes.lt y x else Bytes.lt x y)
  | _, _ => match a.number?, b.number? with
    | some x, some y => some (if orEqual then Number.le x y else Number.lt x y)
    | _, _ => none

/-- The result of arithmetic, in which strings may denote the numbers. -/
def arithmetic? (op : BinaryOp) (a b : Value) : Option Value :=
  match a.number?, b.number? with
  | some x, some y => (ofNumbers op x y).toOption
  | _, _ => match op.onStrings?, a.toNumber?, b.toNumber? with
    | some _, some x, some y => (ofNumbers op x y).toOption
    | _, _, _ => none

/-- The result of an operator with two operands, not both of which are tables. -/
def binary? (op : BinaryOp) (a b : Value) : Option Value :=
  match op with
  | .concat => match a.toBytes?, b.toBytes? with
    | some x, some y => some (.str (x ++ y))
    | _, _ => none
  | .eq => some (.bool (rawEq a b))
  | .ne => some (.bool !rawEq a b)
  | .lt => (less? false a b).map .bool
  | .le => (less? true a b).map .bool
  | .gt => (less? false b a).map .bool
  | .ge => (less? true b a).map .bool
  | op => arithmetic? op a b

/-- The result of an operator with one operand, which is no table where its length is taken. -/
def unary? (op : UnaryOp) (v : Value) : Option Value :=
  match op with
  | .not => some (.bool !v.truthy)
  | .len => match v with
    | .str s => some (.int (Int64.ofNat s.length))
    | _ => none
  | .neg => v.toNumber?.map fun n => .ofNumber n.negate
  | .bnot => (v.number?.bind Number.toInt?).map fun n => .int (~~~n)

end Value

section Operators

open Code

variable {a b : Value} {da db : Datum}

theorem ofNumber_flat (n : Number) : (Value.ofNumber n).isTable = false := by
  cases n <;> rfl

theorem ofNumbers_flat {op : BinaryOp} {x y : Number} (h : ofNumbers op x y = .ok v) :
    v.isTable = false := by
  unfold ofNumbers at h
  split at h
  · split at h
    · cases h
      rfl
    · cases h
  · cases result : Number.arith op x y with
    | ok n =>
      rw [result] at h
      cases h
      exact ofNumber_flat n
    | error message =>
      rw [result] at h
      cases h

theorem Outcome.Amounts.flat {o : Outcome Value Value} (done : o = .done v m)
    (flat : v.isTable = false) : o.Amounts m (some (.flat v)) :=
  ⟨v, done, rfl, flat⟩

theorem onNumbers_flat {on : StringOperator} {x y : Number} (h : on.ofNumbers x y = .ok v) :
    v.isTable = false := by
  unfold StringOperator.ofNumbers at h
  split at h
  · exact ofNumbers_flat h
  · cases h
    exact ofNumber_flat _

theorem Value.toNumber?_eq_number? (other : v.isString = false) : v.toNumber? = v.number? := by
  cases v with
  | str => cases other
  | _ => rfl

/-- The metamethods of strings for arithmetic are called like any function. -/
theorem exec_call_onStrings (c : Caller) (n : Nat) (on : StringOperator) (a b : Value)
    (calls : ∀ site f args, (c.apply site f args).exec m = (within (n + 3) site f args).exec m)
    (room : c.site.levels + 1 < Site.levelLimit) :
    ∃ c' : Caller, ((c.call (.function (.stringOperator on)) [a, b]).exec m).andThen
      (fun vs => .done (first vs)) .failed = (stringArithmetic c' on a b).exec m := by
  refine ⟨⟨{ c.site with levels := c.site.levels + 1, callee := .unknown }, within (n + 2)⟩, ?_⟩
  rw [Caller.call, exec_bind, exec_deeper c room, Outcome.andThen_done, calls, within,
    run_library m n _ _ (by simp)]
  simp only [applyLibrary, exec_bind]
  exact first_of_one _

/-- Comparing data with what is no table. -/
theorem equals_amounts (c : Caller) (apart : a.isTable = false ∨ b.isTable = false) :
    (equals c a b).exec m = .done (Value.rawEq a b) m := by
  unfold equals
  cases same : Value.rawEq a b with
  | true => rfl
  | false =>
    simp only [Bool.false_eq_true, if_false]
    split
    · rcases apart with flat | flat <;> cases flat
    · rfl

variable (f : m.Furnished) (sa : m.Stands a da) (sb : m.Stands b db)

include f sb in
/-- What arithmetic does to strings. -/
theorem stringArithmetic_amounts (c : Caller) (on : StringOperator) :
    ((stringArithmetic c on a b).exec m).Amounts m (match a.toNumber?, b.toNumber? with
      | some x, some y => (on.ofNumbers x y).toOption.map .flat
      | _, _ => none) := by
  cases ha : a.toNumber? <;> cases hb : b.toNumber?
  case some.some x y =>
    simp only [stringArithmetic, ha, hb]
    cases result : on.ofNumbers x y with
    | ok v => exact .flat rfl (onNumbers_flat result)
    | error message => exact .failed rfl
  all_goals
    simp only [stringArithmetic, ha, hb]
    cases string : b.isString
    · have none_ := f.metamethod_nil sb string on.event (by cases on <;> decide)
      simp only [exec_bind, Bool.false_eq_true, if_false, none_, Outcome.andThen_done]
      exact .failed rfl
    · exact .failed rfl

include f sa sb

/-- The metamethod that an operator finds is that of strings. -/
theorem exec_binaryMetamethod (event : String) (apart : event ≠ "__metatable") :
    (binaryMetamethod event a b).exec m =
      .done (if a.isString || b.isString then stringMeta.field event else .nil) m := by
  have one {v : Value} {d : Datum} (stands : m.Stands v d) : (metamethod v event).exec m =
      .done (if v.isString then stringMeta.field event else .nil) m := by
    by_cases string : v.isString
    · rw [if_pos string]
      cases v with
      | str s => exact f.metamethod_str s event
      | _ => cases string
    · rw [if_neg string]
      exact f.metamethod_nil stands (by simpa using string) event apart
  simp only [binaryMetamethod, exec_bind, one sa, Outcome.andThen_done]
  cases first : a.isString with
  | false =>
    simp only [Bool.false_eq_true, if_false, one sb, Bool.false_or]
  | true =>
    simp only [if_true, Bool.true_or]
    split
    · rename_i nothing
      rw [one sb, nothing, ite_self]
    · rfl

/-- Where there is no such metamethod, an operator finds none. -/
theorem exec_binaryMetamethod_nil (event : String) (apart : event ≠ "__metatable")
    (none_ : stringMeta.field event = .nil) :
    (binaryMetamethod event a b).exec m = .done .nil m := by
  rw [exec_binaryMetamethod f sa sb event apart, none_, ite_self]

/-- Comparing data by their order. -/
theorem less_amounts (c : Caller) (orEqual : Bool) :
    match Value.less? orEqual a b with
    | some r => (less c orEqual a b).exec m = .done r m
    | none => ∃ e, (less c orEqual a b).exec m = .failed e m := by
  by_cases strings : ∃ x y, a = .str x ∧ b = .str y
  · obtain ⟨x, y, rfl, rfl⟩ := strings
    rfl
  rw [Value.less?.eq_2 _ _ _ fun x y ha hb => strings ⟨x, y, ha, hb⟩,
    less.eq_2 _ _ _ _ fun x y ha hb => strings ⟨x, y, ha, hb⟩]
  have le := exec_binaryMetamethod_nil f sa sb "__le" (by decide) (stringMeta_other (by decide))
  have lt := exec_binaryMetamethod_nil f sa sb "__lt" (by decide) (stringMeta_other (by decide))
  have turned := exec_binaryMetamethod_nil f sb sa "__lt" (by decide) (stringMeta_other (by decide))
  cases a.number? <;> cases b.number?
  case some.some => rfl
  all_goals
    refine ⟨.str (c.site.blame 1 ++ Bytes.ofString (comparisonMessage a b)), ?_⟩
    cases orEqual <;>
      simp only [exec_bind, Bool.false_eq_true, if_false, if_true, le, lt, turned, exec_pure,
        Outcome.andThen_done] <;> rfl

theorem concatenate_amounts (c : Caller) :
    ((concatenate c a b).exec m).Amounts m ((Value.binary? .concat a b).map .flat) := by
  have none_ := exec_binaryMetamethod_nil f sa sb "__concat" (by decide)
    (stringMeta_other (by decide))
  simp only [concatenate, Value.binary?]
  cases a.toBytes? <;> cases b.toBytes?
  case some.some x y => exact ⟨_, rfl, rfl, rfl⟩
  all_goals
    simp only [exec_bind, none_, Outcome.andThen_done]
    exact .failed rfl

/-- Arithmetic. Strings that denote numbers come to it by a call of their metamethod. -/
theorem arithmetic_amounts (c : Caller) (n : Nat) (op : BinaryOp)
    (calls : ∀ site f args, (c.apply site f args).exec m = (within (n + 3) site f args).exec m)
    (room : c.site.levels + 1 < Site.levelLimit) :
    ((arithmetic c op a b).exec m).Amounts m ((Value.arithmetic? op a b).map .flat) := by
  have event := exec_binaryMetamethod f sa sb op.event (by cases op <;> decide)
  rw [stringMeta_event] at event
  cases ha : a.number? <;> cases hb : b.number?
  case some.some x y =>
    simp only [arithmetic, Value.arithmetic?, ha, hb]
    cases result : ofNumbers op x y with
    | ok v => exact .flat rfl (ofNumbers_flat result)
    | error message => exact .failed rfl
  all_goals
    simp only [arithmetic, Value.arithmetic?, ha, hb, exec_bind, event]
    cases takes : op.onStrings? with
    | none =>
      rw [ite_self]
      exact .failed rfl
    | some on =>
      by_cases string : (a.isString || b.isString) = true
      · obtain ⟨c', asked⟩ := exec_call_onStrings c n on a b calls room
        have amounts := stringArithmetic_amounts f sb c' (a := a) on
        have binary : on.ofNumbers = ofNumbers op := by
          funext x y
          rw [StringOperator.ofNumbers, BinaryOp.binary?_onStrings takes]
        rw [← asked, binary] at amounts
        simp only [string, if_true, Outcome.andThen_done, exec_bind]
        revert amounts
        cases a.toNumber? <;> cases b.toNumber? <;> exact id
      · simp only [Bool.or_eq_true, not_or, Bool.not_eq_true] at string
        rw [Value.toNumber?_eq_number? string.1, Value.toNumber?_eq_number? string.2, ha, hb,
          string.1, string.2]
        exact .failed rfl

/-- The truth value of a comparison. -/
theorem order_amounts (c : Caller) (orEqual : Bool) :
    ((do return .bool (← less c orEqual a b) : Code Value Value).exec m).Amounts m
      (((Value.less? orEqual a b).map .bool).map .flat) := by
  have amounts := less_amounts f sa sb c orEqual
  cases result : Value.less? orEqual a b with
  | some r =>
    rw [result] at amounts
    exact .flat (by simp only [exec_bind, amounts, Outcome.andThen_done, exec_pure]) rfl
  | none =>
    rw [result] at amounts
    obtain ⟨e, raised⟩ := amounts
    refine Outcome.Amounts.failed (e := e) ?_
    simp only [exec_bind, raised, Outcome.andThen_failed]

/-- An operator with two operands, not both of which are tables where it asks whether they are
equal. -/
theorem binary_amounts (c : Caller) (n : Nat) (op : BinaryOp)
    (calls : ∀ site f args, (c.apply site f args).exec m = (within (n + 3) site f args).exec m)
    (room : c.site.levels + 1 < Site.levelLimit)
    (apart : op = .eq ∨ op = .ne → a.isTable = false ∨ b.isTable = false) :
    ((binary c op a b).exec m).Amounts m ((Value.binary? op a b).map .flat) := by
  cases op with
  | concat => exact concatenate_amounts f sa sb c
  | eq =>
    have same := equals_amounts (m := m) c (apart (.inl rfl))
    exact .flat (by simp only [binary, exec_bind, same, Outcome.andThen_done, exec_pure]) rfl
  | ne =>
    have same := equals_amounts (m := m) c (apart (.inr rfl))
    exact .flat (by simp only [binary, exec_bind, same, Outcome.andThen_done, exec_pure]) rfl
  | lt => exact order_amounts f sa sb c false
  | le => exact order_amounts f sa sb c true
  | gt => exact order_amounts f sb sa c false
  | ge => exact order_amounts f sb sa c true
  | _ => exact arithmetic_amounts f sa sb c n _ calls room

omit sb in
/-- An operator with one operand, which is no table where it asks for the length. -/
theorem unary_amounts (c : Caller) (n : Nat) (op : UnaryOp)
    (calls : ∀ site f args, (c.apply site f args).exec m = (within (n + 3) site f args).exec m)
    (room : c.site.levels + 1 < Site.levelLimit) (apart : op = .len → a.isTable = false) :
    ((unary c op a).exec m).Amounts m ((Value.unary? op a).map .flat) := by
  have asked (event : String) (other : event ≠ "__metatable")
      (none_ : stringMeta.field event = .nil) : (metamethod a event).exec m = .done .nil m := by
    by_cases string : a.isString
    · cases a with
      | str s => rw [f.metamethod_str, none_]
      | _ => cases string
    · exact f.metamethod_nil sa (by simpa using string) event other
  cases op with
  | not => exact .flat rfl rfl
  | len =>
    have none_ := asked "__len" (by decide) (stringMeta_other (by decide))
    cases a with
    | str s => exact .flat rfl rfl
    | table => cases apart rfl
    | _ =>
      simp only [unary, length, exec_bind, none_, Outcome.andThen_done]
      exact .failed rfl
  | bnot =>
    simp only [unary, Value.unary?]
    cases a.number? with
    | none =>
      simp only [exec_bind, asked "__bnot" (by decide)
        (stringMeta_other (by decide)),
        Outcome.andThen_done]
      exact .failed rfl
    | some x =>
      simp only [Option.bind_some]
      cases x.toInt? with
      | none => exact .failed rfl
      | some i => exact .flat rfl rfl
  | neg =>
    simp only [unary, Value.unary?]
    by_cases string : a.isString
    · cases a with
      | str s =>
        obtain ⟨c', called⟩ := exec_call_onStrings (m := m) c n .unm (.str s) (.str s) calls room
        have amounts := stringArithmetic_amounts f sa c' (a := .str s) .unm
        have takes : stringMeta.field "__unm" = .function (.stringOperator .unm) := by
          decide +kernel
        rw [← called] at amounts
        simp only [Value.number?, exec_bind, f.metamethod_str, takes, Outcome.andThen_done]
        revert amounts
        cases (Value.str s).toNumber? <;> exact id
      | _ => cases string
    · rw [Value.toNumber?_eq_number? (by simpa using string)]
      cases a.number? with
      | some x => exact .flat rfl (ofNumber_flat _)
      | none =>
        have none_ := f.metamethod_nil sa (by simpa using string) "__unm" (by decide)
        simp only [exec_bind, none_, Outcome.andThen_done]
        exact .failed rfl

end Operators

end Lua

/-! ## Operators on data -/

namespace Datum

/-- A value that operators take for the datum: which table it is makes no difference. -/
def shape : Datum → Value
  | flat v => v
  | nested _ => .table globalsRef

/-- Whether a datum is no structured data. -/
def isFlat : Datum → Bool
  | flat _ => true
  | nested _ => false

/-- The result of an operator with one operand. -/
def unary (op : UnaryOp) (d : Datum) : Option Datum := (Value.unary? op d.shape).map .flat

/-- The result of an operator with two operands. -/
def binary (op : BinaryOp) (a b : Datum) : Option Datum :=
  (Value.binary? op a.shape b.shape).map .flat

end Datum

namespace Lua

variable {m : Machine} {v a b : Value} {d da db : Datum}

theorem Machine.Stands.isTable (stands : m.Stands v d) : v.isTable = !d.isFlat := by
  cases d with
  | flat w => rw [stands.1, stands.2, Datum.isFlat, Bool.not_true]
  | nested j => exact stands.1

theorem Machine.Stands.cases (stands : m.Stands v d) :
    v = d.shape ∨ ∃ r, v = .table r ∧ d.shape = .table globalsRef := by
  cases d with
  | flat w => exact .inl stands.1
  | nested j =>
    cases v with
    | table r => exact .inr ⟨r, rfl, rfl⟩
    | _ => cases stands.1

theorem Machine.Stands.truthy (stands : m.Stands v d) : v.truthy = d.shape.truthy := by
  rcases stands.cases with same | ⟨r, rfl, same⟩ <;> rw [same]
  rfl

theorem unary?_shape (stands : m.Stands v d) (op : UnaryOp) :
    Value.unary? op v = Value.unary? op d.shape := by
  rcases stands.cases with same | ⟨r, rfl, same⟩
  · rw [same]
  · rw [same]
    cases op <;> rfl

theorem binary?_shape (sa : m.Stands a da) (sb : m.Stands b db) (op : BinaryOp)
    (apart : op = .eq ∨ op = .ne → a.isTable = false ∨ b.isTable = false) :
    Value.binary? op a b = Value.binary? op da.shape db.shape := by
  have tables (r q : TableRef) (equality : op = .eq ∨ op = .ne)
      (is_ : a = .table r ∧ b = .table q) : False := by
    obtain ⟨rfl, rfl⟩ := is_
    rcases apart equality with flat | flat <;> cases flat
  rcases sa.cases with sameA | ⟨r, rfl, sameA⟩ <;> rcases sb.cases with sameB | ⟨q, rfl, sameB⟩
  · rw [sameA, sameB]
  · rw [← sameA, sameB]
    cases op <;> first | rfl | cases a <;> first | rfl | exact (tables _ _ (by simp) ⟨rfl, rfl⟩).elim
  · rw [← sameB, sameA]
    cases op <;> first | rfl | cases b <;> first | rfl | exact (tables _ _ (by simp) ⟨rfl, rfl⟩).elim
  · rw [sameA, sameB]
    cases op <;> first | rfl | exact (tables _ _ (by simp) ⟨rfl, rfl⟩).elim

section Operators

open Code

variable (f : m.Furnished) (c : Caller) (n : Nat)
  (calls : ∀ site f args, (c.apply site f args).exec m = (within (n + 3) site f args).exec m)
  (room : c.site.levels + 1 < Site.levelLimit)

include f calls room

/-- An operator with one operand gives what it gives for the datum. -/
theorem Machine.Stands.unary (stands : m.Stands v d) (op : UnaryOp)
    (apart : op = .len → d.isFlat = true) :
    ((unary c op v).exec m).Amounts m (d.unary op) := by
  rw [Datum.unary, ← unary?_shape stands]
  refine unary_amounts f stands c n op calls room fun length => ?_
  rw [stands.isTable, apart length]
  rfl

/-- An operator with two operands gives what it gives for the data. -/
theorem Machine.Stands.binary (sa : m.Stands a da) (sb : m.Stands b db) (op : BinaryOp)
    (apart : op = .eq ∨ op = .ne → da.isFlat = true ∨ db.isFlat = true) :
    ((binary c op a b).exec m).Amounts m (Datum.binary op da db) := by
  have flat : op = .eq ∨ op = .ne → a.isTable = false ∨ b.isTable = false := by
    rw [sa.isTable, sb.isTable]
    simpa using apart
  rw [Datum.binary, ← binary?_shape sa sb op flat]
  exact binary_amounts f sa sb c n op calls room flat

end Operators

end Lua

end Tasklang
