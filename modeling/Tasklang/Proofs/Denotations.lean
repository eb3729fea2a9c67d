import Tasklang.Proofs.Expressions
import Tasklang.Proofs.Operators

/-! # Expressions without calls

An expression that combines constants, names and what is under texts in data by operators asks for
its names from left to right, and comes to what the operators give for the data. So it can be read off
from the expression what a placeholder does that consists of it, in whatever scopes it is evaluated.
-/

namespace Tasklang

open Lua

namespace Reading

variable {α β : Type} {look : String → Sight}

/-- A reading that goes on with what another one gives. -/
def bind : Reading α → (α → Reading β) → Reading β
  | gives a, f => f a
  | stops, _ => stops
  | asks name next, f => asks name fun j => (next j).bind f

/-- A reading that asks for nothing. -/
def ofOption : Option α → Reading α
  | some a => gives a
  | none => stops

theorem run_bind (t : Reading α) (f : α → Reading β) :
    (t.bind f).run look = match t.run look with
      | .gives a => (f a).run look
      | .unbound name => .unbound name
      | .stops => .stops
      | .unknown => .unknown := by
  induction t with
  | gives a => rfl
  | stops => rfl
  | asks name next ih =>
    rw [bind, run, run]
    cases look name with
    | data j => exact ih j
    | _ => rfl

theorem run_bind_gives {t : Reading α} {f : α → Reading β} {b : β}
    (h : (t.bind f).run look = .gives b) :
    ∃ a, t.run look = .gives a ∧ (f a).run look = .gives b := by
  rw [run_bind] at h
  cases came : t.run look with
  | gives a =>
    rw [came] at h
    exact ⟨a, rfl, h⟩
  | _ =>
    rw [came] at h
    cases h

theorem run_ofOption_gives {o : Option α} {a : α} (h : (ofOption o).run look = .gives a) :
    o = some a := by
  cases o with
  | none => cases h
  | some b =>
    cases h
    rfl

variable {names : List String}

theorem Within.bind {t : Reading α} {f : α → Reading β} (first : t.Within names)
    (then_ : ∀ a, (f a).Within names) : (t.bind f).Within names := by
  induction t with
  | gives a => exact then_ a
  | stops => trivial
  | asks name next ih => exact ⟨first.1, fun j => ih j (first.2 j)⟩

theorem within_ofOption (o : Option α) : (ofOption o).Within names := by
  cases o <;> trivial

end Reading

theorem Datum.isFlat_of_falsy {d : Datum} (falsy : ¬d.shape.truthy = true) : d.isFlat = true := by
  cases d with
  | flat => rfl
  | nested => exact absurd rfl falsy

/-- The plain value that a datum is. A string is one when it encodes a text. -/
def Datum.plain? : Datum → Option Plain
  | .flat (.str s) =>
    if Bytes.ofString (Bytes.decodeLossy s) = s then some (.text (Bytes.decodeLossy s)) else none
  | .flat (.bool b) => some (.truth b)
  | .flat (.int n) => some (.whole n)
  | _ => none

namespace Lua

theorem Machine.Stands.plain {m : Machine} {v : Value} {d : Datum} (stands : m.Stands v d)
    (p : Plain) : d.plain? = some p ↔ v = p.value := by
  cases d with
  | flat w =>
    obtain ⟨rfl, -⟩ := stands
    cases v with
    | str s =>
      rw [Datum.plain?]
      split
      · rename_i encoded
        rw [show Value.str s = (Plain.text (Bytes.decodeLossy s)).value from
          congrArg Value.str encoded.symm]
        exact ⟨fun same => by cases same; rfl, fun same => by rw [Plain.value_injective same]⟩
      · rename_i other
        refine ⟨nofun, fun same => absurd ?_ other⟩
        cases p with
        | text t => rw [Value.str.inj same, Bytes.decodeLossy_ofString]
        | _ => cases same
    | _ => cases p <;> simp [Datum.plain?, Plain.value, Value.ofString]
  | nested j =>
    cases v with
    | table r => cases p <;> simp [Datum.plain?, Plain.value, Value.ofString]
    | _ => cases stands.1

namespace Expr

/-- Whether the value of an expression is no table, whatever its names stand for. -/
def isFlat : Expr → Bool
  | .nil | .bool _ | .int _ | .float _ | .str _ => true
  | .paren e => e.isFlat
  | .unary .. => true
  | .binary .. => true
  | .and _ r => r.isFlat
  | .or l r => l.isFlat && r.isFlat
  | _ => false

/-- Whether an expression combines constants, some names and what is under texts in data by
operators. Which tables there are makes no difference to it: it takes no length of a table, and does
not ask whether two tables are the same. -/
def onlyReads (names : List String) : Expr → Bool
  | .nil | .bool _ | .int _ | .float _ | .str _ => true
  | .name x => names.contains x
  | .index _ o (.str _) => o.onlyReads names
  | .paren e => e.onlyReads names
  | .unary _ op e => e.onlyReads names && (op != .len || e.isFlat)
  | .binary _ op l r => l.onlyReads names && r.onlyReads names &&
    ((op != .eq && op != .ne) || l.isFlat || r.isFlat)
  | .and l r => l.onlyReads names && r.onlyReads names
  | .or l r => l.onlyReads names && r.onlyReads names
  | _ => false

/-- How an expression comes to a datum by asking for its names. -/
def reading : Expr → Reading Datum
  | .nil => .gives (.flat .nil)
  | .bool b => .gives (.flat (.bool b))
  | .int n => .gives (.flat (.int n))
  | .float x => .gives (.flat (.float x))
  | .str s => .gives (.flat (.str s))
  | .name x => .asks x fun j => .gives j.datum
  | .index _ o (.str key) => o.reading.bind fun d => .ofOption (d.member key)
  | .paren e => e.reading
  | .unary _ op e => e.reading.bind fun d => .ofOption (d.unary op)
  | .binary _ op l r => l.reading.bind fun a => r.reading.bind fun b =>
    .ofOption (Datum.binary op a b)
  | .and l r => l.reading.bind fun a => if a.shape.truthy then r.reading else .gives a
  | .or l r => l.reading.bind fun a => if a.shape.truthy then .gives a else r.reading
  | _ => .stops

/-- How an expression comes to a plain value by asking for its names. -/
def plainly (e : Expr) : Reading Plain := e.reading.bind fun d => .ofOption d.plain?

variable {names : List String} {e : Expr}

theorem free_of_onlyReads (reads : e.onlyReads names = true) : e.hasCall = false := by
  fun_induction onlyReads names e <;> simp_all [hasCall]

theorem single_of_onlyReads (reads : e.onlyReads names = true) : e.isMultiple = false := by
  cases e <;> first | rfl | cases reads

/-- An expression asks for no names but its own. -/
theorem within_reading (reads : e.onlyReads names = true) : e.reading.Within names := by
  fun_induction onlyReads names e with
  | case6 x => exact ⟨List.contains_iff_mem.1 reads, fun _ => trivial⟩
  | case7 _ o key ih => exact (ih reads).bind fun d => Reading.within_ofOption _
  | case8 e ih => exact ih reads
  | case9 _ op e ih =>
    exact (ih (Bool.and_eq_true_iff.1 reads).1).bind fun d => Reading.within_ofOption _
  | case10 _ op l r left right =>
    obtain ⟨⟨readsL, readsR⟩, -⟩ : (l.onlyReads names = true ∧ r.onlyReads names = true) ∧ _ := by
      simpa only [Bool.and_eq_true] using reads
    exact (left readsL).bind fun a => (right readsR).bind fun b => Reading.within_ofOption _
  | case11 l r left right =>
    obtain ⟨readsL, readsR⟩ := Bool.and_eq_true_iff.1 reads
    refine (left readsL).bind fun a => ?_
    split
    · exact right readsR
    · trivial
  | case12 l r left right =>
    obtain ⟨readsL, readsR⟩ := Bool.and_eq_true_iff.1 reads
    refine (left readsL).bind fun a => ?_
    split
    · trivial
    · exact right readsR
  | case13 => cases reads
  | _ => trivial

theorem within_plainly (reads : e.onlyReads names = true) : e.plainly.Within names :=
  (within_reading reads).bind fun d => Reading.within_ofOption d.plain?

/-- An expression that is flat comes to no table. -/
theorem flat_of_isFlat {look : String → Sight} {d : Datum} (flat : e.isFlat = true)
    (gives : e.reading.run look = .gives d) : d.isFlat = true := by
  fun_induction isFlat e generalizing d with
  | case6 e ih => exact ih flat gives
  | case7 _ op e =>
    obtain ⟨a, -, result⟩ := Reading.run_bind_gives gives
    obtain ⟨v, -, rfl⟩ := Option.map_eq_some_iff.1 (Reading.run_ofOption_gives result)
    rfl
  | case8 _ op l r =>
    obtain ⟨a, -, rest⟩ := Reading.run_bind_gives gives
    obtain ⟨b, -, result⟩ := Reading.run_bind_gives rest
    obtain ⟨v, -, rfl⟩ := Option.map_eq_some_iff.1 (Reading.run_ofOption_gives result)
    rfl
  | case9 l r ih =>
    obtain ⟨a, -, rest⟩ := Reading.run_bind_gives gives
    split at rest
    · exact ih flat rest
    · rename_i falsy
      cases rest
      exact Datum.isFlat_of_falsy falsy
  | case10 l r left right =>
    obtain ⟨flatL, flatR⟩ := Bool.and_eq_true_iff.1 flat
    obtain ⟨a, came, rest⟩ := Reading.run_bind_gives gives
    split at rest
    · cases rest
      exact left flatL came
    · exact right flatR rest
  | case11 => cases flat
  | _ => cases gives; rfl

end Expr

/-- Whether evaluation ends as a reading does, and changes nothing but the list of faults. -/
def Outcome.Obeys (m : Machine) (o : Outcome Value Value) : Reading.Result Datum → Prop
  | .gives d => ∃ v, o = .done v m ∧ m.Stands v d
  | .unbound name => ∃ e m', o = .failed e m' ∧ m'.faultOf e = .unbound name ∧
    m' = { m with faults := m'.faults }
  | .stops => ∀ v m', o ≠ .done v m'
  | .unknown => True

section Obeying

open Code

variable {m : Machine} {look : String → Sight}

theorem Outcome.Obeys.gives {v : Value} {d : Datum} (stands : m.Stands v d) :
    Outcome.Obeys m (.done v m) ((Reading.gives d).run look) :=
  ⟨v, rfl, stands⟩

theorem Outcome.Amounts.obeys {o : Outcome Value Value} {r : Option Datum} (h : o.Amounts m r) :
    o.Obeys m ((Reading.ofOption r).run look) := by
  cases r <;> exact h

/-- What goes on with a value obeys what goes on with the datum. -/
theorem Outcome.Obeys.bind {x : Code Value Value} {g : Value → Code Value Value}
    {t : Reading Datum} {u : Datum → Reading Datum} (first : (x.exec m).Obeys m (t.run look))
    (then_ : ∀ v d, t.run look = .gives d → m.Stands v d →
      ((g v).exec m).Obeys m ((u d).run look)) :
    ((x >>= g).exec m).Obeys m ((t.bind u).run look) := by
  rw [exec_bind, Reading.run_bind]
  cases came : t.run look with
  | gives d =>
    rw [came] at first
    obtain ⟨v, done, stands⟩ := first
    rw [done]
    exact then_ v d came stands
  | unbound name =>
    rw [came] at first
    obtain ⟨e, m', failed, meant, changed⟩ := first
    rw [failed]
    exact ⟨e, m', rfl, meant, changed⟩
  | stops =>
    rw [came] at first
    intro v m' done
    cases ended : x.exec m with
    | done w m₁ => exact first w m₁ ended
    | failed e m₁ =>
      rw [ended] at done
      cases done
    | exhausted =>
      rw [ended] at done
      cases done
  | unknown => trivial

/-- Code that looks names up in a scope evaluates an expression as its reading says. -/
theorem Env.Open.obeys {env : Env} {depth n : Nat} {s : Scope} {ss : List Scope} {e : Expr}
    {names : List String} (opens : env.Open m s) (f : m.Furnished) (b : m.Below depth s ss)
    (sights : m.Sights ss look) (levels : 2 * depth + 1 < Site.levelLimit)
    (steps : Site.levelLimit ≤ n) (new : ∀ x ∈ names, x ∉ libraryNames ∧ x ≠ environmentName)
    (reads : e.onlyReads names = true) :
    ((env.value (within n) e).exec m).Obeys m (e.reading.run look) := by
  have calls (site : Site) (f : Value) (args : List Value) :
      (within n site f args).exec m = (within (n - 3 + 3) site f args).exec m := by
    rw [Nat.sub_add_cancel (Nat.le_trans (by decide) steps)]
  have room (line : Nat) : (env.caller (within n) line).site.levels + 1 < Site.levelLimit := by
    show env.activation.levels + 1 < Site.levelLimit
    rw [opens.levels]
    decide
  -- one case for each form of expression: its operands obey their readings, and its operator gives
  -- what it gives for the data
  fun_induction Expr.onlyReads names e with
  | case6 x =>
    obtain ⟨apart, other⟩ := new x (List.contains_iff_mem.1 reads)
    have answers := opens.answers other f b levels steps
    have sight := sights x apart
    rw [Expr.reading, Reading.run]
    cases seen : look x with
    | unbound =>
      simp only [seen] at sight
      rw [sight] at answers
      exact answers.unbound
    | data j =>
      simp only [seen] at sight
      obtain ⟨v, meaning, made⟩ := sight
      rw [meaning] at answers
      exact ⟨v, answers.done, made.stands⟩
    | other => trivial
  | case7 line o key ih =>
    have none_ : env.heldObject? o = none := opens.heldObject? fun is_ => by
      subst is_
      exact (new _ (List.contains_iff_mem.1 reads)).2 rfl
    simp only [Env.value, none_, Option.isSome_none, Bool.false_eq_true, if_false]
    exact (ih reads).bind fun v d _ stands => (index_amounts f _ 1998 stands key).obeys
  | case8 e ih => exact ih reads
  | case9 line op e ih =>
    obtain ⟨reads, apart⟩ := Bool.and_eq_true_iff.1 reads
    refine (ih reads).bind fun v d came stands => ?_
    refine (stands.unary f _ (n - 3) calls (room line) op fun length => ?_).obeys
    subst length
    exact Expr.flat_of_isFlat (by simpa using apart) came
  | case10 line op l r left right =>
    obtain ⟨⟨readsL, readsR⟩, apart⟩ :
        (l.onlyReads names = true ∧ r.onlyReads names = true) ∧ _ := by
      simpa only [Bool.and_eq_true] using reads
    simp only [Env.value, opens.heldLeft?, Option.isSome_none, Bool.false_eq_true, if_false]
    refine (left readsL).bind fun v da cameL sa => ?_
    refine (right readsR).bind fun w db cameR sb => ?_
    refine (sa.binary f _ (n - 3) calls (room line) sb op fun equality => ?_).obeys
    have flat : l.isFlat = true ∨ r.isFlat = true := by
      rcases equality with rfl | rfl <;> simpa using apart
    exact flat.imp (Expr.flat_of_isFlat · cameL) (Expr.flat_of_isFlat · cameR)
  | case11 l r left right =>
    obtain ⟨readsL, readsR⟩ := Bool.and_eq_true_iff.1 reads
    refine (left readsL).bind fun v d _ stands => ?_
    rw [stands.truthy]
    split
    · exact right readsR
    · exact .gives stands
  | case12 l r left right =>
    obtain ⟨readsL, readsR⟩ := Bool.and_eq_true_iff.1 reads
    refine (left readsL).bind fun v d _ stands => ?_
    rw [stands.truthy]
    split
    · exact .gives stands
    · exact right readsR
  | case13 => cases reads
  | _ => exact .gives ⟨rfl, rfl⟩

end Obeying

/-- What becomes of a placeholder when its expression obeys a reading. -/
theorem Outcome.Obeys.follows {m m₁ : Machine} {look : String → Sight} {o : Outcome Value Value}
    {t : Reading Datum} (obeys : o.Obeys m₁ (t.run look)) (adds : m.Adds m₁)
    (grows : (o.andThen .done fun v m => .failed (EvalError.ofFault (m.faultOf v)) m).After m.Grows) :
    (o.andThen .done fun v m => .failed (EvalError.ofFault (m.faultOf v)) m).Follows m
      ((t.bind fun d => .ofOption d.plain?).run look) := by
  rw [Reading.run_bind]
  cases came : t.run look with
  | gives d =>
    rw [came] at obeys
    obtain ⟨v, rfl, stands⟩ := obeys
    simp only [Outcome.andThen_done]
    cases plain : d.plain? with
    | some p => exact ⟨m₁, by rw [(stands.plain p).1 plain], adds⟩
    | none =>
      intro p m' same
      cases same
      rw [(stands.plain p).2 rfl] at plain
      cases plain
  | unbound name =>
    rw [came] at obeys
    obtain ⟨e, m', rfl, meant, changed⟩ := obeys
    rw [Outcome.andThen_failed, meant] at grows ⊢
    exact ⟨m', rfl, adds.faulted grows changed⟩
  | stops =>
    rw [came] at obeys
    intro p m' done
    cases o with
    | done v m₂ => exact obeys v m₂ rfl
    | failed => cases done
    | exhausted => cases done
  | unknown => trivial

/-- A placeholder that consists of an expression without calls is described by its reading. -/
theorem Expr.describes (names : List String) {depth : Nat} {source : String} {e : Expr}
    (text : Text.has '\x00' source = false)
    (parsed : Chunk.parse 0 (returning (Bytes.ofString source)) = .ok [.ret [e]])
    (reads : e.onlyReads names = true) (new : ∀ x ∈ names, x ∉ libraryNames ∧ x ≠ environmentName)
    (levels : 2 * depth + 1 < Site.levelLimit) : Describes depth source e.plainly := by
  intro m s ss look f b sights
  obtain ⟨n, budget, enough⟩ := f.steps
  have adds := m.adds_loaded s source [.ret [e]]
  have obeys := (placeholderEnv_open m s source [.ret [e]]).obeys (adds.furnished f)
    (adds.below b) (adds.sights b sights) levels (show Site.levelLimit ≤ n + 5 by omega) new reads
  have evaluated := eval_free (m := m) (s := s) text parsed (free_of_onlyReads reads)
    (single_of_onlyReads reads) budget
  have grows := eval_quiet s source m
  rw [evaluated] at grows ⊢
  exact obeys.follows adds grows

/-- Whether a placeholder consists of an expression without calls that asks for some names only. -/
def asksOnly (names : List String) (source : String) : Bool :=
  !Text.has '\x00' source && match Chunk.parse 0 (returning (Bytes.ofString source)) with
    | .ok [.ret [e]] => e.onlyReads names
    | _ => false

end Lua

/-- A placeholder without calls only reads names, and no others than its own. -/
theorem describes_of_asksOnly {depth : Nat} {source : String} {names : List String}
    (asks : asksOnly names source = true) (new : ∀ x ∈ names, x ∉ libraryNames ∧ x ≠ environmentName)
    (levels : 2 * depth + 1 < Site.levelLimit) :
    ∃ t, Describes depth source t ∧ t.Within names := by
  obtain ⟨text, expression⟩ := Bool.and_eq_true_iff.1 asks
  split at expression
  · rename_i e parsed
    exact ⟨e.plainly, e.describes names (by simpa using text) parsed expression new levels,
      Expr.within_plainly expression⟩
  · cases expression

set_option maxRecDepth 100000 in
example : ∃ t, Describes 2 "item.name .. ':' .. (index + 1)" t ∧ t.Within ["item", "index"] :=
  describes_of_asksOnly (by decide +kernel) (by decide) (by decide)

end Tasklang
