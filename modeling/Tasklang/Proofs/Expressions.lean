import Tasklang.Proofs.Furnished

/-! # Expressions that only read names

An expression without side effects that neither catches errors nor looks into its environment asks
for names, one after the other, and goes on with the data that they stand for; it ends at the first
one that is unbound. So much can be said of it by a tree, in whatever scopes it is evaluated.
-/

namespace Tasklang

open Lua

/-- What is known of a name. -/
inductive Sight where
  | unbound
  | data (j : Json)
  /-- It stands for a value that is not known. -/
  | other

/-- How an expression comes to its value by asking for names. -/
inductive Reading (α : Type) where
  | gives (a : α)
  /-- It comes to no value of interest. -/
  | stops
  | asks (name : String) (next : Json → Reading α)

namespace Reading

variable {α β : Type}

/-- What a reading comes to. -/
inductive Result (α : Type) where
  | gives (a : α)
  | unbound (name : String)
  | stops
  /-- It asked for a name that stands for an unknown value. -/
  | unknown

def run (look : String → Sight) : Reading α → Result α
  | gives a => .gives a
  | stops => .stops
  | asks name next => match look name with
    | .unbound => .unbound name
    | .data j => (next j).run look
    | .other => .unknown

/-- Whether data that is seen on one side is seen on the other as well. -/
def Refines (look look' : String → Sight) : Prop := ∀ name j, look name = .data j → look' name = .data j

variable {look look' : String → Sight}

/-- Where more is known, a reading that came to a value comes to the same. -/
theorem run_gives (more : Refines look look') {t : Reading α} {a : α}
    (h : t.run look = .gives a) : t.run look' = .gives a := by
  induction t with
  | gives b => exact h
  | stops => cases h
  | asks name next ih =>
    rw [run] at h ⊢
    cases sight : look name with
    | unbound => simp only [sight, reduceCtorEq] at h
    | other => simp only [sight, reduceCtorEq] at h
    | data j =>
      simp only [sight] at h
      simp only [more name j sight]
      exact ih j h

theorem run_stops (more : Refines look look') {t : Reading α} (h : t.run look = .stops) :
    t.run look' = .stops := by
  induction t with
  | gives b => cases h
  | stops => rfl
  | asks name next ih =>
    rw [run] at h ⊢
    cases sight : look name with
    | unbound => simp only [sight, reduceCtorEq] at h
    | other => simp only [sight, reduceCtorEq] at h
    | data j =>
      simp only [sight] at h
      simp only [more name j sight]
      exact ih j h

/-- Where nothing unknown is seen, a reading comes to something known. -/
theorem run_known (known : ∀ name, look name ≠ .other) (t : Reading α) :
    t.run look ≠ .unknown := by
  induction t with
  | gives a => nofun
  | stops => nofun
  | asks name next ih =>
    rw [run]
    cases sight : look name with
    | unbound => nofun
    | other => exact absurd sight (known name)
    | data j => exact ih j

/-- Whether a reading asks for some names only. -/
def Within (names : List String) : Reading α → Prop
  | gives _ => True
  | stops => True
  | asks name next => name ∈ names ∧ ∀ j, (next j).Within names

theorem run_within {names : List String} {t : Reading α} (within : t.Within names)
    (same : ∀ name ∈ names, look name = look' name) : t.run look = t.run look' := by
  induction t with
  | gives a => rfl
  | stops => rfl
  | asks name next ih =>
    rw [run, run, same name within.1]
    cases look' name with
    | unbound => rfl
    | data j => exact ih j (within.2 j)
    | other => rfl

end Reading

namespace Lua

/-- What names outside the library stand for below some scopes. -/
def Machine.Sights (m : Machine) (ss : List Scope) (look : String → Sight) : Prop :=
  ∀ name ∉ libraryNames, match look name with
    | .unbound => m.meaning? name ss = none
    | .data j => ∃ v, m.meaning? name ss = some v ∧ m.Made v j
    | .other => m.meaning? name ss ≠ none

/-- What is seen of a name when nothing is known of the value that it stands for. -/
def Machine.sight (m : Machine) (ss : List Scope) (name : String) : Sight :=
  match m.meaning? name ss with
  | some _ => .other
  | none => .unbound

theorem Machine.sights_sight (m : Machine) (ss : List Scope) : m.Sights ss (m.sight ss) := by
  intro name _
  unfold sight
  cases m.meaning? name ss <;> simp

theorem Machine.Adds.sights {depth : Nat} {m m' : Machine} {s : Scope} {ss : List Scope}
    {look : String → Sight} (h : m.Adds m') (b : m.Below depth s ss) (sights : m.Sights ss look) :
    m'.Sights ss look := by
  intro name new
  have sight := sights name new
  rw [h.meaning b]
  cases seen : look name with
  | unbound =>
    simp only [seen] at sight
    exact sight
  | data j =>
    simp only [seen] at sight
    obtain ⟨v, meaning, made⟩ := sight
    exact ⟨v, meaning, h.made made⟩
  | other =>
    simp only [seen] at sight
    exact sight

/-- Whether evaluation ends as a reading does, and adds to the machine at most. -/
def Outcome.Follows (m : Machine) (o : Outcome EvalError Value) : Reading.Result Plain → Prop
  | .gives p => ∃ m', o = .done p.value m' ∧ m.Adds m'
  | .unbound name => ∃ m', o = .failed (.unbound name) m' ∧ m.Adds m'
  | .stops => ∀ (p : Plain) (m' : Machine), o ≠ .done p.value m'
  | .unknown => True

end Lua

/-- Whether a placeholder is evaluated as a reading says, wherever the library is as it was at the
start, below at most so many scopes. -/
def Describes (depth : Nat) (source : String) (t : Reading Plain) : Prop :=
  ∀ (m : Machine) (s : Scope) (ss : List Scope) (look : String → Sight),
    m.Furnished → m.Below depth s ss → m.Sights ss look →
      (s.eval source m).Follows m (t.run look)

/-- Whether a placeholder only reads names: its value depends on the data that they stand for, it
fails on the first one that is unbound, and it changes nothing. -/
def Reads (depth : Nat) (source : String) : Prop := ∃ t, Describes depth source t

/-! ## Names -/

/-- The plain value of data. -/
def Json.plain? : Json → Option Plain
  | .str s => some (.text s)
  | .bool b => some (.truth b)
  | .int n =>
    if Json.leastInt ≤ n ∧ n ≤ Json.greatestInt then some (.whole (Int64.ofInt n)) else none
  | _ => none

theorem Json.plain?_made {ε : Type} {j : Json} {v : Value} {m m' : Machine}
    (made : (Value.make .nil j : Code ε Value).exec m = .done v m') (p : Plain) :
    j.plain? = some p ↔ v = p.value := by
  cases j with
  | int n =>
    simp only [Value.make, Code.exec_pure, Outcome.done.injEq] at made
    obtain ⟨rfl, -⟩ := made
    simp only [plain?, Value.ofInt]
    split <;> cases p <;> simp [Plain.value, Value.ofString]
  | arr items =>
    simp only [Value.make, Code.bind_done, Code.exec_pure, Outcome.done.injEq] at made
    obtain ⟨r, _, _, _, _, _, rfl, _⟩ := made
    cases p <;> simp [plain?, Plain.value, Value.ofString]
  | obj entries =>
    simp only [Value.make, Code.bind_done, Code.exec_pure, Outcome.done.injEq] at made
    obtain ⟨r, _, _, _, _, _, rfl, _⟩ := made
    cases p <;> simp [plain?, Plain.value, Value.ofString]
  | _ =>
    simp only [Value.make, Code.exec_pure, Outcome.done.injEq] at made
    obtain ⟨rfl, -⟩ := made
    cases p <;> simp [plain?, Plain.value, Value.ofString, Bytes.ofString_injective.eq_iff]

/-- What is read where a placeholder is a name. -/
def Reading.ofName (name : String) : Reading Plain :=
  .asks name fun j => match j.plain? with
    | some p => .gives p
    | none => .stops

namespace Lua

/-- Loading the code of a placeholder adds a cell and a function. -/
theorem Machine.adds_loaded (m : Machine) (s : Scope) (source : String) (chunk : Chunk) :
    m.Adds (m.loaded s source chunk) where
  grows := m.grows_loaded s source chunk
  tables _ _ := rfl
  cells _ hc := getD_push_other m.cells .nil (Nat.ne_of_lt hc) _
  world := rfl

/-- Whether code looks names up in a scope: it has no variables of its own, and stands where a call
from outside leads. -/
structure Env.Open (env : Env) (m : Machine) (s : Scope) : Prop where
  own : env.size = 0
  free : ∀ name ≠ environmentName, env.cell? name = none
  globals : (env.globals : Code Value Value).exec m = .done (.table (m.seat s)) m
  levels : env.activation.levels = 1

theorem placeholderEnv_open (m : Machine) (s : Scope) (source : String) (chunk : Chunk) :
    (placeholderEnv m source).Open (m.loaded s source chunk) s where
  own := rfl
  free name other := by simp [Env.cell?, placeholderEnv, List.lookup, beq_false_of_ne other]
  globals := placeholderEnv_globals m s source chunk
  levels := rfl

/-- Code without variables of its own holds no operand in one. -/
theorem Env.Open.held? {env : Env} {m : Machine} {s : Scope} (opens : env.Open m s) (e : Expr) :
    env.held? e = none := by
  fun_induction Env.held? env e with
  | case1 x => rw [Env.ownCell?, opens.own, Env.lookupWithin.eq_def]
  | case2 e ih => exact ih
  | case3 => rfl

theorem Env.Open.heldObject? {env : Env} {m : Machine} {s : Scope} (opens : env.Open m s) {e : Expr}
    (other : e ≠ .name environmentName) : env.heldObject? e = none := by
  unfold Env.heldObject?
  split
  · exact opens.free _ fun is_ => other (by rw [is_])
  · exact opens.held? _

theorem Env.Open.heldLeft? {env : Env} {m : Machine} {s : Scope} (opens : env.Open m s)
    (op : BinaryOp) (e : Expr) : env.heldLeft? op e = none := by
  unfold Env.heldLeft?
  split
  · rfl
  · exact opens.held? _

/-- Code that looks names up in a scope gets what they stand for. -/
theorem Env.Open.answers {env : Env} {depth n : Nat} {name : String} {m : Machine} {s : Scope}
    {ss : List Scope} (opens : env.Open m s) (other : name ≠ environmentName) (f : m.Furnished)
    (b : m.Below depth s ss) (levels : 2 * depth + 1 < Site.levelLimit)
    (steps : Site.levelLimit ≤ n) :
    ((env.value (within n) (.name name)).exec m).Answers m name (m.meaning? name ss) := by
  have few := b.few
  simp only [Env.value, opens.free name other, Code.exec_bind, opens.globals,
    Outcome.andThen_done]
  refine index_seat b.chain (b.proper name) (fun _ => f.plain) _ n 1999 (fun _ _ _ => rfl)
    (by omega) ?_
  show env.activation.levels + 2 * ss.length < Site.levelLimit
  rw [opens.levels]
  omega

/-- Evaluating a name below some scopes. -/
theorem IsName.eval {depth : Nat} {source name : String} {m : Machine} {s : Scope}
    {ss : List Scope} (is_ : IsName source name) (f : m.Furnished) (b : m.Below depth s ss)
    (levels : 2 * depth + 1 < Site.levelLimit) :
    match m.meaning? name ss with
    | some v => ∃ m', s.eval source m = .done v m' ∧ m.Adds m'
    | none => ∃ m', s.eval source m = .failed (.unbound name) m' ∧ m.Adds m' := by
  obtain ⟨text, other, parsed⟩ := is_
  obtain ⟨n, budget, enough⟩ := f.steps
  have adds := m.adds_loaded s source [.ret [.name name]]
  have answers := (placeholderEnv_open m s source [.ret [.name name]]).answers other
    (adds.furnished f) (adds.below b) levels (show Site.levelLimit ≤ n + 5 by omega)
  rw [adds.meaning b] at answers
  have evaluated := eval_free (m := m) (s := s) text parsed rfl rfl budget
  have grows := eval_quiet s source m
  rw [evaluated] at grows ⊢
  cases meaning : m.meaning? name ss with
  | some v =>
    rw [meaning] at answers
    rw [answers.done]
    exact ⟨_, rfl, adds⟩
  | none =>
    rw [meaning] at answers
    obtain ⟨e, m', failed, meant, changed⟩ := answers.unbound
    rw [failed, Outcome.andThen_failed, meant] at grows ⊢
    exact ⟨m', rfl, adds.faulted grows changed⟩

/-- A placeholder that is a name, and no name of the library, only reads that name. -/
theorem IsName.describes {depth : Nat} {source name : String} (is_ : IsName source name)
    (new : name ∉ libraryNames) (levels : 2 * depth + 1 < Site.levelLimit) :
    Describes depth source (.ofName name) := by
  intro m s ss look f b sights
  have evaluated := is_.eval f b levels
  have sight := sights name new
  rw [Reading.ofName, Reading.run]
  cases seen : look name with
  | unbound =>
    simp only [seen] at sight
    rw [sight] at evaluated
    exact evaluated
  | data j =>
    simp only [seen] at sight
    obtain ⟨v, meaning, _, _, _, made, -⟩ := sight
    rw [meaning] at evaluated
    obtain ⟨m', evaluated, adds⟩ := evaluated
    have plain := Json.plain?_made made
    simp only
    cases found : j.plain? with
    | some p =>
      refine ⟨m', ?_, adds⟩
      rw [evaluated, (plain p).1 found]
    | none =>
      intro p m'' done
      rw [evaluated] at done
      cases done
      rw [(plain p).2 rfl] at found
      cases found
  | other => trivial

end Lua

end Tasklang
