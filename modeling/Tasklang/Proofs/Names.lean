import Mathlib
import Tasklang.Lua.Evaluation
import Tasklang.Proofs.Scopes

/-! # What a name stands for

A name stands for what the innermost scope that declares it holds. A name that no scope declares
stands for a global, and one that is no global either is unbound. This is what looking up a name from
outside code gives: it goes from the table of a scope to its metatable and from there, by calls that
take steps and nest, to the scope around it.
-/

namespace Tasklang.Lua

open Code

/-- Looking up a text in a table only reads a field. -/
theorem lookUp_str {ε : Type} (r : TableRef) (key : Bytes) (m : Machine) :
    (lookUp r (.str key) : Code ε Value).exec m = .done ((m.tables.getD r {}).named key) m := by
  have same : changeAt m.tables r (fun t => t.touch (.str key)) = m.tables := by
    apply Array.ext_getElem?
    intro i
    simp [changeAt, Array.getElem?_modify]
  simp only [lookUp, Table.get_str, same]
  split <;> rfl

@[simp] theorem lookUp_ofString {ε : Type} (r : TableRef) (name : String) (m : Machine) :
    (lookUp r (.ofString name) : Code ε Value).exec m =
      .done ((m.tables.getD r {}).field name) m :=
  lookUp_str r _ m

/-- How functions are called by code that may take so many steps. -/
def within (n : Nat) : Apply := fun site f args => run n (.running (.call site f args) [])

section Calls

variable (m : Machine)

theorem exec_run_succ (n : Nat) (s : State) :
    (run (n + 1) s).exec m = repeatFrom (fun s => (turn (within n) s).exec) (n + 1) s m := rfl

theorem turn_library (apply : Apply) (site : Site) {f : Function} (args : List Value)
    (native : ∀ ref, f ≠ .closure ref) :
    (turn apply (.running (.call site (.function f) args) [])).exec m =
      ((applyLibrary ⟨site, apply⟩ f args).exec m).andThen
        (fun vs => .done (.inl (.running (.giveAll vs) []))) .failed := by
  have called : (Transition.call apply site (.function f) args []).exec m =
      (applyLibrary ⟨site, apply⟩ f args >>= fun vs => Transition.go (.giveAll vs) []).exec m := by
    cases f with
    | closure ref => exact absurd rfl (native ref)
    | _ => rfl
  simp only [turn, step, exec_branch, called, exec_bind]
  cases (applyLibrary ⟨site, apply⟩ f args).exec m <;> rfl

/-- A library function that is called from outside takes three steps. -/
theorem run_library (n : Nat) (site : Site) {f : Function} (args : List Value)
    (native : ∀ ref, f ≠ .closure ref) :
    (run (n + 3) (.running (.call site (.function f) args) [])).exec m =
      (applyLibrary ⟨site, within (n + 2)⟩ f args).exec m := by
  rw [exec_run_succ, repeatFrom, turn_library m _ site args native]
  cases (applyLibrary ⟨site, within (n + 2)⟩ f args).exec m <;> rfl

end Calls

namespace Machine

variable {m : Machine}

/-- Whether names are looked up among the globals without a metatable. -/
def PlainGlobals (m : Machine) : Prop := (m.tables.getD globalsRef {}).metatable = none

/-- The scopes from one outward. -/
inductive Chain (m : Machine) : Scope → List Scope → Prop where
  | outermost {s : Scope} : s.id < m.scopes.size → m.outer? s = none → Chain m s [s]
  | inside {s o : Scope} {ss : List Scope} :
    s.id < m.scopes.size → m.outer? s = some o → Chain m o ss → Chain m s (s :: ss)

theorem Chain.mem_valid {s : Scope} {ss : List Scope} (h : m.Chain s ss) :
    ∀ t ∈ ss, t.id < m.scopes.size := by
  induction h with
  | outermost hs _ =>
    intro t ht
    cases List.mem_singleton.1 ht
    exact hs
  | inside hs _ _ ih =>
    intro t ht
    rcases List.mem_cons.1 ht with rfl | ht
    · exact hs
    · exact ih t ht

/-- Around the last scope of a chain there is none. -/
theorem Chain.outer_of_last {s t : Scope} {ss : List Scope} (h : m.Chain s ss)
    (last : ss.getLast? = some t) : m.outer? t = none := by
  induction h with
  | outermost _ none =>
    cases last
    exact none
  | @inside s o ss _ _ chain ih =>
    cases chain <;> exact ih last

theorem Chain.valid {s : Scope} {ss : List Scope} (h : m.Chain s ss) : s.id < m.scopes.size := by
  cases h with
  | outermost hs _ => exact hs
  | inside hs _ _ => exact hs

/-- The scopes from one outward are given by it. -/
theorem Chain.unique {s : Scope} {ss ss' : List Scope} (h : m.Chain s ss) (h' : m.Chain s ss') :
    ss = ss' := by
  induction h generalizing ss' with
  | outermost _ last =>
    cases h' with
    | outermost => rfl
    | inside _ next _ => rw [last] at next; cases next
  | inside _ next _ ih =>
    cases h' with
    | outermost _ last => rw [last] at next; cases next
    | inside _ next' rest =>
      rw [next] at next'
      cases next'
      rw [ih rest]

theorem Chain.from_mem {s t : Scope} {ss : List Scope} (h : m.Chain s ss) (ht : t ∈ ss) :
    ∃ before after, ss = before ++ after ∧ m.Chain t after := by
  induction h with
  | outermost hs last =>
    cases List.mem_singleton.1 ht
    exact ⟨[], _, rfl, .outermost hs last⟩
  | inside hs next chain ih =>
    rcases List.mem_cons.1 ht with rfl | ht
    · exact ⟨[], _, rfl, .inside hs next chain⟩
    · obtain ⟨before, after, rfl, rest⟩ := ih ht
      exact ⟨_ :: before, after, rfl, rest⟩

/-- No scope is around itself. -/
theorem Chain.nodup {s : Scope} {ss : List Scope} (h : m.Chain s ss) : ss.Nodup := by
  induction h with
  | outermost => exact List.nodup_singleton _
  | @inside s o ss hs next chain ih =>
    refine List.nodup_cons.2 ⟨fun again => ?_, ih⟩
    obtain ⟨before, after, rfl, rest⟩ := chain.from_mem again
    have same := congrArg List.length (rest.unique (.inside hs next chain))
    simp only [List.length_cons, List.length_append] at same
    omega

/-- There are no more scopes around one than there are at all. -/
theorem Chain.length_le {s : Scope} {ss : List Scope} (h : m.Chain s ss) :
    ss.length ≤ m.scopes.size := by
  have nodup : (ss.map Scope.id).Nodup := h.nodup.map fun s t same => by
    cases s
    cases t
    cases same
    rfl
  have valid : ss.map Scope.id ⊆ List.range m.scopes.size := by
    intro n hn
    obtain ⟨t, ht, rfl⟩ := List.mem_map.1 hn
    exact List.mem_range.2 (h.mem_valid t ht)
  simpa using (nodup.subperm valid).length_le

/-- Whether a scope is as it was made, in what concerns a name: wired, and with nothing for the name
unless it declares it. -/
structure Proper (m : Machine) (name : String) (s : Scope) : Prop where
  wired : m.Wired s
  bare : ¬m.Declares s name → m.held s name = .nil

/-- The value of the innermost of some scopes that declares a name. -/
def binding? (m : Machine) (name : String) : List Scope → Option Value
  | [] => none
  | s :: ss => if name ∈ (m.record s).declared then some (m.held s name) else binding? m name ss

/-- What a name stands for below some scopes, unless it is unbound. -/
def meaning? (m : Machine) (name : String) (ss : List Scope) : Option Value :=
  match m.binding? name ss with
  | some v => some v
  | none => match m.global name with
    | .nil => none
    | v => some v

end Machine

/-- An outcome that agrees with what a name stands for: nothing else has changed, and the fault of
an unbound name is a new one. -/
def Outcome.Answers (m : Machine) (name : String) (r : Option Value) : Outcome Value Value → Prop
  | .done v m' => r = some v ∧ m' = m
  | .failed e m' =>
    r = none ∧ m'.faultOf e = .unbound name ∧ m' = { m with faults := m'.faults }
  | .exhausted => False

namespace Outcome.Answers

variable {m : Machine} {name : String} {o : Outcome Value Value}

theorem done {v : Value} (h : o.Answers m name (some v)) : o = .done v m := by
  cases o with
  | done w m' =>
    obtain ⟨same, rfl⟩ := h
    cases same
    rfl
  | failed e m' => cases h.1
  | exhausted => cases h

theorem unbound (h : o.Answers m name none) : ∃ e m', o = .failed e m' ∧
    m'.faultOf e = .unbound name ∧ m' = { m with faults := m'.faults } := by
  cases o with
  | done w m' => cases h.1
  | failed e m' => exact ⟨e, m', rfl, h.2⟩
  | exhausted => cases h

end Outcome.Answers

namespace Machine

variable {m : Machine}

theorem meaning?_declared {name : String} {s : Scope} (ss : List Scope)
    (h : m.Declares s name) : m.meaning? name (s :: ss) = some (m.held s name) := by
  simp only [meaning?, binding?, if_pos (show name ∈ (m.record s).declared from h)]

theorem meaning?_inside {name : String} {s : Scope} (ss : List Scope)
    (h : ¬m.Declares s name) : m.meaning? name (s :: ss) = m.meaning? name ss := by
  simp only [meaning?, binding?, if_neg (show ¬name ∈ (m.record s).declared from h)]

end Machine

section Lookup

variable {m : Machine}

theorem exec_deeper (c : Caller) (room : c.site.levels + 1 < Site.levelLimit) :
    (c.deeper).exec m =
      .done { c with site := { c.site with levels := c.site.levels + 1, callee := .unknown } } m := by
  simp only [Caller.deeper, if_neg (Nat.not_le.2 room), exec_pure]

/-- A field that is there is the value of its name. -/
theorem index_field (c : Caller) (hops : Nat) (r : TableRef) (name : String)
    (there : (m.tables.getD r {}).field name ≠ .nil) :
    (index c (hops + 1) (.table r) (.ofString name)).exec m =
      .done ((m.tables.getD r {}).field name) m := by
  simp only [index, exec_bind, lookUp_ofString, Outcome.andThen_done]
  rfl

/-- A table without a metatable answers with a field or with nil. -/
theorem index_plain (c : Caller) (hops : Nat) (r : TableRef) (name : String)
    (plain : (m.tables.getD r {}).metatable = none) :
    (index c (hops + 1) (.table r) (.ofString name)).exec m =
      .done ((m.tables.getD r {}).field name) m := by
  by_cases there : (m.tables.getD r {}).field name = .nil
  · simp only [index, exec_bind, lookUp_ofString, Outcome.andThen_done, there, exec_table, plain,
      exec_pure]
  · exact index_field c hops r name there

/-- A table that holds nothing for a name asks the function of its metatable. -/
theorem index_asks (c : Caller) (hops : Nat) (r : TableRef) (name : String) {place : TableRef}
    {f : Function} (absent : (m.tables.getD r {}).field name = .nil)
    (asks : (m.tables.getD r {}).metatable = some place)
    (answers : (m.tables.getD place {}).field "__index" = .function f) :
    (index c (hops + 1) (.table r) (.ofString name)).exec m =
      ((c.call (.function f) [.table r, .ofString name]).exec m).andThen
        (fun vs => .done (first vs)) .failed := by
  simp only [index, exec_bind, lookUp_ofString, Outcome.andThen_done, absent, exec_table, asks,
    answers, Value.isFunction, if_true]
  rfl

theorem first_of_one (o : Outcome Value Value) :
    (o.andThen (fun v => (Pure.pure [v] : Code Value (List Value)).exec) .failed).andThen
      (fun vs => .done (first vs)) .failed = o := by
  cases o <;> rfl

/-- A scope that holds nothing for a name is asked, one call further down. -/
theorem index_asks_scope {s : Scope} {name : String} (c : Caller) (n hops : Nat)
    (calls : ∀ site f args, (c.apply site f args).exec m = (within (n + 3) site f args).exec m)
    (room : c.site.levels + 1 < Site.levelLimit) (absent : m.held s name = .nil)
    (wired : m.Wired s) :
    ∃ site : Site, site.levels = c.site.levels + 1 ∧
      (index c (hops + 1) (.table (m.seat s)) (.ofString name)).exec m =
        (s.lookup ⟨site, within (n + 2)⟩ (.ofString name)).exec m := by
  refine ⟨{ c.site with levels := c.site.levels + 1, callee := .unknown }, rfl, ?_⟩
  rw [index_asks c hops (m.seat s) name absent wired.1 wired.2, Caller.call, exec_bind,
    exec_deeper c room, Outcome.andThen_done, calls, within, run_library m n _ _ (by simp)]
  simp only [applyLibrary, exec_bind]
  exact first_of_one _

/-- What a scope answers for a name. -/
theorem exec_lookup (c : Caller) {s : Scope} (there : s.id < m.scopes.size) (name : String) :
    (s.lookup c (.ofString name)).exec m =
      if name ∈ (m.record s).declared then .done .nil m
      else match m.outer? s with
        | some o => (Scope.lookupAround c o name).exec m
        | none => Scope.orUnbound name ((Scope.lookupGlobal c name).exec m) := by
  have found : m.scopes[s.id]? = some (m.record s) := by
    simp [Machine.record, Array.getD_eq_getD_getElem?, Array.getElem?_eq_getElem there]
  simp only [Scope.lookup, Value.ofString, Bytes.decodeLossy_ofString, Scope.lookupName,
    Machine.standing, found, List.contains_iff_mem, Machine.outer?]
  by_cases declared : name ∈ (m.record s).declared
  · simp only [if_pos declared]
  · simp only [if_neg declared]
    cases (m.record s).outer <;> rfl

/-- Outside of all scopes, a name stands for a global. -/
theorem lookupGlobal_answers (name : String) (plain : m.global name = .nil → m.PlainGlobals)
    (c : Caller) (room : c.site.levels + 1 < Site.levelLimit) :
    (Scope.orUnbound name ((Scope.lookupGlobal c name).exec m)).Answers m name
      (m.meaning? name []) := by
  by_cases absent : m.global name = .nil
  · have found : (index c.native (1999 + 1) (.table globalsRef) (.ofString name)).exec m =
        .done (m.global name) m := index_plain c.native 1999 globalsRef name (plain absent)
    simp only [Scope.lookupGlobal, exec_bind, exec_hosted, exec_table, Outcome.andThen_done,
      show (m.tables.getD globalsRef {}).metatable = none from plain absent, exec_pure,
      show metaHops = 1999 + 1 from rfl, found, Machine.meaning?, Machine.binding?, absent]
    exact ⟨rfl, Machine.faultOf_new m _, rfl⟩
  · have found (c : Caller) : (index c (1999 + 1) (.table globalsRef) (.ofString name)).exec m =
        .done (m.global name) m := index_field c 1999 globalsRef name absent
    have deeper := @exec_deeper m c.native room
    simp only [Scope.lookupGlobal, exec_bind, exec_hosted, exec_table, Outcome.andThen_done,
      show metaHops = 1999 + 1 from rfl, Machine.meaning?, Machine.binding?]
    cases (m.tables.getD globalsRef {}).metatable with
    | none =>
      simp only [exec_pure, Outcome.andThen_done, found]
      cases hv : m.global name with
      | nil => exact absurd hv absent
      | _ => exact ⟨rfl, rfl⟩
    | some place =>
      simp only [deeper, Outcome.andThen_done, found]
      cases hv : m.global name with
      | nil => exact absurd hv absent
      | _ => exact ⟨rfl, rfl⟩

/-- An unbound name stays unbound where a computation of the host passes the fault on. -/
theorem hosted_answers {x : Code Value Value} {name : String} {r : Option Value}
    (h : (x.exec m).Answers m name r) : ((hosted x).exec m).Answers m name r := by
  rw [exec_hosted]
  cases hx : x.exec m with
  | done v m' =>
    rw [hx] at h
    exact h
  | failed e m' =>
    rw [hx] at h
    obtain ⟨hr, he, hm⟩ := h
    refine ⟨hr, (Machine.faultOf_new m' _).trans he, ?_⟩
    show { m' with faults := m'.faults.push _ } = { m with faults := m'.faults.push _ }
    rw [hm]
  | exhausted =>
    rw [hx] at h
    exact h

/-- Within a scope, a name stands for what the scopes outward or the globals say. The induction is
on the scopes outward; every one of them takes a call of its own, three steps and two levels. -/
theorem index_seat {s : Scope} {ss : List Scope} (chain : m.Chain s ss) {name : String}
    (proper : ∀ t ∈ ss, m.Proper name t) (plain : m.meaning? name ss = none → m.PlainGlobals)
    (c : Caller) (n hops : Nat)
    (calls : ∀ site f args, (c.apply site f args).exec m = (within n site f args).exec m)
    (steps : ss.length + 2 ≤ n) (levels : c.site.levels + 2 * ss.length < Site.levelLimit) :
    ((index c (hops + 1) (.table (m.seat s)) (.ofString name)).exec m).Answers m name
      (m.meaning? name ss) := by
  induction chain generalizing c n hops with
  | @outermost s inside last =>
    simp only [List.length_cons, List.length_nil] at steps levels
    obtain ⟨k, rfl⟩ := Nat.exists_eq_add_of_le steps
    by_cases absent : m.held s name = .nil
    · obtain ⟨site, hsite, asked⟩ := index_asks_scope c k hops
        (fun site f args => by rw [calls, Nat.add_comm]) (by omega) absent
        (proper s (.head _)).wired
      rw [asked, exec_lookup _ inside, last]
      split
      · rename_i declared
        rw [Machine.meaning?_declared _ declared, absent]
        exact ⟨rfl, rfl⟩
      · rename_i new
        rw [Machine.meaning?_inside _ new]
        refine lookupGlobal_answers name (fun nothing => plain ?_) _ (by simp only; omega)
        rw [Machine.meaning?_inside _ new, Machine.meaning?, Machine.binding?, nothing]
    · have declared : m.Declares s name := by
        by_contra new
        exact absent ((proper s (.head _)).bare new)
      rw [index_field c hops _ name absent, Machine.meaning?_declared _ declared]
      exact ⟨rfl, rfl⟩
  | @inside s o ss inside next chain ih =>
    simp only [List.length_cons] at steps levels
    obtain ⟨k, rfl⟩ := Nat.exists_eq_add_of_le (show 3 ≤ n by omega)
    by_cases absent : m.held s name = .nil
    · obtain ⟨site, hsite, asked⟩ := index_asks_scope c k hops
        (fun site f args => by rw [calls, Nat.add_comm]) (by omega) absent
        (proper s (.head _)).wired
      rw [asked, exec_lookup _ inside, next]
      split
      · rename_i declared
        rw [Machine.meaning?_declared _ declared, absent]
        exact ⟨rfl, rfl⟩
      · rename_i new
        rw [Machine.meaning?_inside _ new]
        apply hosted_answers
        have deeper := @exec_deeper m (Caller.native ⟨site, within (k + 2)⟩) (by
          simp only [Caller.native, Site.native]
          omega)
        simp only [exec_bind, deeper, Outcome.andThen_done, Scope.table, Scope.record,
          exec_get, exec_pure, show metaHops = 1999 + 1 from rfl]
        refine ih (fun t ht => proper t (.tail _ ht)) (fun h => plain ((Machine.meaning?_inside _ new).trans h)) _ (k + 2) 1999
          (fun _ _ _ => rfl) (by omega) ?_
        simp only [Caller.native, Site.native]
        omega
    · have declared : m.Declares s name := by
        by_contra new
        exact absent ((proper s (.head _)).bare new)
      rw [index_field c hops _ name absent, Machine.meaning?_declared _ declared]
      exact ⟨rfl, rfl⟩

/-- Reading a name from outside code gives what it stands for. -/
theorem find_answers {s : Scope} {ss : List Scope} (chain : m.Chain s ss) {name : String}
    (proper : ∀ t ∈ ss, m.Proper name t) (plain : m.meaning? name ss = none → m.PlainGlobals)
    (steps : ss.length + 2 ≤ m.budget)
    (levels : 2 * ss.length + 1 < Site.levelLimit) :
    ((s.find host name).exec m).Answers m name (m.meaning? name ss) := by
  have deeper := @exec_deeper m host (by
    show 0 + 1 < Site.levelLimit
    omega)
  simp only [Scope.find, exec_bind, deeper, Outcome.andThen_done, Scope.table, Scope.record,
    exec_get, exec_pure, show metaHops = 1999 + 1 from rfl]
  refine index_seat chain proper plain _ m.budget 1999 (fun _ _ _ => rfl) steps ?_
  show 0 + 1 + 2 * ss.length < Site.levelLimit
  omega

/-- A name that stands for a value is read without any change. -/
theorem get_of_meaning {s : Scope} {ss : List Scope} (chain : m.Chain s ss) {name : String}
    (proper : ∀ t ∈ ss, m.Proper name t) {v : Value} (steps : ss.length + 2 ≤ m.budget)
    (levels : 2 * ss.length + 1 < Site.levelLimit) (h : m.meaning? name ss = some v) :
    s.get name m = .done v m := by
  have answers := find_answers chain proper (fun none => by rw [h] at none; cases none) steps
    levels
  rw [h] at answers
  show ((s.find host name).explain _).exec m = _
  rw [exec_explain, answers.done]
  rfl

/-- Reading a name that stands for nothing fails. -/
theorem get_of_unbound {s : Scope} {ss : List Scope} (chain : m.Chain s ss) {name : String}
    (proper : ∀ t ∈ ss, m.Proper name t) (plain : m.PlainGlobals) (steps : ss.length + 2 ≤ m.budget)
    (levels : 2 * ss.length + 1 < Site.levelLimit) (h : m.meaning? name ss = none) :
    ∃ m', s.get name m = .failed (.unbound name) m' := by
  have answers := find_answers chain proper (fun _ => plain) steps levels
  rw [h] at answers
  obtain ⟨e, m', failed, meant, -⟩ := answers.unbound
  show ∃ m', ((s.find host name).explain _).exec m = _
  rw [exec_explain, failed, Outcome.andThen_failed, meant]
  exact ⟨_, rfl⟩

end Lookup

end Tasklang.Lua
