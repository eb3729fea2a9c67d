import Tasklang.Proofs.Names

/-! # How far a name is looked up

A name is asked for in one scope after another, until one holds a value for it or declares it. Every
scope that is asked takes two levels of nested calls, of which there may be two hundred: a name for
which too many scopes are asked is not found, whatever it stands for. All that a lookup changes is
the list of faults.
-/

namespace Tasklang.Lua

open Code

/-- The fault of calls that nest too deep. -/
def tooDeep : Fault := .runtimeError "C stack overflow"

/-- An outcome that comes to a value and changes nothing, or to a failure with a fault. -/
def Outcome.Settles (m : Machine) (r : Except Fault Value) : Outcome Value Value → Prop
  | .done v m' => r = .ok v ∧ m' = m
  | .failed e m' => r = .error (m'.faultOf e) ∧ m' = { m with faults := m'.faults }
  | .exhausted => False

namespace Outcome.Settles

variable {m : Machine} {o : Outcome Value Value}

theorem done {v : Value} (h : o.Settles m (.ok v)) : o = .done v m := by
  cases o with
  | done w m' =>
    obtain ⟨same, rfl⟩ := h
    cases same
    rfl
  | failed e m' => cases h.1
  | exhausted => cases h

theorem failed {f : Fault} (h : o.Settles m (.error f)) : ∃ e m', m'.faultOf e = f ∧
    o = .failed e m' ∧ m' = { m with faults := m'.faults } := by
  cases o with
  | done w m' => cases h.1
  | failed e m' =>
    obtain ⟨same, changed⟩ := h
    cases same
    exact ⟨e, m', rfl, rfl, changed⟩
  | exhausted => cases h

end Outcome.Settles

/-- A failure keeps its fault where a computation of the host passes it on. -/
theorem hosted_settles {m : Machine} {x : Code Value Value} {r : Except Fault Value}
    (h : (x.exec m).Settles m r) : ((hosted x).exec m).Settles m r := by
  rw [exec_hosted]
  cases hx : x.exec m with
  | done v m' =>
    rw [hx] at h
    exact h
  | failed e m' =>
    rw [hx] at h
    refine ⟨h.1.trans (congrArg _ (Machine.faultOf_new m' _).symm), ?_⟩
    show { m' with faults := m'.faults.push _ } = { m with faults := m'.faults.push _ }
    rw [h.2]
  | exhausted =>
    rw [hx] at h
    exact h

namespace Machine

/-- What a name stands for below some scopes, or that it is unbound. -/
def sought (m : Machine) (name : String) (ss : List Scope) : Except Fault Value :=
  match m.meaning? name ss with
  | some v => .ok v
  | none => .error (.unbound name)

/-- How many scopes are asked for a name: those that hold nothing for it, up to the first that
declares it. -/
def asked (m : Machine) (name : String) : List Scope → Nat
  | [] => 0
  | s :: ss => match m.held s name with
    | .nil => if name ∈ (m.record s).declared then 1 else asked m name ss + 1
    | _ => 0

/-- What looking up a name gives when so many calls enclose the lookup. -/
def found (m : Machine) (levels : Nat) (name : String) (ss : List Scope) : Except Fault Value :=
  if levels + 2 * m.asked name ss < Site.levelLimit then m.sought name ss else .error tooDeep

section Found

variable {m : Machine} {levels : Nat} {name : String} {s : Scope} (ss : List Scope)

theorem found_held (room : levels < Site.levelLimit) (there : m.held s name ≠ .nil)
    (declared : m.Declares s name) : m.found levels name (s :: ss) = .ok (m.held s name) := by
  have none_asked : m.asked name (s :: ss) = 0 := by
    rw [asked]
    split
    · contradiction
    · rfl
  rw [found, none_asked, Nat.mul_zero, Nat.add_zero, if_pos room, sought,
    meaning?_declared ss declared]

theorem found_nil (room : levels + 2 < Site.levelLimit) (absent : m.held s name = .nil)
    (declared : m.Declares s name) : m.found levels name (s :: ss) = .ok .nil := by
  have one_asked : m.asked name (s :: ss) = 1 := by
    rw [asked, absent]
    exact if_pos declared
  rw [found, one_asked, if_pos room, sought, meaning?_declared ss declared, absent]

/-- A scope that has nothing for a name takes two levels. -/
theorem found_inside (absent : m.held s name = .nil) (new : ¬m.Declares s name) :
    m.found levels name (s :: ss) = m.found (levels + 2) name ss := by
  have one_more : m.asked name (s :: ss) = m.asked name ss + 1 := by
    rw [asked, absent]
    exact if_neg new
  rw [found, found, one_more, sought, sought, meaning?_inside ss new,
    show levels + 2 * (m.asked name ss + 1) = levels + 2 + 2 * m.asked name ss by omega]

theorem found_tooDeep (full : Site.levelLimit ≤ levels + 1) (absent : m.held s name = .nil) :
    m.found levels name (s :: ss) = .error tooDeep := by
  refine if_neg ?_
  rw [asked, absent]
  dsimp only
  split <;> omega

end Found

end Machine

section Lookup

variable {m : Machine}

theorem exec_deeper_full (c : Caller) (unblamed : c.site.blame 1 = [])
    (full : Site.levelLimit ≤ c.site.levels + 1) :
    (c.deeper).exec m = .failed (.str (Bytes.ofString "C stack overflow")) m := by
  simp only [Caller.deeper, if_pos full, Caller.raise, unblamed, List.nil_append, exec_throw]

/-- What a scope answers for a name that it does not declare. -/
theorem around_settles {s : Scope} {name : String} {c : Caller} {r : Except Fault Value}
    (there : s.id < m.scopes.size) (new : ¬m.Declares s name)
    (h : (match m.outer? s with
      | some o => (Scope.lookupAround c o name).exec m
      | none => Scope.orUnbound name ((Scope.lookupGlobal c name).exec m)).Settles m r) :
    ((s.lookup c (.ofString name)).exec m).Settles m r := by
  rwa [exec_lookup c there, if_neg (show name ∉ (m.record s).declared from new)]

/-- A scope that holds nothing for a name is asked, as long as calls may nest that deep. What is to
be shown is how it goes on when the scope does not declare the name. -/
theorem asks_settles {s : Scope} {ss : List Scope} {name : String} (c : Caller) (n hops : Nat)
    (calls : ∀ site f args, (c.apply site f args).exec m = (within n site f args).exec m)
    (unblamed : c.site.blame 1 = []) (odd : c.site.levels % 2 = 1)
    (steps : Site.levelLimit + 4 ≤ 2 * n + c.site.levels) (absent : m.held s name = .nil)
    (there : s.id < m.scopes.size) (wired : m.Wired s)
    (around : ¬m.Declares s name → ∀ site : Site, ∀ k, site.levels = c.site.levels + 1 →
      n = k + 3 → c.site.levels + 2 < Site.levelLimit →
      (match m.outer? s with
        | some o => (Scope.lookupAround ⟨site, within (k + 2)⟩ o name).exec m
        | none =>
          Scope.orUnbound name ((Scope.lookupGlobal ⟨site, within (k + 2)⟩ name).exec m)).Settles m
          (m.found (c.site.levels + 2) name ss)) :
    ((index c (hops + 1) (.table (m.seat s)) (.ofString name)).exec m).Settles m
      (m.found c.site.levels name (s :: ss)) := by
  have limit : Site.levelLimit = 200 := rfl
  by_cases room : c.site.levels + 1 < Site.levelLimit
  · -- the levels are odd here, so that the scope around may be asked as well
    have further : c.site.levels + 2 < Site.levelLimit := by omega
    obtain ⟨k, rfl⟩ := Nat.exists_eq_add_of_le (show 3 ≤ n by omega)
    obtain ⟨site, levels, asks⟩ := index_asks_scope c k hops
      (fun site f args => by rw [calls, Nat.add_comm]) room absent wired
    rw [asks]
    by_cases declared : m.Declares s name
    · rw [exec_lookup _ there, if_pos (show name ∈ (m.record s).declared from declared),
        Machine.found_nil ss further absent declared]
      exact ⟨rfl, rfl⟩
    · rw [Machine.found_inside ss absent declared]
      exact around_settles there declared (around declared site k levels (Nat.add_comm 3 k) further)
  · rw [index_asks c hops (m.seat s) name absent wired.1 wired.2, Caller.call, exec_bind,
      exec_deeper_full c unblamed (Nat.not_lt.1 room),
      Machine.found_tooDeep ss (Nat.not_lt.1 room) absent]
    refine ⟨?_, rfl⟩
    rw [Machine.faultOf, Bytes.decodeLossy_ofString, tooDeep]

/-- Outside of all scopes, a name stands for a global. -/
theorem lookupGlobal_settles (name : String) (plain : m.PlainGlobals) (c : Caller)
    (room : c.site.levels + 1 < Site.levelLimit) :
    (Scope.orUnbound name ((Scope.lookupGlobal c name).exec m)).Settles m (m.sought name []) := by
  have answers := lookupGlobal_answers name (fun _ => plain) c room
  revert answers
  cases Scope.orUnbound name ((Scope.lookupGlobal c name).exec m) with
  | done v m' =>
    rintro ⟨same, rfl⟩
    rw [Machine.sought, same]
    exact ⟨rfl, rfl⟩
  | failed e m' =>
    rintro ⟨same, meant, changed⟩
    rw [Machine.sought, same]
    exact ⟨congrArg _ meant.symm, changed⟩
  | exhausted => exact id

/-- Looking up a name in the table of a scope. The induction is on the scopes outward; every one that
is asked takes a call of its own and two levels, so that the number of levels stays odd. -/
theorem index_seat_settles {s : Scope} {ss : List Scope} (chain : m.Chain s ss) {name : String}
    (proper : ∀ t ∈ ss, m.Proper name t) (plain : m.PlainGlobals) (c : Caller) (n hops : Nat)
    (calls : ∀ site f args, (c.apply site f args).exec m = (within n site f args).exec m)
    (unblamed : c.site.blame 1 = []) (odd : c.site.levels % 2 = 1)
    (room : c.site.levels < Site.levelLimit)
    (steps : Site.levelLimit + 4 ≤ 2 * n + c.site.levels) :
    ((index c (hops + 1) (.table (m.seat s)) (.ofString name)).exec m).Settles m
      (m.found c.site.levels name ss) := by
  induction chain generalizing c n hops with
  | @outermost s inside last =>
    by_cases absent : m.held s name = .nil
    · refine asks_settles c n hops calls unblamed odd steps absent inside
        (proper s (.head _)).wired fun new site k levels _ further => ?_
      have unasked : m.found (c.site.levels + 2) name [] = m.sought name [] := if_pos further
      rw [last, unasked]
      exact lookupGlobal_settles name plain _ (by simp only; omega)
    · have declared : m.Declares s name := by
        by_contra new
        exact absent ((proper s (.head _)).bare new)
      rw [index_field c hops _ name absent, Machine.found_held [] room absent declared]
      exact ⟨rfl, rfl⟩
  | @inside s o ss inside next chain ih =>
    by_cases absent : m.held s name = .nil
    · refine asks_settles c n hops calls unblamed odd steps absent inside
        (proper s (.head _)).wired fun new site k levels more further => ?_
      rw [next]
      apply hosted_settles
      have deeper := @exec_deeper m (Caller.native ⟨site, within (k + 2)⟩) (by
        simp only [Caller.native, Site.native]
        omega)
      simp only [exec_bind, deeper, Outcome.andThen_done, Scope.table, Scope.record,
        exec_get, exec_pure, show metaHops = 1999 + 1 from rfl]
      have two_more : c.site.levels + 2 = site.native.levels + 1 := by
        simp only [Site.native]
        omega
      rw [two_more] at further ⊢
      refine ih (fun t ht => proper t (.tail _ ht)) _ (k + 2) 1999 (fun _ _ _ => rfl) rfl
        ?_ further ?_
      · show (site.native.levels + 1) % 2 = 1
        omega
      · show _ ≤ 2 * (k + 2) + (site.native.levels + 1)
        omega
    · have declared : m.Declares s name := by
        by_contra new
        exact absent ((proper s (.head _)).bare new)
      rw [index_field c hops _ name absent, Machine.found_held ss room absent declared]
      exact ⟨rfl, rfl⟩

/-- Reading a name from outside code. -/
theorem find_settles {s : Scope} {ss : List Scope} (chain : m.Chain s ss) {name : String}
    (proper : ∀ t ∈ ss, m.Proper name t) (plain : m.PlainGlobals)
    (budget : Site.levelLimit ≤ m.budget) :
    ((s.find host name).exec m).Settles m (m.found 1 name ss) := by
  have limit : Site.levelLimit = 200 := rfl
  have deeper := @exec_deeper m host (by decide)
  simp only [Scope.find, exec_bind, deeper, Outcome.andThen_done, Scope.table, Scope.record,
    exec_get, exec_pure, show metaHops = 1999 + 1 from rfl]
  refine index_seat_settles chain proper plain _ m.budget 1999 (fun _ _ _ => rfl) rfl rfl
    (by decide) ?_
  show Site.levelLimit + 4 ≤ 2 * m.budget + 1
  omega

end Lookup

end Tasklang.Lua
