import Tasklang.Proofs.Expressions

/-! # Folding keeps meaning

A placeholder that is folded has the value that it has when the program runs, in any scope that binds
what the compiler knows to the same data: whatever it reads while compiling it reads there as well. So
a text says the same whether its placeholders are folded or evaluated.
-/

namespace Tasklang

open Lua

/-! ## What the compiler knows -/

/-- What is seen of a name where nothing but bindings is known. -/
def Bindings.sight (bindings : Bindings) (name : String) : Sight :=
  match bindings.get? name with
  | some j => .data j
  | none => .unbound

theorem Bindings.mem_of_get? {bindings : Bindings} {name : String} {j : Json}
    (h : bindings.get? name = some j) : (name, j) ∈ bindings := by
  obtain ⟨before, after, rfl, -⟩ := List.lookup_eq_some_iff.1 h
  simp

theorem Bindings.notMem_of_get? {bindings : Bindings} {name : String}
    (h : bindings.get? name = none) : name ∉ bindings.names := by
  intro there
  obtain ⟨e, he, rfl⟩ := List.mem_map.1 there
  have := List.lookup_eq_none_iff.1 h e he
  simp at this

/-- Bindings of different names, none of which is one of the library. -/
structure Bindings.Clear (bindings : Bindings) : Prop where
  unique : bindings.names.Nodup
  apart : ∀ name ∈ bindings.names, name ∉ libraryNames

namespace Lua.Knows

variable {ε : Type} {m₀ m m' : Machine} {names : List String} {s : Scope} {bindings : Bindings}

/-- Declaring a name after its value was made of data. -/
theorem declared (h : Knows m₀ names s m) {v : Value} {j : Json} {name : String}
    (made : (Value.make .nil j : Code ε Value).exec m = .done v m') :
    Knows m₀ (name :: names) s (m'.bound s name v) := by
  have adds := Value.make_adds made
  exact (h.code adds.grows fun r hr => adds.tables r (Nat.lt_of_lt_of_le hr h.room)).bound name v

/-- What is left alone while bindings are declared. -/
theorem declareAll_kept (h : Knows m₀ names s m)
    (done : (s.declareAll bindings : Run ε Unit) m = .done () m') :
    m.tables.size ≤ m'.tables.size ∧
    (∀ r < m.tables.size, r ≠ m.seat s → m'.tables.getD r {} = m.tables.getD r {}) ∧
    ∀ name ∉ bindings.names, m'.held s name = m.held s name := by
  induction bindings generalizing names m with
  | nil =>
    cases done
    exact ⟨Nat.le_refl _, fun _ _ _ => rfl, fun _ _ => rfl⟩
  | cons e rest ih =>
    simp only [Scope.declareAll, Run.bind_done, Machine.declare_eq] at done
    obtain ⟨v, m₁, made, _, m₂, bound, done⟩ := done
    cases bound
    have adds : m.Adds m₁ := Value.make_adds made
    have placed : m.seat s < m.tables.size := by
      have := h.seat
      have := h.room
      omega
    have seat : (m₁.bound s e.1 v).seat s = m.seat s := by rw [Machine.seat_bound, adds.seat]
    obtain ⟨room, tables, held⟩ := ih (h.declared made) done
    rw [Machine.tables_bound] at room tables
    refine ⟨Nat.le_trans adds.grows.tables room, fun r hr apart => ?_, fun name new => ?_⟩
    · rw [tables r (Nat.lt_of_lt_of_le hr adds.grows.tables) (by rwa [seat]), Machine.table_bound,
        adds.seat, getD_changeAt_other _ _ (Ne.symm apart), adds.tables r hr]
    · simp only [Bindings.names, List.map_cons, List.mem_cons, not_or] at new
      rw [held name new.2, Machine.held, seat, Machine.table_bound, adds.seat,
        getD_changeAt_same _ _ (Nat.lt_of_lt_of_le placed adds.grows.tables),
        Table.field_setField_other _ _ new.1, adds.tables _ placed, Machine.held]

/-- Every binding is held as the value of its data. -/
theorem declareAll_made (h : Knows m₀ names s m) (unique : bindings.names.Nodup)
    (done : (s.declareAll bindings : Run ε Unit) m = .done () m') :
    ∀ e ∈ bindings, m'.Made (m'.held s e.1) e.2 := by
  induction bindings generalizing names m with
  | nil => exact fun e he => absurd he List.not_mem_nil
  | cons e rest ih =>
    simp only [Bindings.names, List.map_cons, List.nodup_cons] at unique
    simp only [Scope.declareAll, Run.bind_done, Machine.declare_eq] at done
    obtain ⟨v, m₁, made, _, m₂, bound, done⟩ := done
    cases bound
    intro e' he'
    rcases List.mem_cons.1 he' with rfl | he'
    · have adds : m.Adds m₁ := Value.make_adds made
      have seat : (m₁.bound s e'.1 v).seat s = m.seat s := by rw [Machine.seat_bound, adds.seat]
      have low : m.seat s + 1 ≤ m.tables.size := by
        have := h.seat
        have := h.room
        omega
      have knows : Knows m₀ (e'.1 :: names) s (m₁.bound s e'.1 v) := h.declared made
      obtain ⟨room, tables, held⟩ := knows.declareAll_kept done
      rw [Machine.tables_bound] at room tables
      rw [held _ unique.1, Machine.held, seat, Machine.table_bound, adds.seat,
        getD_changeAt_same _ _ (Nat.lt_of_lt_of_le low adds.grows.tables),
        Table.field_setField_same]
      refine ⟨ε, m, m₁, made, room, fun r least most => ?_⟩
      rw [tables r most (by rw [seat]; omega), Machine.table_bound, adds.seat,
        getD_changeAt_other _ _ (by omega)]
    · exact ih (h.declared made) unique.2 done e' he'

/-- What is seen in the scope of bindings is what they bind. -/
theorem ofBindings_sights (clear : bindings.Clear) (fresh : m.Fresh)
    (done : (Scope.ofBindings bindings : Run ε Scope) m = .done s m') :
    m'.Fresh ∧ m'.Below 1 s [s] ∧ m'.Sights [s] bindings.sight := by
  have knows := ofBindings done
  have fresh' : m'.Fresh := fresh.kept knows.retains
  have known (name : String) : m'.Declares s name ↔ name ∈ bindings.names := by
    rw [knows.declares, List.mem_reverse]
  refine ⟨fresh', ⟨knows.chain, Nat.le_refl _, ?_, fun name t ht => ?_, fun t ht name => ?_⟩, ?_⟩
  · intro t ht
    cases List.mem_singleton.1 ht
    have := knows.seat
    have := knows.room
    omega
  · cases List.mem_singleton.1 ht
    refine ⟨knows.wired, fun new => knows.bare name ?_⟩
    rwa [← knows.declares]
  · cases List.mem_singleton.1 ht
    rw [known]
    exact clear.apart name
  · intro name new
    rw [Bindings.sight]
    cases found : bindings.get? name with
    | some j =>
      have there := Bindings.mem_of_get? found
      have bound : name ∈ bindings.names := List.mem_map.2 ⟨_, there, rfl⟩
      simp only [Scope.ofBindings, Scope.root, Run.bind_done, Machine.new_eq, Run.pure_done] at done
      obtain ⟨_, _, opened, _, _, declared, rfl, rfl⟩ := done
      cases opened
      exact ⟨_, Machine.meaning?_declared _ ((known name).2 bound),
        (Knows.opened m).declareAll_made clear.unique declared _ there⟩
    | none =>
      have free : name ∉ bindings.names := Bindings.notMem_of_get? found
      simp only
      rw [m'.meaning?_inside _ (fun declared => free ((known name).1 declared)),
        Machine.meaning?, Machine.binding?, fresh'.vacant name new]

end Lua.Knows

/-! ## Texts -/

namespace Lua.Machine

variable {m : Machine} {s : Scope} {segments : List Segment} {text : String}

/-- Whether a placeholder has a plain value in a scope, now and after anything was added, and
changes nothing. -/
def Settles (m : Machine) (s : Scope) (source : String) (p : Plain) : Prop :=
  ∀ m₁, m.Adds m₁ → ∃ m₂, s.eval source m₁ = .done p.value m₂ ∧ m₁.Adds m₂

/-- Whether segments say a text in a scope, now and after anything was added, and change nothing. -/
def Writes (m : Machine) (s : Scope) (segments : List Segment) (text : String) : Prop :=
  ∀ m₁, m.Adds m₁ → ∃ m₂, Template.textIn s segments m₁ = .done text m₂ ∧ m₁.Adds m₂

theorem writes_nil : m.Writes s [] "" := fun m₁ _ => ⟨m₁, rfl, .refl m₁⟩

theorem Writes.after (h : m.Writes s segments text) (t : String) :
    m.Writes s (.text t :: segments) (t ++ text) := by
  intro m₁ adds
  obtain ⟨m₂, written, adds₂⟩ := h m₁ adds
  refine ⟨m₂, ?_, adds₂⟩
  simp only [Template.textIn, Template.segmentText, Run.bind_apply, Run.pure_apply,
    Outcome.andThen_done, written]

theorem Writes.shown (h : m.Writes s segments text) (f : m.Furnished) {source : String} {p : Plain}
    (settles : m.Settles s source p) :
    m.Writes s (.expr source :: segments) (p.shown ++ text) := by
  intro m₁ adds
  obtain ⟨m₂, evaluated, adds₂⟩ := settles m₁ adds
  have displayed := ((adds.trans adds₂).furnished f).display p
  obtain ⟨m₃, written, adds₃⟩ := h m₂ (adds.trans adds₂)
  refine ⟨m₃, ?_, adds₂.trans adds₃⟩
  simp only [Template.textIn, Template.segmentText, Run.bind_apply, Run.pure_apply, evaluated,
    displayed, Outcome.andThen_done, written]

theorem Writes.unique {text' : String} (h : m.Writes s segments text)
    (h' : m.Writes s segments text') : text = text' := by
  obtain ⟨m₁, written, -⟩ := h m (.refl m)
  obtain ⟨m₂, written', -⟩ := h' m (.refl m)
  rw [written] at written'
  cases written'
  rfl

/-- Joining text to the segments after it does not show. -/
theorem Writes.join (h : m.Writes s segments text) (t : String) :
    m.Writes s (Folder.joinText t segments) (t ++ text) := by
  unfold Folder.joinText
  split
  · rename_i empty
    have : t = "" := by simpa using empty
    rw [this, String.empty_append]
    exact h
  · split
    · rename_i u rest
      intro m₁ adds
      obtain ⟨m₂, written, adds₂⟩ := h m₁ adds
      refine ⟨m₂, ?_, adds₂⟩
      simp only [Template.textIn, Template.segmentText, Run.bind_done, Run.pure_done] at written ⊢
      obtain ⟨_, _, ⟨rfl, rfl⟩, t', m', rest, rfl, rfl⟩ := written
      exact ⟨_, _, ⟨rfl, rfl⟩, t', m', rest, String.append_assoc .., rfl⟩
    · exact h.after t

/-- Segments without placeholders say their text. -/
theorem writes_texts (known : Template.expressions segments = []) :
    m.Writes s segments (Folder.textOf segments) := by
  induction segments with
  | nil => exact writes_nil
  | cons x rest ih =>
    cases x with
    | text t =>
      have written := (ih known).after t
      rwa [Folder.textOf, List.map_cons, String.join_cons, ← Folder.textOf]
    | expr source => cases known

end Lua.Machine

namespace Execution

/-- Whether a literal is a text in a scope, now and after anything was added, and changes nothing. -/
def Says (m : Machine) (s : Scope) (l : Literal) (text : String) : Prop :=
  ∀ m₁, m.Adds m₁ → ∃ m₂, literalValue s l m₁ = .done (.ofString text) m₂ ∧ m₁.Adds m₂

theorem says_const (m : Machine) (s : Scope) (text : String) : Says m s (.const (.str text)) text := by
  intro m₁ _
  refine ⟨m₁, ?_, .refl m₁⟩
  simp only [literalValue, Value.ofJson, Run.code_apply, Value.make, Code.exec_pure]

theorem says_deferred {m : Machine} {s : Scope} {segments : List Segment} {text : String}
    (written : m.Writes s segments text) : Says m s (.deferred segments) text := by
  intro m₁ adds
  obtain ⟨m₂, written, adds₂⟩ := written m₁ adds
  refine ⟨m₂, ?_, adds₂⟩
  simp only [literalValue, evaluated, Run.bind_apply, Run.mapError_apply, written,
    Outcome.andThen_done, Run.pure_apply]

/-- The literal of segments is the text that they say. -/
theorem says_literalOf {m : Machine} {s : Scope} {segments : List Segment} {text : String}
    (written : m.Writes s segments text) : Says m s (Folder.literalOf segments) text := by
  unfold Folder.literalOf
  split
  · rename_i known
    rw [written.unique (Machine.writes_texts (List.isEmpty_iff.1 known))]
    exact says_const m s _
  · exact says_deferred written

end Execution

/-! ## Folding -/

/-- A placeholder that only reads names, evaluated against bindings. -/
theorem evaluate_describes {depth : Nat} {m₀ : Machine} {bindings : Bindings} {source : String}
    {t : Reading Plain} (clear : bindings.Clear) (fresh : m₀.Fresh) (positive : 1 ≤ depth)
    (describes : Describes depth source t) :
    match t.run bindings.sight with
    | .gives p => ∃ m₁, evaluate source bindings m₀ = .done p.json m₁ ∧ m₀.Retains m₁
    | .unbound name =>
      ∃ m₁, evaluate source bindings m₀ = .failed (.unbound name) m₁ ∧ m₀.Retains m₁
    | _ => True := by
  obtain ⟨s, m₁, opened⟩ := @Scope.ofBindings_ends EvalError bindings m₀
  have retains := (Knows.ofBindings opened).retains
  obtain ⟨fresh₁, below, sights⟩ := Knows.ofBindings_sights clear fresh opened
  have follows := describes m₁ s [s] _ fresh₁.toFurnished (below.deepen positive) sights
  cases came : t.run bindings.sight with
  | gives p =>
    rw [came] at follows
    obtain ⟨m₂, value, adds⟩ := follows
    refine ⟨m₂, ?_, retains.trans adds.retains⟩
    simp only [evaluate, Run.bind_apply, opened, Outcome.andThen_done, value,
      p.structuredForm_value]
  | unbound name =>
    rw [came] at follows
    obtain ⟨m₂, failed, adds⟩ := follows
    refine ⟨m₂, ?_, retains.trans adds.retains⟩
    simp only [evaluate, Run.bind_apply, opened, Outcome.andThen_done, failed,
      Outcome.andThen_failed]
  | stops => trivial
  | unknown => trivial

namespace Folder

variable {f : Folder} {depth : Nat} {m m₀ : Machine} {s : Scope} {ss : List Scope}
  {look : String → Sight}

/-- A placeholder that only reads names, folded. -/
theorem tryEval_describes {source : String} {t : Reading Plain} (clear : f.bindings.Clear)
    (fresh : m₀.Fresh) (positive : 1 ≤ depth) (describes : Describes depth source t) :
    match t.run f.bindings.sight with
    | .gives p => ∃ m₁, f.tryEval source m₀ = .done (some p.json) m₁ ∧ m₁.Fresh
    | .unbound name =>
      if f.mayDefer name then ∃ m₁, f.tryEval source m₀ = .done none m₁ ∧ m₁.Fresh
      else ∃ m₁, f.tryEval source m₀ = .failed (.undefinedName name) m₁
    | _ => True := by
  have evaluated := evaluate_describes clear fresh positive describes
  cases came : t.run f.bindings.sight with
  | gives p =>
    rw [came] at evaluated
    obtain ⟨m₁, evaluated, retains⟩ := evaluated
    refine ⟨m₁, ?_, fresh.kept retains⟩
    simp only [tryEval, Run.bind_apply, Run.attempt_apply, evaluated, Outcome.andThen_done]
    rfl
  | unbound name =>
    rw [came] at evaluated
    obtain ⟨m₁, evaluated, retains⟩ := evaluated
    simp only
    split
    · rename_i deferred
      refine ⟨m₁, ?_, fresh.kept retains⟩
      simp only [tryEval, Run.bind_apply, Run.attempt_apply, evaluated, Outcome.andThen_failed,
        Outcome.andThen_done, deferred, if_true]
      rfl
    · rename_i refused
      refine ⟨m₁, ?_⟩
      simp only [tryEval, Run.bind_apply, Run.attempt_apply, evaluated, Outcome.andThen_failed,
        Outcome.andThen_done, refused]
      rfl
  | stops => trivial
  | unknown => trivial

section Parsed

variable {text : String} {segments : List Segment} (parsed : Template.parse text = .ok segments)

include parsed

/-- Folding a text that is more than a placeholder. -/
theorem fold_long (long : ∀ source, segments ≠ [.expr source]) :
    f.fold text m₀ = (f.foldSegments segments m₀).andThen
      (fun folded => .done (literalOf folded)) .failed := by
  rw [fold, Run.bind_apply, parsed, show Compile.parsed (.ok segments) m₀ = .done segments m₀ from rfl,
    Outcome.andThen_done]
  split
  · exact absurd rfl (long _)
  · rw [Run.bind_apply]
    rfl

/-- Folding a text that is a placeholder. -/
theorem fold_lone {source : String} (lone : segments = [.expr source]) :
    f.fold text m₀ = (f.tryEval source m₀).andThen (fun found => .done (match found with
      | some v => .const v
      | none => .deferred [.expr source])) .failed := by
  subst lone
  rw [fold, Run.bind_apply, parsed]
  show (f.tryEval source >>= fun found => _) m₀ = _
  rw [Run.bind_apply]
  congr 1
  funext found m₁
  cases found <;> rfl

end Parsed

/-- Whether folding ends because a name that it came upon has to be bound and is not. -/
def Refuses {α : Type} (f : Folder) (o : Outcome CompileError α) : Prop :=
  ∃ name m₁, o = .failed (.undefinedName name) m₁ ∧ f.mayDefer name = false

/-- Whether folding a placeholder does not change what it says in a scope: where it is not refused,
it is deferred or becomes the value that it has there. -/
def Keeps (f : Folder) (m : Machine) (s : Scope) (source : String) (p : Plain) : Prop :=
  m.Settles s source p ∧ ∀ m₀ : Machine, m₀.Fresh → f.Refuses (f.tryEval source m₀) ∨
    ∃ m₁, m₁.Fresh ∧
      (f.tryEval source m₀ = .done (some p.json) m₁ ∨ f.tryEval source m₀ = .done none m₁)

/-- A placeholder that only reads names is kept where all is seen that the compiler knows. -/
theorem keeps_of_reads {source : String} {p : Plain} (clear : f.bindings.Clear)
    (furnished : m.Furnished) (below : m.Below depth s ss) (sights : m.Sights ss look)
    (more : Reading.Refines f.bindings.sight look) (reads : Reads depth source)
    (settles : m.Settles s source p) : f.Keeps m s source p := by
  refine ⟨settles, fun m₀ fresh => ?_⟩
  obtain ⟨t, describes⟩ := reads
  have folded := tryEval_describes clear fresh below.positive describes
  have follows := describes m s ss look furnished below sights
  obtain ⟨m', value, -⟩ := settles m (.refl m)
  cases came : t.run f.bindings.sight with
  | gives q =>
    rw [came] at folded
    rw [Reading.run_gives more came] at follows
    obtain ⟨m₁, folded, fresh₁⟩ := folded
    obtain ⟨m₂, value', -⟩ := follows
    rw [value] at value'
    cases Plain.value_injective (Outcome.done.inj value').1
    exact .inr ⟨m₁, fresh₁, .inl folded⟩
  | unbound name =>
    rw [came] at folded
    simp only at folded
    split at folded
    · obtain ⟨m₁, folded, fresh₁⟩ := folded
      exact .inr ⟨m₁, fresh₁, .inr folded⟩
    · rename_i refused
      obtain ⟨m₁, folded⟩ := folded
      exact .inl ⟨name, m₁, folded, by simpa using refused⟩
  | stops =>
    rw [Reading.run_stops more came] at follows
    exact absurd value (follows p m')
  | unknown =>
    refine absurd came (Reading.run_known (fun name => ?_) t)
    unfold Bindings.sight
    split <;> nofun

section Preservation

variable {segments : List Segment} (furnished : m.Furnished) (fresh : m₀.Fresh)
  (keeps : ∀ source ∈ Template.expressions segments, ∃ p, f.Keeps m s source p)

include furnished fresh keeps

/-- Folded segments say what the segments say. -/
theorem foldSegments_writes : f.Refuses (f.foldSegments segments m₀) ∨ ∃ folded m₁ text,
    f.foldSegments segments m₀ = .done folded m₁ ∧ m₁.Fresh ∧
      m.Writes s segments text ∧ m.Writes s folded text := by
  induction segments generalizing m₀ with
  | nil => exact .inr ⟨[], m₀, "", rfl, fresh, Machine.writes_nil, Machine.writes_nil⟩
  | cons x rest ih =>
    cases x with
    | text t =>
      rcases ih fresh keeps with
        ⟨name, m₁, refused, kept⟩ | ⟨folded, m₁, text, done, fresh₁, unfolded, same⟩
      · refine .inl ⟨name, m₁, ?_, kept⟩
        simp only [foldSegments, Run.bind_apply, refused, Outcome.andThen_failed]
      · refine .inr ⟨joinText t folded, m₁, t ++ text, ?_, fresh₁, unfolded.after t, same.join t⟩
        simp only [foldSegments, Run.bind_apply, done, Outcome.andThen_done, Run.pure_apply]
    | expr source =>
      obtain ⟨p, settles, folds⟩ := keeps source (.head _)
      rcases folds m₀ fresh with ⟨name, m₁, refused, kept⟩ | ⟨m₁, fresh₁, ended⟩
      · refine .inl ⟨name, m₁, ?_, kept⟩
        simp only [foldSegments, Run.bind_apply, refused, Outcome.andThen_failed]
      rcases ih fresh₁ fun source' there => keeps source' (.tail _ there) with
        ⟨name, m₂, refused, kept⟩ | ⟨folded, m₂, text, done, fresh₂, unfolded, same⟩
      · refine .inl ⟨name, m₂, ?_, kept⟩
        rcases ended with ended | ended <;>
          simp only [foldSegments, Run.bind_apply, ended, Outcome.andThen_done, refused,
            Outcome.andThen_failed]
      · rcases ended with known | deferred
        · refine .inr ⟨joinText p.shown folded, m₂, p.shown ++ text, ?_, fresh₂,
            unfolded.shown furnished settles, same.join _⟩
          simp only [foldSegments, Run.bind_apply, known, Outcome.andThen_done, done,
            Run.pure_apply, Plain.shown]
        · refine .inr ⟨.expr source :: folded, m₂, p.shown ++ text, ?_, fresh₂,
            unfolded.shown furnished settles, same.shown furnished settles⟩
          simp only [foldSegments, Run.bind_apply, deferred, Outcome.andThen_done, done,
            Run.pure_apply]

variable {text : String} (parsed : Template.parse text = .ok segments)

include parsed

/-- The literal of a text that is more than a placeholder is the text that its segments say. -/
theorem fold_says (long : ∀ source, segments ≠ [.expr source]) :
    f.Refuses (f.fold text m₀) ∨ ∃ l m₁ said, f.fold text m₀ = .done l m₁ ∧ m₁.Fresh ∧
      m.Writes s segments said ∧ Execution.Says m s l said := by
  rw [fold_long parsed long]
  rcases foldSegments_writes furnished fresh keeps with
    ⟨name, m₁, refused, kept⟩ | ⟨folded, m₁, said, done, fresh₁, unfolded, same⟩
  · refine .inl ⟨name, m₁, ?_, kept⟩
    rw [refused, Outcome.andThen_failed]
  · refine .inr ⟨literalOf folded, m₁, said, ?_, fresh₁, unfolded, Execution.says_literalOf same⟩
    rw [done, Outcome.andThen_done]

/-- A text says the same in a scope whether it is folded or not. -/
theorem fold_shows : f.Refuses (f.fold text m₀) ∨ ∃ l m₁, f.fold text m₀ = .done l m₁ ∧
    ∃ v said m₂ m₃, Execution.literalValue s l m = .done v m₂ ∧ display v m₂ = .done said m₂ ∧
      Template.textIn s segments m = .done said m₃ := by
  by_cases lone : ∃ source, segments = [.expr source]
  · obtain ⟨source, rfl⟩ := lone
    obtain ⟨p, settles, folds⟩ := keeps source (.head _)
    have whole := Machine.writes_nil.shown furnished settles
    rw [String.append_empty] at whole
    obtain ⟨m₃, unfolded, -⟩ := whole m (.refl m)
    rw [fold_lone parsed rfl]
    rcases folds m₀ fresh with ⟨name, m₁, refused, kept⟩ | ⟨m₁, -, known | deferred⟩
    · refine .inl ⟨name, m₁, ?_, kept⟩
      rw [refused, Outcome.andThen_failed]
    · refine .inr ⟨.const p.json, m₁, ?_, p.value, p.shown, m, m₃, p.make_json m,
        furnished.display p, unfolded⟩
      rw [known, Outcome.andThen_done]
    · obtain ⟨m₂, value, adds⟩ := Execution.says_deferred whole m (.refl m)
      refine .inr ⟨.deferred [.expr source], m₁, ?_, _, p.shown, m₂, m₃, value,
        (adds.furnished furnished).display (.text p.shown), unfolded⟩
      rw [deferred, Outcome.andThen_done]
  · rcases fold_says furnished fresh keeps parsed (fun source heq => lone ⟨source, heq⟩) with
      refused | ⟨l, m₁, said, done, -, written, same⟩
    · exact .inl refused
    · obtain ⟨m₂, value, adds⟩ := same m (.refl m)
      obtain ⟨m₃, unfolded, -⟩ := written m (.refl m)
      exact .inr ⟨l, m₁, done, _, said, m₂, m₃, value,
        (adds.furnished furnished).display (.text said), unfolded⟩

end Preservation

/-- Folding keeps meaning. Where a scope binds what the compiler knows to the same data, and globals
are what they are to the compiler, a text whose placeholders only read names and have plain values is
shown there as its placeholders are: folded or not. Folding ends without a literal only where a name
has to be bound that is not. -/
theorem fold_preserves {text : String} {segments : List Segment} (clear : f.bindings.Clear)
    (fresh : m₀.Fresh) (furnished : m.Furnished) (below : m.Below depth s ss)
    (bound : ∀ e ∈ f.bindings, ∃ v, m.meaning? e.1 ss = some v ∧ m.Made v e.2)
    (parsed : Template.parse text = .ok segments)
    (plain : ∀ source ∈ Template.expressions segments,
      Reads depth source ∧ ∃ p, m.Settles s source p) :
    f.Refuses (f.fold text m₀) ∨ ∃ l m₁, f.fold text m₀ = .done l m₁ ∧ ∃ v said m₂ m₃,
      Execution.literalValue s l m = .done v m₂ ∧ display v m₂ = .done said m₂ ∧
        Template.textIn s segments m = .done said m₃ := by
  let look (name : String) : Sight := match f.bindings.get? name with
    | some j => .data j
    | none => m.sight ss name
  have sights : m.Sights ss look := by
    intro name new
    cases known : f.bindings.get? name with
    | some j =>
      simp only [look, known]
      exact bound _ (Bindings.mem_of_get? known)
    | none =>
      simp only [look, known]
      exact m.sights_sight ss name new
  have more : Reading.Refines f.bindings.sight look := by
    intro name j sight
    unfold Bindings.sight at sight
    cases known : f.bindings.get? name with
    | some j' =>
      simp only [known] at sight
      simp only [look, known, sight]
    | none => simp only [known, reduceCtorEq] at sight
  refine fold_shows furnished fresh (fun source there => ?_) parsed
  obtain ⟨reads, p, settles⟩ := plain source there
  exact ⟨p, keeps_of_reads clear furnished below sights more reads settles⟩

end Folder

/-- A placeholder that a reading describes settles on the value that the reading gives. -/
theorem Describes.settles {depth : Nat} {source : String} {t : Reading Plain}
    (h : Describes depth source t) {m : Machine} {s : Scope} {ss : List Scope}
    {look : String → Sight} (furnished : m.Furnished) (below : m.Below depth s ss)
    (sights : m.Sights ss look) {p : Plain} (gives : t.run look = .gives p) :
    m.Settles s source p := by
  intro m₁ adds
  have follows := h m₁ s ss look (adds.furnished furnished) (adds.below below)
    (adds.sights below sights)
  rw [gives] at follows
  exact follows

/-! ## A known and a deferred name -/

namespace Folder.Mixed

/-- What the compiler knows. -/
def known : Bindings := [("host", .str "db")]

/-- What is bound when the program runs. -/
def bound : Bindings := [("host", .str "db"), ("port", .int 80)]

section Runs

set_option maxRecDepth 100000

theorem is_host : IsName "host" "host" := ⟨by decide, by decide, by cbv⟩

theorem is_port : IsName "port" "port" := ⟨by decide, by decide, by cbv⟩

theorem parses : Template.parse "${host}:${port}" =
    .ok [.expr "host", .text ":", .expr "port"] := by
  cbv

theorem apart : "host" ∉ libraryNames ∧ "port" ∉ libraryNames := by
  decide

end Runs

/-- The host is folded and the port deferred, and the text is the same. -/
theorem keeps_address : ∃ s m, (Scope.ofBindings bound : Run EvalError Scope) (Machine.initial {}) =
      .done s m ∧
    ∃ l m₁, (⟨known, none⟩ : Folder).fold "${host}:${port}" (Machine.initial {}) = .done l m₁ ∧
      ∃ v said m₂ m₃, Execution.literalValue s l m = .done v m₂ ∧ display v m₂ = .done said m₂ ∧
        Template.textIn s [.expr "host", .text ":", .expr "port"] m = .done said m₃ := by
  obtain ⟨s, m, opened⟩ := @Scope.ofBindings_ends EvalError bound (Machine.initial {})
  have fresh := Machine.fresh_initial {}
  have clear : bound.Clear := ⟨by decide, by simp [bound, Bindings.names, apart]⟩
  obtain ⟨fresh₁, below, sights⟩ := Knows.ofBindings_sights clear fresh opened
  have preserved := fold_preserves (f := ⟨known, none⟩)
    ⟨by decide, by simp [known, Bindings.names, apart]⟩ fresh fresh₁.toFurnished below
    (fun e he => by
      cases List.mem_singleton.1 he
      exact sights "host" apart.1)
    parses
    (fun source there => by
      have there : source = "host" ∨ source = "port" := by simpa [Template.expressions] using there
      rcases there with rfl | rfl
      · have describes : Describes 1 _ _ := is_host.describes apart.1 (by decide)
        exact ⟨⟨_, describes⟩, .text "db", describes.settles fresh₁.toFurnished below sights rfl⟩
      · have describes : Describes 1 _ _ := is_port.describes apart.2 (by decide)
        exact ⟨⟨_, describes⟩, .whole 80, describes.settles fresh₁.toFurnished below sights rfl⟩)
  refine ⟨s, m, opened, preserved.resolve_left ?_⟩
  rintro ⟨name, m₁, -, refused⟩
  cases refused

end Folder.Mixed

/-! ## A global that was changed -/

namespace Folder.Changed

/-- A scope below globals of which one was changed. -/
def scope : Run EvalError Scope := do
  unlifted (setGlobal "_VERSION" (.ofString "changed"))
  Scope.root

set_option maxRecDepth 100000 in
/-- The placeholder is folded to what the global was while compiling. -/
theorem folded_before : (scope (Machine.initial {})).passes (fun s m =>
    ((⟨[], none⟩ : Folder).fold "${_VERSION}" (Machine.initial {})).passes (fun l _ =>
      (Execution.literalValue s l m).passes fun v m₁ =>
        (display v m₁).passes fun said _ => said = "Lua 5.4") &&
    Template.parse "${_VERSION}" = .ok [.expr "_VERSION"] &&
    (Template.textIn s [.expr "_VERSION"] m).passes fun said _ => said = "changed") = true := by
  decide +kernel

end Folder.Changed

end Tasklang
