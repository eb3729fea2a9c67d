import Tasklang.Proofs.Margins
import Tasklang.Proofs.Sources
import Tasklang.Proofs.Unrolling

/-! # Unbound names

A name is unbound in an evaluation only after it was looked up in vain: no scope that was asked
declares it, and there was no such global at that time. So a value of which every name is found when
it is looked up is folded to a constant, unless folding fails.
-/

namespace Tasklang.Lua

open Code

/-! ## Scopes for bindings -/

/-- A computation that looks up no name among the globals. -/
def Code.Silent {ε α : Type} (x : Code ε α) : Prop := ∀ m name m₁, ¬x.asks m name m₁

namespace Code.Silent

variable {ε α β : Type}

theorem pure (a : α) : Silent (Pure.pure a : Code ε α) := fun _ _ _ => id

theorem bind {x : Code ε α} {f : α → Code ε β} (hx : Silent x) (hf : ∀ a, Silent (f a)) :
    Silent (x >>= f) := by
  rintro m name m₁ (asked | asked)
  · exact hx m name m₁ asked
  · cases h : x.exec m with
    | done a m' =>
      rw [h] at asked
      exact hf a m' name m₁ asked
    | failed e m' =>
      rw [h] at asked
      exact asked
    | exhausted =>
      rw [h] at asked
      exact asked

theorem newTable (t : Table) : Silent (Code.newTable t : Code ε TableRef) := fun _ _ _ => id

theorem modifyTable (r : TableRef) (f : Table → Table) :
    Silent (Code.modifyTable r f : Code ε Unit) := fun _ _ _ => id

end Code.Silent

section Making

variable {ε : Type}

mutual

/-- Making the value of structured data looks up nothing. -/
theorem Value.make_silent (absent : Value) (j : Json) : (make absent j : Code ε Value).Silent := by
  cases j with
  | arr items =>
    exact .bind (.newTable _) fun r => .bind (fillItems_silent absent r 1 items) fun _ => .pure _
  | obj entries =>
    exact .bind (.newTable _) fun r => .bind (fillEntries_silent absent r entries) fun _ => .pure _
  | _ => exact .pure _

theorem Value.fillItems_silent (absent : Value) (r : TableRef) (i : Nat) (items : List Json) :
    (fillItems absent r i items : Code ε Unit).Silent := by
  cases items with
  | nil => exact .pure _
  | cons v vs =>
    exact .bind (make_silent absent v) fun _ => .bind (.modifyTable _ _) fun _ =>
      fillItems_silent absent r (i + 1) vs

theorem Value.fillEntries_silent (absent : Value) (r : TableRef) (entries : List (String × Json)) :
    (fillEntries absent r entries : Code ε Unit).Silent := by
  cases entries with
  | nil => exact .pure _
  | cons e es =>
    exact .bind (make_silent absent e.2) fun _ => .bind (.modifyTable _ _) fun _ =>
      fillEntries_silent absent r es

end

end Making

/-- A machine that kept its scopes and what they declare, in which no further name was unbound. -/
structure Machine.Maintains (m m' : Machine) : Prop where
  size : m'.scopes.size = m.scopes.size
  declares : ∀ s : Scope, s.id < m.scopes.size → ∀ name, m.Declares s name → m'.Declares s name
  unbound : ∀ name, .unbound name ∈ m'.faults → .unbound name ∈ m.faults

namespace Machine.Maintains

variable {m m' m'' : Machine}

theorem refl (m : Machine) : m.Maintains m := ⟨rfl, fun _ _ _ => id, fun _ => id⟩

theorem trans (h : m.Maintains m') (h' : m'.Maintains m'') : m.Maintains m'' where
  size := h'.size.trans h.size
  declares s hs name declared :=
    h'.declares s (by rwa [h.size]) name (h.declares s hs name declared)
  unbound name there := h.unbound name (h'.unbound name there)

theorem bound (m : Machine) (s : Scope) (name : String) (v : Value) :
    m.Maintains (m.bound s name v) where
  size := m.scopes_bound s name v
  declares t ht x declared := (m.declares_bound s t name x v ht).2 (.inr declared)
  unbound _ := id

theorem silent {ε α : Type} {x : Code ε α} (silent : x.Silent) {a : α}
    (done : x.exec m = .done a m') : m.Maintains m' := by
  have grows := x.grows m
  have misses := x.misses m
  rw [done] at grows misses
  refine ⟨by rw [grows.scopes], fun s _ name declared => ?_, fun name there => ?_⟩
  · rwa [Machine.Declares, Machine.record, grows.scopes]
  · rcases misses name there with before | ⟨-, m₁, asked, -⟩
    · exact before
    · exact absurd asked (silent m name m₁)

theorem declareAll {ε : Type} {s : Scope} {bindings : Bindings} (hs : s.id < m.scopes.size)
    (done : (s.declareAll bindings : Run ε Unit) m = .done () m') : m.Maintains m' := by
  induction bindings generalizing m with
  | nil =>
    cases done
    exact .refl _
  | cons e rest ih =>
    simp only [Scope.declareAll, Run.bind_done, Machine.declare_eq] at done
    obtain ⟨v, m₁, made, _, m₂, placed, done⟩ := done
    cases placed
    have first : m.Maintains m₁ := Maintains.silent (Value.make_silent .nil e.2) made
    have hs₁ : s.id < m₁.scopes.size := by rwa [first.size]
    exact first.trans ((bound m₁ s e.1 v).trans (ih (by rwa [Machine.scopes_bound]) done))

end Machine.Maintains

/-! ## Evaluators -/

/-- Whether some of several bindings leave a name out. -/
def Omitted (earlier : List Bindings) (name : String) : Prop := ∃ b ∈ earlier, name ∉ b.names

/-- A machine to which an evaluator comes that opens scopes for bindings and runs any code. The
bindings are recorded, the last ones first, and the names that the code looks up among the globals. -/
inductive Evaluator : List Bindings → Machine → Machine.Lookups → Prop where
  | new (w : World) : Evaluator [] (Machine.initial w) fun _ _ => False
  | opened {ε : Type} {earlier : List Bindings} {m m' : Machine} {asks : Machine.Lookups}
    {bindings : Bindings} {s : Scope} :
    Evaluator earlier m asks → (Scope.ofBindings bindings : Run ε Scope) m = .done s m' →
    Evaluator (bindings :: earlier) m' asks
  | ran {ε α : Type} {earlier : List Bindings} {m m' : Machine} {asks : Machine.Lookups}
    (x : Code ε α) : Evaluator earlier m asks → (x.exec m).EndsIn m' →
    Evaluator earlier m' fun name m₁ => asks name m₁ ∨ x.asks m name m₁

/-- A machine each of whose scopes declares all names of some bindings, and in which every unbound
name is an old one. -/
structure Machine.Provides (earlier : List Bindings) (old : String → Prop) (m : Machine) : Prop where
  declares : ∀ s : Scope, s.id < m.scopes.size →
    ∃ b ∈ earlier, ∀ name ∈ b.names, m.Declares s name
  unbound : ∀ name, .unbound name ∈ m.faults → old name

namespace Machine.Provides

variable {earlier earlier' : List Bindings} {old old' : String → Prop} {m m' : Machine}
  {asks : Machine.Lookups}

theorem initial (w : World) : (Machine.initial w).Provides earlier old where
  declares _ low := absurd low (Nat.not_lt_zero _)
  unbound _ there := absurd there (Array.not_mem_empty _)

theorem weaken (h : m.Provides earlier old) (more : earlier ⊆ earlier')
    (wider : ∀ name, old name → old' name) : m.Provides earlier' old' where
  declares s low := by
    obtain ⟨b, there, declared⟩ := h.declares s low
    exact ⟨b, more there, declared⟩
  unbound name there := wider name (h.unbound name there)

/-- A scope for bindings declares their names. -/
theorem opened {ε : Type} {s : Scope} {bindings : Bindings} (h : m.Provides earlier old)
    (done : (Scope.ofBindings bindings : Run ε Scope) m = .done s m') :
    m'.Provides (bindings :: earlier) old := by
  have knows := Knows.ofBindings done
  simp only [Scope.ofBindings, Scope.root, Run.bind_done, Machine.new_eq, Run.pure_done] at done
  obtain ⟨t, m₀, new, _, m₁, declared, rfl, rfl⟩ := done
  obtain ⟨rfl, rfl⟩ := Outcome.done.inj new
  have size : (m.opened none).scopes.size = m.scopes.size + 1 := Machine.scopes_opened m none
  have inside : m.scopes.size < (m.opened none).scopes.size := by
    rw [size]
    exact Nat.lt_succ_self _
  have kept : (m.opened none).Maintains m₁ := .declareAll inside declared
  refine ⟨fun t ht => ?_, fun name there => h.unbound name (kept.unbound name there)⟩
  rw [kept.size, size] at ht
  rcases Nat.lt_succ_iff_lt_or_eq.1 ht with before | new
  · obtain ⟨b, there, known⟩ := h.declares t before
    refine ⟨b, .tail _ there, fun name inside => kept.declares t (by omega) name ?_⟩
    rw [Machine.Declares, Machine.record_opened m none before]
    exact known name inside
  · -- This is the scope that was opened, and it knows the names of its bindings.
    obtain rfl : t = ⟨m.scopes.size⟩ := congrArg Scope.mk new
    exact ⟨bindings, .head _, fun name there => (knows.declares name).2 (List.mem_reverse.2 there)⟩

/-- Code finds names unbound only when it looks them up in vain, in a scope that leaves them out. -/
theorem ran (h : m.Provides earlier old) (grows : m.Grows m') (misses : m.Misses asks m') :
    m'.Provides earlier fun name =>
      old name ∨ Omitted earlier name ∧ ∃ m₁, asks name m₁ ∧ m₁.global name = .nil := by
  refine ⟨fun s low => ?_, fun name there => ?_⟩
  · rw [grows.scopes] at low
    obtain ⟨b, there, declared⟩ := h.declares s low
    refine ⟨b, there, fun name inside => ?_⟩
    rw [Machine.Declares, Machine.record, grows.scopes]
    exact declared name inside
  · rcases misses name there with before | ⟨⟨r, inside, -, new⟩, m₁, asked, absent⟩
    · exact .inl (h.unbound name before)
    · obtain ⟨i, low, rfl⟩ := Array.mem_iff_getElem.1 inside
      obtain ⟨b, there, declared⟩ := h.declares ⟨i⟩ low
      refine .inr ⟨⟨b, there, fun known => new ?_⟩, m₁, asked, absent⟩
      simpa [Machine.Declares, Machine.record, Array.getD_eq_getD_getElem?,
        Array.getElem?_eq_getElem low] using declared name known

end Machine.Provides

/-- Whatever an evaluator does, a name is unbound only after it was looked up in vain, and some of
the bindings left it out. -/
theorem Evaluator.provides {earlier : List Bindings} {m : Machine} {asks : Machine.Lookups}
    (h : Evaluator earlier m asks) : m.Provides earlier fun name =>
      Omitted earlier name ∧ ∃ m₁, asks name m₁ ∧ m₁.global name = .nil := by
  induction h with
  | new w => exact .initial w
  | @opened ε earlier m m' asks bindings s _ done ih =>
    refine (ih.opened done).weaken (List.Subset.refl _) fun name => ?_
    exact And.imp_left fun ⟨b, there, omits⟩ => ⟨b, .tail _ there, omits⟩
  | @ran ε α earlier m m' asks x _ ends ih =>
    have grows := x.grows m
    have misses := x.misses m
    have wider (name : String) :
        (Omitted earlier name ∧ ∃ m₁, asks name m₁ ∧ m₁.global name = .nil) ∨
          (Omitted earlier name ∧ ∃ m₁, x.asks m name m₁ ∧ m₁.global name = .nil) →
        Omitted earlier name ∧ ∃ m₁, (asks name m₁ ∨ x.asks m name m₁) ∧ m₁.global name = .nil := by
      rintro (⟨omitted, m₁, asked, absent⟩ | ⟨omitted, m₁, asked, absent⟩)
      · exact ⟨omitted, m₁, .inl asked, absent⟩
      · exact ⟨omitted, m₁, .inr asked, absent⟩
    cases h : x.exec m <;> rw [h] at ends grows misses <;> cases ends <;>
      exact (ih.ran grows misses).weaken (List.Subset.refl _) wider

end Tasklang.Lua

namespace Tasklang

open Lua Lua.Run

/-! ## Evaluation -/

/-- The names that evaluating an expression in a scope looks up among the globals. -/
def Lua.Scope.asks (s : Scope) (source : String) (m : Machine) : Machine.Lookups :=
  fun name m₁ => Text.has '\x00' source = false ∧ (s.valueOf source).asks m name m₁

theorem Lua.Scope.eval_misses (s : Scope) (source : String) (m : Machine) :
    (s.eval source m).After (m.Misses (s.asks source m)) := by
  unfold eval
  split
  · exact .same rfl
  next free =>
    have misses := (s.valueOf source).misses m
    rw [lifted, code_apply, Code.exec_explain]
    cases h : (s.valueOf source).exec m with
    | exhausted => trivial
    | _ =>
      rw [h] at misses
      exact Machine.Misses.wider misses fun _ _ asked => ⟨by simpa using free, asked⟩

/-- An evaluation that fails for an unbound name has found it unbound, now or before. -/
theorem Lua.Scope.eval_unbound {s : Scope} {source name : String} {m m' : Machine}
    (failed : s.eval source m = .failed (.unbound name) m') : .unbound name ∈ m'.faults := by
  unfold eval at failed
  split at failed
  · cases failed
  · rw [lifted, code_apply, Code.exec_explain] at failed
    cases h : (s.valueOf source).exec m with
    | failed e m₁ =>
      rw [h] at failed
      obtain ⟨same, rfl⟩ := Outcome.failed.inj failed
      refine Machine.faultOf_unbound (v := e) ?_
      cases meant : m₁.faultOf e <;> rw [meant] at same <;> cases same
      rfl
    | _ =>
      rw [h] at failed
      cases failed

/-- The names that evaluating an expression against bindings looks up among the globals. -/
def evaluationAsks (source : String) (bindings : Bindings) (m : Machine) : Machine.Lookups :=
  fun name m₁ => ∃ s m₀, (Scope.ofBindings bindings : Run EvalError Scope) m = .done s m₀ ∧
    s.asks source m₀ name m₁

/-- What an evaluation looks up is all that is unbound after it and was not before. -/
theorem Lua.Machine.Provides.evaluated {earlier : List Bindings} {old : String → Prop} {m : Machine}
    (h : m.Provides earlier old) (source : String) (bindings : Bindings) :
    (evaluate source bindings m).After fun m' => m'.Provides (bindings :: earlier) fun name =>
      old name ∨ Omitted (bindings :: earlier) name ∧
        ∃ m₁, evaluationAsks source bindings m name m₁ ∧ m₁.global name = .nil := by
  obtain ⟨s, m₀, opened⟩ := @Scope.ofBindings_ends EvalError bindings m
  have ends : (evaluate source bindings m).After fun m' =>
      m₀.Grows m' ∧ m₀.Misses (s.asks source m₀) m' := by
    have grows := eval_quiet s source m₀
    have misses := s.eval_misses source m₀
    simp only [evaluate, bind_apply, opened, Outcome.andThen_done]
    cases h : s.eval source m₀ with
    | done v m' =>
      rw [h] at grows misses
      simp only [Outcome.andThen_done, structuredForm, code_apply, Code.exec_mapError, Value.toJson,
        Code.exec_bind, Code.exec_get]
      cases Value.toJson? m' v <;> exact ⟨grows, misses⟩
    | failed e m' =>
      rw [h] at grows misses
      exact ⟨grows, misses⟩
    | exhausted => trivial
  refine ends.imp fun m' came => (h.opened opened).ran came.1 ?_
  exact Machine.Misses.wider came.2 fun _ _ asked => ⟨s, m₀, opened, asked⟩

/-- An evaluation against bindings is one more thing that an evaluator does. -/
theorem Lua.Evaluator.evaluated {earlier : List Bindings} {m m' : Machine} {asked : Machine.Lookups}
    (h : Evaluator earlier m asked) {source : String} {bindings : Bindings} {v : Json}
    (done : evaluate source bindings m = .done v m') :
    ∃ asked', Evaluator (bindings :: earlier) m' asked' := by
  simp only [evaluate, bind_done, structuredForm, code_apply] at done
  obtain ⟨s, m₀, opened, value, m₁, evaluated, form⟩ := done
  have same : m' = m₁ := by
    simp only [Code.exec_mapError, Value.toJson, Code.exec_bind, Code.exec_get,
      Outcome.andThen_done] at form
    cases h : Value.toJson? m₁ value <;> rw [h] at form <;> cases form
    rfl
  subst same
  have ran : ((s.valueOf source).exec m₀).EndsIn m' := by
    unfold Scope.eval at evaluated
    split at evaluated
    · cases evaluated
    · rw [lifted, code_apply, Code.exec_explain] at evaluated
      cases h : (s.valueOf source).exec m₀ <;> rw [h] at evaluated <;> cases evaluated
      rfl
  exact ⟨_, .ran _ (h.opened opened) ran⟩

/-- An evaluation that fails for an unbound name has found it unbound. -/
theorem evaluate_unbound {source name : String} {bindings : Bindings} {m m' : Machine}
    (failed : evaluate source bindings m = .failed (.unbound name) m') :
    .unbound name ∈ m'.faults := by
  obtain ⟨s, m₀, opened⟩ := @Scope.ofBindings_ends EvalError bindings m
  simp only [evaluate, bind_apply, opened, Outcome.andThen_done] at failed
  cases h : s.eval source m₀ with
  | done v m₁ =>
    rw [h, Outcome.andThen_done] at failed
    simp only [structuredForm, code_apply, Code.exec_mapError, Value.toJson, Code.exec_bind,
      Code.exec_get, Outcome.andThen_done] at failed
    cases form : Value.toJson? m₁ v <;> rw [form] at failed <;> cases failed
  | failed e m₁ =>
    rw [h] at failed
    cases failed
    exact Scope.eval_unbound h
  | exhausted =>
    rw [h] at failed
    cases failed

/-! ## Folding -/

mutual

/-- The placeholders of a value, in the order in which they are folded. -/
def Json.placeholders : Json → List String
  | .str text => match Template.parse text with
    | .ok segments => Template.expressions segments
    | .error _ => []
  | .arr items => placeholdersOfItems items
  | .obj entries => placeholdersOfEntries entries
  | _ => []

/-- The placeholders of values. -/
def Json.placeholdersOfItems : List Json → List String
  | [] => []
  | v :: vs => v.placeholders ++ placeholdersOfItems vs

/-- The placeholders of the values of entries. -/
def Json.placeholdersOfEntries : List (String × Json) → List String
  | [] => []
  | (_, v) :: es => v.placeholders ++ placeholdersOfEntries es

end

namespace Folder

variable {f : Folder} {m m' : Machine} {rest : List String}

/-- The names that folding placeholders one after another looks up among the globals. -/
def asks (f : Folder) : List String → Machine → Machine.Lookups
  | [], _ => fun _ _ => False
  | source :: rest, m => fun name m₁ => evaluationAsks source f.bindings m name m₁ ∨
    ∃ found m', f.tryEval source m = .done found m' ∧ f.asks rest m' name m₁

/-- Whether every name that folding placeholders reads is bound, or is a global when it is looked
up. -/
def Finds (f : Folder) (sources : List String) (m : Machine) : Prop :=
  ∀ name m₁, f.asks sources m name m₁ → name ∈ f.bindings.names ∨ m₁.global name ≠ .nil

/-- Whether a name can be unbound because of an earlier evaluation that did not bind it: code that
was kept from there looks the name up although it is bound now, or it was looked up there in vain and
its failure is raised again. -/
def Recalls (f : Folder) (earlier : List Bindings) (asked : Machine.Lookups) (name : String) : Prop :=
  Omitted earlier name ∧
    (name ∈ f.bindings.names ∨ ∃ m₁, asked name m₁ ∧ m₁.global name = .nil)

/-- Whether one of some placeholders fails because of an earlier evaluation. -/
def Relapses (f : Folder) (earlier : List Bindings) (asked : Machine.Lookups)
    (sources : List String) : Prop :=
  ∃ source ∈ sources, ∃ name m m', evaluate source f.bindings m = .failed (.unbound name) m' ∧
    f.Recalls earlier asked name

/-- A machine in which placeholders find all names that they read, and in which only an earlier
evaluation left names unbound, none of which is one for which they fail. -/
structure Prepared (f : Folder) (earlier : List Bindings) (asked : Machine.Lookups)
    (sources : List String) (m : Machine) : Prop where
  provides : m.Provides (f.bindings :: earlier) (f.Recalls earlier asked)
  finds : f.Finds sources m
  fresh : ¬f.Relapses earlier asked sources

section Folding

variable {earlier : List Bindings} {asked : Machine.Lookups}

/-- A placeholder whose names are found is not deferred. -/
theorem Prepared.tryEval {source : String} {found : Option Json}
    (h : f.Prepared earlier asked (source :: rest) m) (done : f.tryEval source m = .done found m') :
    (∃ v, found = some v) ∧ f.Prepared earlier asked rest m' := by
  have ends : (evaluate source f.bindings m).After
      (Machine.Provides (f.bindings :: earlier) (f.Recalls earlier asked)) := by
    refine (h.provides.evaluated source f.bindings).imp fun m' here =>
      here.weaken (by simp) fun name => ?_
    rintro (old | ⟨⟨b, there, new⟩, m₁, lookup, absent⟩)
    · exact old
    · -- Only a name that is bound now can be missed, and then in an earlier scope.
      have known := (h.finds name m₁ (.inl lookup)).resolve_right fun present => present absent
      refine ⟨⟨b, ?_, new⟩, .inl known⟩
      have apart : b ≠ f.bindings := fun same => new (same ▸ known)
      simpa [apart] using there
  have onwards : f.Finds rest m' := fun name m₁ lookup =>
    h.finds name m₁ (.inr ⟨_, _, done, lookup⟩)
  have fresh : ¬f.Relapses earlier asked rest := fun ⟨source, there, more⟩ =>
    h.fresh ⟨source, .tail _ there, more⟩
  have came := tryEval_done.1 done
  cases found with
  | some v =>
    rw [came] at ends
    exact ⟨⟨v, rfl⟩, ends, onwards, fresh⟩
  | none =>
    obtain ⟨name, -, failed⟩ := came
    rw [failed] at ends
    exact absurd ⟨source, .head _, name, m, m', failed, ends.unbound name (evaluate_unbound failed)⟩
      h.fresh

theorem Prepared.foldSegments {segments folded : List Segment}
    (h : f.Prepared earlier asked (Template.expressions segments ++ rest) m)
    (done : f.foldSegments segments m = .done folded m') :
    Template.expressions folded = [] ∧ f.Prepared earlier asked rest m' := by
  induction segments generalizing m folded with
  | nil =>
    cases done
    exact ⟨rfl, h⟩
  | cons segment segments ih =>
    cases segment with
    | text t =>
      simp only [Folder.foldSegments, bind_done, pure_done] at done
      obtain ⟨others, _, done, rfl, rfl⟩ := done
      rw [expressions_joinText]
      exact ih h done
    | expr source =>
      simp only [Folder.foldSegments, bind_done] at done
      obtain ⟨found, m₁, tried, done⟩ := done
      obtain ⟨⟨v, rfl⟩, onwards⟩ := h.tryEval tried
      simp only [bind_done, pure_done] at done
      obtain ⟨others, _, done, rfl, rfl⟩ := done
      rw [expressions_joinText]
      exact ih onwards done

theorem Prepared.fold {text : String} {l : Literal}
    (h : f.Prepared earlier asked ((Json.str text).placeholders ++ rest) m) (done : f.fold text m = .done l m') :
    (∃ v, l = .const v) ∧ f.Prepared earlier asked rest m' := by
  simp only [Folder.fold, bind_done] at done
  obtain ⟨segments, m₁, parsed, done⟩ := done
  obtain ⟨read, rfl⟩ := Compile.parsed_done.1 parsed
  rw [Json.placeholders, read] at h
  split at done
  next source =>
    simp only [bind_done] at done
    obtain ⟨found, m₂, tried, done⟩ := done
    obtain ⟨⟨v, rfl⟩, onwards⟩ := h.tryEval tried
    obtain ⟨rfl, rfl⟩ := pure_done.1 done
    exact ⟨⟨v, rfl⟩, onwards⟩
  next segments _ =>
    simp only [bind_done, pure_done] at done
    obtain ⟨folded, m₂, done, rfl, rfl⟩ := done
    obtain ⟨known, onwards⟩ := h.foldSegments done
    exact ⟨⟨.str (textOf folded), by rw [literalOf, known]; rfl⟩, onwards⟩

mutual

/-- A value whose placeholders find all names that they read becomes a constant. -/
theorem Prepared.reconstruct {v : Json} {l : Literal} {rest : List String} {m m' : Machine}
    (h : f.Prepared earlier asked (v.placeholders ++ rest) m) (done : f.reconstruct v m = .done l m') :
    (∃ j, l.constant = some j) ∧ f.Prepared earlier asked rest m' := by
  cases v with
  | str text =>
    obtain ⟨⟨v, rfl⟩, onwards⟩ := h.fold done
    exact ⟨⟨v, rfl⟩, onwards⟩
  | arr items =>
    simp only [Folder.reconstruct, bind_done, pure_done] at done
    obtain ⟨ls, _, done, rfl, rfl⟩ := done
    obtain ⟨⟨vs, known⟩, onwards⟩ := Prepared.reconstructAll h done
    exact ⟨⟨.arr vs, by rw [Literal.constant, known]; rfl⟩, onwards⟩
  | obj entries =>
    simp only [Folder.reconstruct, bind_done, pure_done] at done
    obtain ⟨es, _, done, rfl, rfl⟩ := done
    obtain ⟨⟨vs, known⟩, onwards⟩ := Prepared.reconstructEntries h done
    exact ⟨⟨.obj (Bindings.ofList vs), by rw [Literal.constant, known]; rfl⟩, onwards⟩
  | _ =>
    obtain ⟨rfl, rfl⟩ := pure_done.1 done
    exact ⟨⟨_, rfl⟩, h⟩

theorem Prepared.reconstructAll {vs : List Json} {ls : List Literal} {rest : List String}
    {m m' : Machine} (h : f.Prepared earlier asked (Json.placeholdersOfItems vs ++ rest) m)
    (done : f.reconstructAll vs m = .done ls m') :
    (∃ js, Literal.constants ls = some js) ∧ f.Prepared earlier asked rest m' := by
  cases vs with
  | nil =>
    obtain ⟨rfl, rfl⟩ := pure_done.1 done
    exact ⟨⟨[], rfl⟩, h⟩
  | cons v vs =>
    simp only [Folder.reconstructAll, bind_done, pure_done] at done
    obtain ⟨l, m₁, first, ls, _, others, rfl, rfl⟩ := done
    rw [Json.placeholdersOfItems, List.append_assoc] at h
    obtain ⟨⟨j, known⟩, onwards⟩ := Prepared.reconstruct h first
    obtain ⟨⟨js, all⟩, onwards⟩ := Prepared.reconstructAll onwards others
    exact ⟨⟨j :: js, by rw [Literal.constants, known, all]⟩, onwards⟩

theorem Prepared.reconstructEntries {es : List (String × Json)} {ls : List (String × Literal)}
    {rest : List String} {m m' : Machine}
    (h : f.Prepared earlier asked (Json.placeholdersOfEntries es ++ rest) m)
    (done : f.reconstructEntries es m = .done ls m') :
    (∃ js, Literal.constantEntries ls = some js) ∧ f.Prepared earlier asked rest m' := by
  match es with
  | [] =>
    obtain ⟨rfl, rfl⟩ := pure_done.1 done
    exact ⟨⟨[], rfl⟩, h⟩
  | (k, v) :: es =>
    simp only [Folder.reconstructEntries, bind_done, pure_done] at done
    obtain ⟨l, m₁, first, ls, _, others, rfl, rfl⟩ := done
    rw [Json.placeholdersOfEntries, List.append_assoc] at h
    obtain ⟨⟨j, known⟩, onwards⟩ := Prepared.reconstruct h first
    obtain ⟨⟨js, all⟩, onwards⟩ := Prepared.reconstructEntries onwards others
    exact ⟨⟨(k, j) :: js, by rw [Literal.constantEntries, known, all]⟩, onwards⟩

end

end Folding

end Folder

/-! ## Constants -/

theorem Literal.constant_of_mem {l : Literal} {ls : List Literal} {js : List Json} (there : l ∈ ls)
    (known : Literal.constants ls = some js) : ∃ j, l.constant = some j := by
  induction ls generalizing js with
  | nil => cases there
  | cons l' ls ih =>
    obtain ⟨v, vs, first, others, -⟩ := constants_cons.1 known
    rcases List.mem_cons.1 there with rfl | there
    · exact ⟨v, first⟩
    · exact ih there others

theorem Literal.constant_of_entry {key : String} {l : Literal} {es : List (String × Literal)}
    {js : List (String × Json)} (there : (key, l) ∈ es)
    (known : Literal.constantEntries es = some js) : ∃ j, l.constant = some j := by
  induction es generalizing js with
  | nil => cases there
  | cons e es ih =>
    obtain ⟨key', l'⟩ := e
    obtain ⟨v, vs, first, others, -⟩ := constantEntries_cons.1 known
    rcases List.mem_cons.1 there with same | there
    · cases same
      exact ⟨v, first⟩
    · exact ih there others

/-- All parts of a constant are constants. -/
theorem Literal.Contains.constant {l l' : Literal} (h : l.Contains l') {j : Json}
    (known : l.constant = some j) : ∃ j', l'.constant = some j' := by
  induction h generalizing j with
  | self => exact ⟨j, known⟩
  | seq there _ ih =>
    obtain ⟨js, items, -⟩ := Option.map_eq_some_iff.1 known
    obtain ⟨j', here⟩ := constant_of_mem there items
    exact ih here
  | map there _ ih =>
    obtain ⟨js, entries, -⟩ := Option.map_eq_some_iff.1 known
    obtain ⟨j', here⟩ := constant_of_entry there entries
    exact ih here

namespace Kept

/-- What the name is bound to later on. -/
def bound : Bindings := [("item", .int 5)]

section Runs

set_option maxRecDepth 100000

end Runs

end Kept

end Tasklang
