import Tasklang.Proofs.Margins
import Tasklang.Proofs.Sources
import Tasklang.Proofs.Unrolling

/-! # What folding leaves

The placeholders of a text are tried in order. A failure ends this at once, unless a name is unbound
that may stay so. Then the placeholders with such names are left as they were written, and all that
stands between two of them is one text.
-/

namespace Tasklang

open Lua Lua.Run

namespace Folder

/-! ## Placeholders in order -/

/-- Placeholders that are evaluated one after another, each to a value, or to none when it reads a
name that is unbound and may stay so. -/
inductive Tries (f : Folder) : List String → Machine → List (Option Json) → Machine → Prop where
  | nil {m} : Tries f [] m [] m
  | value {source rest m v m₁ found m'} : evaluate source f.bindings m = .done v m₁ →
    Tries f rest m₁ found m' → Tries f (source :: rest) m (some v :: found) m'
  | unbound {source rest m name m₁ found m'} :
    evaluate source f.bindings m = .failed (.unbound name) m₁ → f.mayDefer name = true →
    Tries f rest m₁ found m' → Tries f (source :: rest) m (none :: found) m'

/-- How a placeholder fails other than by a name that may stay unbound. -/
inductive Fails (f : Folder) (source : String) (m : Machine) : CompileError → Machine → Prop where
  | evaluation {fault m'} : evaluate source f.bindings m = .failed (.failed fault) m' →
    Fails f source m (.evaluation (.failed fault)) m'
  | undefined {name m'} : evaluate source f.bindings m = .failed (.unbound name) m' →
    f.mayDefer name = false → Fails f source m (.undefinedName name) m'

/-- How the first placeholder fails that fails at all, after those before it were tried. -/
def Stops (f : Folder) (sources : List String) (m : Machine) (e : CompileError) (m' : Machine) :
    Prop :=
  ∃ before source after found m₁, sources = before ++ source :: after ∧
    f.Tries before m found m₁ ∧ f.Fails source m₁ e m'

variable {f : Folder} {m m' : Machine} {e : CompileError}

theorem tryEval_failed {source : String} :
    f.tryEval source m = .failed e m' ↔ f.Fails source m e m' := by
  rw [tryEval, bind_apply, attempt_apply]
  constructor
  · intro failed
    cases evaluation : evaluate source f.bindings m with
    | done v m₁ => simp [evaluation, pure_apply] at failed
    | exhausted => simp [evaluation] at failed
    | failed e' m₁ =>
      rw [evaluation, Outcome.andThen_failed, Outcome.andThen_done] at failed
      cases e' with
      | failed fault =>
        cases failed
        exact .evaluation evaluation
      | unbound name =>
        dsimp only at failed
        split at failed
        · cases failed
        next refused =>
          cases failed
          exact .undefined evaluation (by simpa using refused)
  · intro fails
    cases fails with
    | evaluation evaluation =>
      rw [evaluation]
      rfl
    | undefined evaluation refused =>
      rw [evaluation, Outcome.andThen_failed, Outcome.andThen_done]
      dsimp only
      rw [refused]
      rfl

theorem tries_cons {source : String} {rest : List String} {found : List (Option Json)} :
    f.Tries (source :: rest) m found m' ↔ ∃ first m₁ others, f.tryEval source m = .done first m₁ ∧
      f.Tries rest m₁ others m' ∧ found = first :: others := by
  constructor
  · intro tries
    cases tries with
    | value evaluated others => exact ⟨_, _, _, tryEval_done.2 evaluated, others, rfl⟩
    | unbound evaluated deferred others =>
      exact ⟨none, _, _, tryEval_done.2 ⟨_, deferred, evaluated⟩, others, rfl⟩
  · rintro ⟨first, m₁, others, tried, tries, rfl⟩
    have came := tryEval_done.1 tried
    cases first with
    | some v => exact .value came tries
    | none =>
      obtain ⟨name, deferred, evaluated⟩ := came
      exact .unbound evaluated deferred tries

theorem not_stops_nil : ¬f.Stops [] m e m' := by
  rintro ⟨before, source, after, -, -, spelled, -⟩
  simp at spelled

theorem stops_cons {source : String} {rest : List String} :
    f.Stops (source :: rest) m e m' ↔ f.tryEval source m = .failed e m' ∨
      ∃ first m₁, f.tryEval source m = .done first m₁ ∧ f.Stops rest m₁ e m' := by
  constructor
  · rintro ⟨before, failing, after, found, m₁, spelled, tries, fails⟩
    cases before with
    | nil =>
      obtain ⟨rfl, rfl⟩ := List.cons.inj spelled
      cases tries
      exact .inl (tryEval_failed.2 fails)
    | cons first before =>
      obtain ⟨rfl, rfl⟩ := List.cons.inj spelled
      obtain ⟨value, m₂, others, tried, tries, -⟩ := tries_cons.1 tries
      exact .inr ⟨value, m₂, tried, before, failing, after, others, m₁, rfl, tries, fails⟩
  · rintro (failed | ⟨first, m₁, tried, before, failing, after, found, m₂, rfl, tries, fails⟩)
    · exact ⟨[], source, rest, [], m, rfl, .nil, tryEval_failed.1 failed⟩
    · exact ⟨source :: before, failing, after, first :: found, m₂, rfl,
        tries_cons.2 ⟨first, m₁, found, tried, tries, rfl⟩, fails⟩

theorem Tries.length {sources : List String} {found : List (Option Json)}
    (tries : f.Tries sources m found m') : found.length = sources.length := by
  induction tries with
  | nil => rfl
  | value _ _ ih => exact congrArg Nat.succ ih
  | unbound _ _ _ ih => exact congrArg Nat.succ ih

/-! ## Segments in which values stand -/

/-- Segments in which the values that were found stand as text in the place of their placeholders. -/
def settled : List Segment → List (Option Json) → List Segment
  | .text t :: rest, found => .text t :: settled rest found
  | .expr _ :: rest, some v :: found => .text v.stringify :: settled rest found
  | .expr source :: rest, none :: found => .expr source :: settled rest found
  | _, _ => []

/-- The placeholders for which no value was found. -/
def pending : List String → List (Option Json) → List String
  | source :: rest, none :: found => source :: pending rest found
  | _ :: rest, some _ :: found => pending rest found
  | _, _ => []

/-- Segments with all neighbouring text put together, and without empty text. -/
def joined : List Segment → List Segment
  | [] => []
  | .text t :: rest => joinText t (joined rest)
  | .expr source :: rest => .expr source :: joined rest

section Segments

variable {segments : List Segment} {found : List (Option Json)}

theorem expressions_settled (long : found.length = (Template.expressions segments).length) :
    Template.expressions (settled segments found) =
      pending (Template.expressions segments) found := by
  induction segments generalizing found with
  | nil => cases found <;> rfl
  | cons s rest ih =>
    cases s with
    | text t => exact ih long
    | expr source =>
      cases found with
      | nil => cases long
      | cons first others =>
        have onwards := ih (Nat.succ.inj long)
        cases first with
        | some v => exact onwards
        | none => exact congrArg (source :: ·) onwards

theorem pending_eq_nil {sources : List String} (long : found.length = sources.length) :
    pending sources found = [] ↔ none ∉ found := by
  induction sources generalizing found with
  | nil =>
    cases List.length_eq_zero_iff.1 long
    simp [pending]
  | cons source rest ih =>
    cases found with
    | nil => cases long
    | cons first others =>
      cases first with
      | some v => simpa [pending] using ih (Nat.succ.inj long)
      | none => simp [pending]

theorem mem_settled {source : String} (there : .expr source ∈ settled segments found) :
    .expr source ∈ segments := by
  fun_induction settled segments found with
  | case1 t rest found ih => exact .tail _ (ih ((List.mem_cons.1 there).resolve_left nofun))
  | case2 other rest v found ih => exact .tail _ (ih ((List.mem_cons.1 there).resolve_left nofun))
  | case3 other rest found ih =>
    rcases List.mem_cons.1 there with same | there
    · rw [same]
      exact .head _
    · exact .tail _ (ih there)
  | case4 => cases there

theorem expressions_joined (segments : List Segment) :
    Template.expressions (joined segments) = Template.expressions segments := by
  induction segments with
  | nil => rfl
  | cons s rest ih =>
    cases s with
    | text t => exact (expressions_joinText t _).trans ih
    | expr source => exact congrArg (source :: ·) ih

theorem textOf_joined (segments : List Segment) : textOf (joined segments) = textOf segments := by
  induction segments with
  | nil => rfl
  | cons s rest ih =>
    cases s with
    | text t =>
      rw [joined, textOf_joinText, ih]
      simp only [textOf, List.map_cons, String.join_cons]
    | expr source =>
      rw [textOf, textOf] at ih
      simp only [joined, textOf, List.map_cons, String.join_cons, ih]

theorem atoms_joinText (t : String) (segments : List Segment) :
    (joinText t segments).flatMap Segment.atoms =
      t.toList.map .char ++ segments.flatMap Segment.atoms := by
  unfold joinText
  split
  next empty => simp [String.isEmpty_iff.1 empty]
  next =>
    split
    next u rest => simp [Segment.atoms]
    next => simp [Segment.atoms]

theorem atoms_joined (segments : List Segment) :
    (joined segments).flatMap Segment.atoms = segments.flatMap Segment.atoms := by
  induction segments with
  | nil => rfl
  | cons s rest ih =>
    cases s with
    | text t => rw [joined, atoms_joinText, ih, List.flatMap_cons, Segment.atoms]
    | expr source => rw [joined, List.flatMap_cons, List.flatMap_cons, ih]

theorem normal_joinText (t : String) (h : Segment.Normal segments) :
    Segment.Normal (joinText t segments) := by
  have full {u : String} (some_ : u ≠ "") :
      (Segment.text u).atoms ≠ [] ∧ Segment.text u ≠ .expr "" :=
    ⟨by simpa [Segment.atoms] using some_, nofun⟩
  unfold joinText
  split
  next => exact h
  next some_ =>
    have some_ : t ≠ "" := fun empty => some_ (String.isEmpty_iff.2 empty)
    split
    next u rest =>
      have longer : t ++ u ≠ "" := fun empty => some_ (String.append_eq_empty_iff.1 empty).1
      refine ⟨List.forall_mem_cons.2 ⟨full longer, h.tail.full⟩, ?_⟩
      cases rest with
      | nil => exact .singleton _
      | cons s rest =>
        obtain ⟨first, others⟩ := List.isChain_cons_cons.1 h.merged
        exact .cons_cons (fun _ t' _ => first u t' rfl) others
    next apart =>
      refine ⟨List.forall_mem_cons.2 ⟨full some_, h.full⟩, ?_⟩
      cases segments with
      | nil => exact .singleton _
      | cons s rest =>
        exact .cons_cons (fun _ t' _ same => apart t' rest (by rw [same])) h.merged

theorem normal_joined (each : ∀ source, .expr source ∈ segments → source ≠ "") :
    Segment.Normal (joined segments) := by
  induction segments with
  | nil => exact .nil
  | cons s rest ih =>
    have others := ih fun source there => each source (.tail _ there)
    cases s with
    | text t => exact normal_joinText t others
    | expr source => exact others.cons_expr (each source (.head _))

end Segments

/-! ## Folded texts -/

section Folding

variable {segments : List Segment}

/-- Segments are folded exactly when all of their placeholders can be tried. -/
theorem foldSegments_done {folded : List Segment} : f.foldSegments segments m = .done folded m' ↔
    ∃ found, f.Tries (Template.expressions segments) m found m' ∧
      folded = joined (settled segments found) := by
  induction segments generalizing m folded with
  | nil =>
    rw [foldSegments, pure_done]
    constructor
    · rintro ⟨rfl, rfl⟩
      exact ⟨[], .nil, rfl⟩
    · rintro ⟨found, tries, rfl⟩
      cases tries
      exact ⟨rfl, rfl⟩
  | cons s rest ih =>
    have onwards (g : List Segment → List Segment) (m : Machine) (folded : List Segment) :
        (do return g (← f.foldSegments rest) : Compile.Compiling (List Segment)) m =
          .done folded m' ↔ ∃ found, f.Tries (Template.expressions rest) m found m' ∧
            folded = g (joined (settled rest found)) := by
      simp only [bind_done, pure_done]
      constructor
      · rintro ⟨others, m₁, done, rfl, rfl⟩
        obtain ⟨found, tries, rfl⟩ := ih.1 done
        exact ⟨found, tries, rfl⟩
      · rintro ⟨found, tries, rfl⟩
        exact ⟨_, m', ih.2 ⟨found, tries, rfl⟩, rfl, rfl⟩
    cases s with
    | text t => exact onwards (joinText t) m folded
    | expr source =>
      have first : Template.expressions (.expr source :: rest) =
          source :: Template.expressions rest := rfl
      rw [first, foldSegments, bind_done]
      constructor
      · rintro ⟨value, m₁, tried, done⟩
        cases value with
        | some v =>
          obtain ⟨found, others, rfl⟩ := (onwards _ _ _).1 done
          exact ⟨_, tries_cons.2 ⟨_, m₁, found, tried, others, rfl⟩, rfl⟩
        | none =>
          obtain ⟨found, others, rfl⟩ := (onwards _ _ _).1 done
          exact ⟨_, tries_cons.2 ⟨_, m₁, found, tried, others, rfl⟩, rfl⟩
      · rintro ⟨_, tries, rfl⟩
        obtain ⟨value, m₁, found, tried, others, rfl⟩ := tries_cons.1 tries
        refine ⟨value, m₁, tried, ?_⟩
        cases value with
        | some v => exact (onwards (joinText v.stringify) m₁ _).2 ⟨found, others, rfl⟩
        | none => exact (onwards (.expr source :: ·) m₁ _).2 ⟨found, others, rfl⟩

/-- Folding segments fails as the first of their placeholders that fails. -/
theorem foldSegments_failed : f.foldSegments segments m = .failed e m' ↔
    f.Stops (Template.expressions segments) m e m' := by
  induction segments generalizing m with
  | nil => exact iff_of_false nofun not_stops_nil
  | cons s rest ih =>
    have onwards {β : Type} {g : List Segment → β} {m : Machine} :
        (do return g (← f.foldSegments rest) : Compile.Compiling β) m = .failed e m' ↔
          f.Stops (Template.expressions rest) m e m' := by
      rw [← ih, bind_apply]
      cases f.foldSegments rest m <;> simp [pure_apply]
    cases s with
    | text t => exact onwards
    | expr source =>
      have first : Template.expressions (.expr source :: rest) =
          source :: Template.expressions rest := rfl
      rw [first, stops_cons, foldSegments, bind_apply]
      cases tried : f.tryEval source m with
      | done value m₁ =>
        cases value with
        | some v => simpa using onwards
        | none => simpa using onwards
      | failed e' m₁ => simp
      | exhausted => simp

/-- The literal of segments, given what was found for their placeholders. -/
def literalFrom (segments : List Segment) (found : List (Option Json)) : Literal :=
  match segments, found with
  | [.expr _], [some v] => .const v
  | _, _ => literalOf (joined (settled segments found))

variable {text : String} {l : Literal} (parsed : Template.parse text = .ok segments)

include parsed

theorem fold_done : f.fold text m = .done l m' ↔
    ∃ found, f.Tries (Template.expressions segments) m found m' ∧ l = literalFrom segments found := by
  by_cases lone : ∃ source, segments = [.expr source]
  · obtain ⟨source, rfl⟩ := lone
    rw [fold_lone parsed rfl]
    constructor
    · intro done
      cases tried : f.tryEval source m with
      | done value m₁ =>
        rw [tried] at done
        cases done
        refine ⟨[value], tries_cons.2 ⟨value, _, [], tried, .nil, rfl⟩, ?_⟩
        cases value <;> rfl
      | failed e m₁ =>
        rw [tried] at done
        cases done
      | exhausted =>
        rw [tried] at done
        cases done
    · rintro ⟨_, tries, rfl⟩
      obtain ⟨value, m₁, _, tried, rest, rfl⟩ := tries_cons.1 tries
      cases rest
      rw [tried]
      cases value <;> rfl
  · have long : ∀ source, segments ≠ [.expr source] := fun source is_ => lone ⟨source, is_⟩
    have plain (found : List (Option Json)) :
        literalFrom segments found = literalOf (joined (settled segments found)) := by
      unfold literalFrom
      split
      next source _ => exact absurd rfl (long source)
      next => rfl
    rw [fold_long parsed long]
    constructor
    · intro done
      cases folds : f.foldSegments segments m with
      | done folded m₁ =>
        rw [folds] at done
        cases done
        obtain ⟨found, tries, rfl⟩ := foldSegments_done.1 folds
        exact ⟨found, tries, (plain found).symm⟩
      | failed e m₁ =>
        rw [folds] at done
        cases done
      | exhausted =>
        rw [folds] at done
        cases done
    · rintro ⟨found, tries, rfl⟩
      rw [foldSegments_done.2 ⟨found, tries, rfl⟩, plain]
      rfl

/-- Folding a text fails as the first of its placeholders that fails, and where that one left off. -/
theorem fold_failed : f.fold text m = .failed e m' ↔
    f.Stops (Template.expressions segments) m e m' := by
  by_cases lone : ∃ source, segments = [.expr source]
  · obtain ⟨source, rfl⟩ := lone
    have first : Template.expressions [.expr source] = [source] := rfl
    rw [fold_lone parsed rfl, first, stops_cons]
    cases f.tryEval source m <;> simp [not_stops_nil]
  · rw [fold_long parsed fun source is_ => lone ⟨source, is_⟩, ← foldSegments_failed]
    cases f.foldSegments segments m <;> simp

end Folding

/-- What a text is folded to, given what was found for its placeholders: the only value there is, all
that stands there as one text, or what is left when a value is missing. -/
inductive Folded (segments : List Segment) (found : List (Option Json)) : Literal → Prop where
  | value {source v} : segments = [.expr source] → found = [some v] →
    Folded segments found (.const v)
  | text : none ∉ found → (∀ source, segments ≠ [.expr source]) →
    Folded segments found (.const (.str (textOf (settled segments found))))
  | deferred {left} : none ∈ found →
    Template.expressions left = pending (Template.expressions segments) found →
    left.flatMap Segment.atoms = (settled segments found).flatMap Segment.atoms →
    Segment.Normal left → Folded segments found (.deferred left)

theorem literalFrom_folded {segments : List Segment} {found : List (Option Json)}
    (long : found.length = (Template.expressions segments).length)
    (each : ∀ source, .expr source ∈ segments → source ≠ "") :
    Folded segments found (literalFrom segments found) := by
  have left := expressions_settled long
  rw [← expressions_joined] at left
  have missing := pending_eq_nil long
  rw [← left] at missing
  have content := atoms_joined (settled segments found)
  have normal : Segment.Normal (joined (settled segments found)) :=
    normal_joined fun source there => each source (mem_settled there)
  unfold literalFrom
  split
  next => exact .value rfl rfl
  next apart =>
    unfold literalOf
    split
    next none_ =>
      rw [textOf_joined]
      have complete := missing.1 (List.isEmpty_iff.1 none_)
      refine .text complete ?_
      rintro source rfl
      obtain ⟨first, rfl⟩ := List.length_eq_one_iff.1 long
      cases first with
      | some v => exact apart source v rfl rfl
      | none => exact complete (.head _)
    next some_ =>
      have incomplete : none ∈ found :=
        not_not.1 fun complete => some_ (List.isEmpty_iff.2 (missing.2 complete))
      exact .deferred incomplete left content normal

end Folder

/-! ## Literals of values -/

/-- Whether all texts that a literal leaves to be evaluated have a placeholder, and no text that is
empty or beside another one; and whether no expression stands in it for itself. -/
def Literal.Trim (l : Literal) : Prop :=
  ∀ part, l.Contains part →
    (∀ left, part = .deferred left → Template.expressions left ≠ [] ∧ Segment.Normal left) ∧
    ∀ source, part ≠ .expr source

namespace Literal.Trim

theorem const (v : Json) : Trim (.const v) := by
  intro part there
  cases there
  exact ⟨nofun, nofun⟩

theorem deferred {left : List Segment} (some_ : Template.expressions left ≠ [])
    (normal : Segment.Normal left) : Trim (.deferred left) := by
  intro part there
  cases there
  refine ⟨fun left' same => ?_, nofun⟩
  cases same
  exact ⟨some_, normal⟩

theorem seq {items : List Literal} (each : ∀ l ∈ items, l.Trim) : Trim (.seq items) := by
  intro part there
  cases there with
  | self => exact ⟨nofun, nofun⟩
  | seq mem inside => exact each _ mem part inside

theorem map {entries : List (String × Literal)} (each : ∀ e ∈ entries, e.2.Trim) :
    Trim (.map entries) := by
  intro part there
  cases there with
  | self => exact ⟨nofun, nofun⟩
  | map mem inside => exact each _ mem part inside

end Literal.Trim

namespace Folder

variable {f : Folder} {m m' : Machine}

theorem parsed_source {text source : String} {segments : List Segment}
    (parsed : Template.parse text = .ok segments) (there : .expr source ∈ segments) :
    source ≠ "" := by
  rintro rfl
  obtain ⟨ps, -, meant⟩ := Template.parse_eq_ok.1 parsed
  exact (meant.normal.full _ there).2 rfl

theorem Folded.trim {segments : List Segment} {found : List (Option Json)} {l : Literal}
    (h : Folded segments found l)
    (long : found.length = (Template.expressions segments).length) : l.Trim := by
  cases h with
  | value | text => exact .const _
  | deferred incomplete left _ normal =>
    refine .deferred (fun none_ => ?_) normal
    exact (pending_eq_nil long).1 (left.symm.trans none_) incomplete

theorem fold_trim {text : String} {l : Literal} (done : f.fold text m = .done l m') : l.Trim := by
  cases parsed : Template.parse text with
  | error e =>
    rw [fold, parsed] at done
    cases done
  | ok segments =>
    obtain ⟨found, tries, rfl⟩ := (fold_done parsed).1 done
    exact (literalFrom_folded tries.length fun _ => parsed_source parsed).trim tries.length

mutual

theorem reconstruct_trim {m m' : Machine} {v : Json} {l : Literal}
    (done : f.reconstruct v m = .done l m') : l.Trim := by
  cases v with
  | str text => exact fold_trim done
  | arr items =>
    simp only [reconstruct, bind_done, pure_done] at done
    obtain ⟨ls, m₁, made, rfl, rfl⟩ := done
    exact .seq (reconstructAll_trim made)
  | obj entries =>
    simp only [reconstruct, bind_done, pure_done] at done
    obtain ⟨es, m₁, made, rfl, rfl⟩ := done
    exact .map (reconstructEntries_trim made)
  | _ =>
    cases done
    exact .const _

theorem reconstructAll_trim {m m' : Machine} {vs : List Json} {ls : List Literal}
    (done : f.reconstructAll vs m = .done ls m') : ∀ l ∈ ls, l.Trim := by
  cases vs with
  | nil =>
    cases done
    nofun
  | cons v vs =>
    simp only [reconstructAll, bind_done, pure_done] at done
    obtain ⟨l, m₁, first, ls, m₂, others, rfl, rfl⟩ := done
    exact List.forall_mem_cons.2 ⟨reconstruct_trim first, reconstructAll_trim others⟩

theorem reconstructEntries_trim {m m' : Machine} {es : List (String × Json)}
    {ls : List (String × Literal)} (done : f.reconstructEntries es m = .done ls m') :
    ∀ e ∈ ls, e.2.Trim := by
  cases es with
  | nil =>
    cases done
    nofun
  | cons e es =>
    simp only [reconstructEntries, bind_done, pure_done] at done
    obtain ⟨l, m₁, first, ls, m₂, others, rfl, rfl⟩ := done
    exact List.forall_mem_cons.2 ⟨reconstruct_trim first, reconstructEntries_trim others⟩

end

/-- What a text that is used as a whole is folded to: the expression of a placeholder that is left
alone, and else the same as any text. -/
theorem foldExpression_done {text : String} {l : Literal} :
    f.foldExpression text m = .done l m' ↔
      (∃ source, l = .expr source ∧ f.fold text m = .done (.deferred [.expr source]) m') ∨
      f.fold text m = .done l m' ∧ ∀ source, l ≠ .deferred [.expr source] := by
  rw [foldExpression, bind_done]
  constructor
  · rintro ⟨folded, m₁, done, ended⟩
    split at ended
    next source =>
      cases ended
      exact .inl ⟨source, rfl, done⟩
    next apart =>
      cases ended
      exact .inr ⟨done, fun source same => apart source same⟩
  · rintro (⟨source, rfl, done⟩ | ⟨done, apart⟩)
    · exact ⟨_, m', done, rfl⟩
    · refine ⟨l, m', done, ?_⟩
      split
      next source => exact absurd rfl (apart source)
      next => rfl

end Folder

/-! ## Literals of compiled programs -/

/-- Whether the literals of a step are trimmed, except that a loop may have an expression for its
source. -/
def Step.Trim : Step → Prop
  | .loop list _ => list.Trim ∨ ∃ source, list = .expr source
  | step => ∀ l ∈ step.literals, l.Trim

namespace Compile

variable {c : Context} {target : Target} {m m' : Machine} {args : List Json} {steps : List Step}

theorem Declared.trim {entries : List (String × Json)} (h : Declared c entries m steps m') :
    ∀ step ∈ steps, step.Trim := by
  induction h with
  | none => nofun
  | next _ made _ ih =>
    exact List.forall_mem_cons.2 ⟨List.forall_mem_singleton.2 (Folder.reconstruct_trim made), ih⟩

theorem Invoked.trim (h : Invoked c target args m steps m') : Throughout Step.Trim steps := by
  refine .of_invocation h.invocation ?_
  cases h with
  | declaration _ declared => exact declared.trim
  | command _ made => exact List.forall_mem_singleton.2 (Folder.reconstructAll_trim made)
  | function _ made => exact List.forall_mem_singleton.2 (Folder.reconstructAll_trim made)

theorem Unrolls.trim {items : List Json} {index : Nat}
    (h : Unrolls c target args index items m steps m') : Throughout Step.Trim steps := by
  induction h with
  | none => exact .nil
  | next made invoked _ ih =>
    refine .block nofun (.declare ?_ (.declare ?_ invoked.trim)) ih
    · exact List.forall_mem_singleton.2 (Folder.reconstruct_trim made)
    · exact List.forall_mem_singleton.2 (.const _)

theorem Becomes.trim {task : Task} (h : Becomes c target task m steps m') :
    Throughout Step.Trim steps := by
  cases h with
  | once _ invoked => exact invoked.trim
  | unrolled _ unrolls => exact unrolls.trim
  | repeated _ folds invoked =>
    refine .loop ?_ invoked.trim
    rcases Folder.foldExpression_done.1 folds with ⟨source, rfl, -⟩ | ⟨done, -⟩
    · exact .inr ⟨source, rfl⟩
    · exact .inl (Folder.fold_trim done)

theorem compile_trim {options : CompileOptions} {registry : Registry} {tasks : List Task}
    {compiled : CompiledProgram} (done : compile options registry tasks m = .done compiled m') :
    Throughout Step.Trim compiled.program.steps := by
  obtain ⟨parts, is_, -, -, steps⟩ := compile_done done
  rw [steps]
  refine .flatten (List.forall_mem_map.2 fun part there => ?_)
  obtain ⟨n, there⟩ := List.mem_iff_getElem?.1 there
  obtain ⟨task, known₁, known₂, m₁, m₂, m₃, -, -, made⟩ := is_.at_ there
  exact (taskSteps_cases made).trim

end Compile

namespace Folder

open Compile

/-- Folding keeps exactly the placeholders that read names which may stay unbound. It fails as the
first placeholder that fails otherwise, without trying those after it; if none does, a text becomes a
constant when every placeholder has a value, and else the placeholders without one in their order,
with all that stands between them put together. So a literal that is left to be evaluated has a
placeholder and no text without need, and an expression stands for itself only as the source of a
loop, where it is the placeholder that is left alone of a text. -/
theorem fold_keeps_unbound (f : Folder) :
    (∀ text segments, Template.parse text = .ok segments → ∀ m,
      (∀ e m', f.fold text m = .failed e m' ↔ f.Stops (Template.expressions segments) m e m') ∧
      (∀ found m', f.Tries (Template.expressions segments) m found m' →
        ∃ l, f.fold text m = .done l m' ∧ Folded segments found l) ∧
      ∀ l m', f.fold text m = .done l m' →
        ∃ found, f.Tries (Template.expressions segments) m found m' ∧ Folded segments found l) ∧
    (∀ v m l m', f.reconstruct v m = .done l m' → l.Trim) ∧
    (∀ text m l m', f.foldExpression text m = .done l m' ↔
      (∃ source, l = .expr source ∧ f.fold text m = .done (.deferred [.expr source]) m') ∨
      f.fold text m = .done l m' ∧ ∀ source, l ≠ .deferred [.expr source]) ∧
    ∀ options registry tasks m compiled m', compile options registry tasks m = .done compiled m' →
      Throughout Step.Trim compiled.program.steps := by
  refine ⟨fun text segments parsed m => ⟨fun e m' => fold_failed parsed, ?_, ?_⟩,
    fun v m l m' => reconstruct_trim, fun text m l m' => foldExpression_done,
    fun options registry tasks m compiled m' => compile_trim⟩
  · intro found m' tries
    exact ⟨_, (fold_done parsed).2 ⟨found, tries, rfl⟩,
      literalFrom_folded tries.length fun _ => parsed_source parsed⟩
  · intro l m' done
    obtain ⟨found, tries, rfl⟩ := (fold_done parsed).1 done
    exact ⟨found, tries, literalFrom_folded tries.length fun _ => parsed_source parsed⟩

/-! ## A placeholder between texts -/

namespace Partial

/-- What is known: the system, but no element. -/
def known : Bindings := [("os", .str "linux")]

def text : String := "$\x7bos\x7d-$\x7bitem\x7d!"

set_option maxRecDepth 100000 in
theorem parses : Template.parse text = .ok [.expr "os", .text "-", .expr "item", .text "!"] := by
  cbv

set_option maxRecDepth 100000 in
theorem evaluates : (evaluate "os" known (Machine.initial {})).passes (fun v m =>
    v = .str "linux" && match evaluate "item" known m with
      | .failed (.unbound name) _ => name = "item"
      | _ => false) = true := by
  decide +kernel

/-- The system is put together with the text after it, and the element is left. -/
theorem keeps_item : ∃ m, (⟨known, none⟩ : Folder).fold text (Machine.initial {}) =
    .done (.deferred [.text "linux-", .expr "item", .text "!"]) m := by
  obtain ⟨v, m₁, system, next⟩ := Outcome.passes_iff.1 evaluates
  rw [Bool.and_eq_true, decide_eq_true_eq] at next
  obtain ⟨rfl, next⟩ := next
  split at next
  next name m₂ element =>
    have tries : (⟨known, none⟩ : Folder).Tries ["os", "item"] (Machine.initial {})
        [some (.str "linux"), none] m₂ := .value system (.unbound element rfl .nil)
    obtain ⟨l, done, folded⟩ := ((fold_keeps_unbound ⟨known, none⟩).1 _ _ parses _).2.1 _ _ tries
    refine ⟨m₂, done.trans ?_⟩
    cases folded with
    | value is_ => cases is_
    | text complete => exact absurd (.tail _ (.head _)) complete
    | deferred _ _ content normal =>
      have fewest : Segment.Normal [.text "linux-", .expr "item", .text "!"] :=
        ⟨by simp [Segment.atoms], by simp⟩
      rw [normal.unique fewest content]
  next => cases next

end Partial

end Folder

end Tasklang
