import Tasklang.Compile.Invocation
import Tasklang.Proofs.Elements

/-! # Unrolled loops

A loop over a sequence that is known is unrolled: every element becomes a block in which what is
known of it is folded. A loop over a template evaluates the same arguments in every round. Both
perform the same calls, one for each element.
-/

namespace Tasklang

open Lua

/-! ## Texts that are known -/

/-- What segments say where some names are seen. -/
inductive Spells (depth : Nat) (names : List String) (look : String → Sight) :
    List Segment → String → Prop where
  | nil : Spells depth names look [] ""
  | text {segments : List Segment} {said : String} (t : String) :
    Spells depth names look segments said → Spells depth names look (.text t :: segments) (t ++ said)
  | expr {segments : List Segment} {said source : String} {t : Reading Plain} {p : Plain} :
    Describes depth source t → t.Within names → t.run look = .gives p →
    Spells depth names look segments said →
    Spells depth names look (.expr source :: segments) (p.shown ++ said)

namespace Spells

variable {depth : Nat} {names : List String} {look look' : String → Sight}
  {segments : List Segment} {said : String}

theorem congr (same : ∀ name ∈ names, look name = look' name)
    (h : Spells depth names look segments said) : Spells depth names look' segments said := by
  induction h with
  | nil => exact .nil
  | text t _ ih => exact .text t ih
  | expr describes within gives _ ih =>
    rw [Reading.run_within within same] at gives
    exact .expr describes within gives ih

/-- Every placeholder of segments that are known settles. -/
theorem settles {m : Machine} {s : Scope} {ss : List Scope}
    (h : Spells depth names look segments said) (furnished : m.Furnished)
    (below : m.Below depth s ss) (sights : m.Sights ss look) :
    ∀ source ∈ Template.expressions segments, ∃ p, m.Settles s source p := by
  induction h with
  | nil => nofun
  | text _ _ ih => exact ih
  | @expr _ _ _ _ p describes _ gives _ ih =>
    intro source there
    rcases List.mem_cons.1 there with rfl | there
    · exact ⟨p, describes.settles furnished below sights gives⟩
    · exact ih source there

theorem writes {m : Machine} {s : Scope} {ss : List Scope}
    (h : Spells depth names look segments said) (furnished : m.Furnished)
    (below : m.Below depth s ss) (sights : m.Sights ss look) : m.Writes s segments said := by
  induction h with
  | nil => exact Machine.writes_nil
  | text t _ ih => exact ih.after t
  | expr describes _ gives _ ih =>
    exact ih.shown furnished (describes.settles furnished below sights gives)

end Spells

namespace Folder

variable {f : Folder} {depth : Nat} {m₀ : Machine} {names : List String} {segments : List Segment}
  {text said : String}

theorem expressions_joinText (t : String) (segments : List Segment) :
    Template.expressions (joinText t segments) = Template.expressions segments := by
  unfold joinText
  split
  · rfl
  · split <;> rfl

theorem textOf_joinText (t : String) (segments : List Segment) :
    textOf (joinText t segments) = t ++ textOf segments := by
  unfold joinText
  split
  · rename_i empty
    rw [show t = "" by simpa using empty, String.empty_append]
  · split
    · simp only [textOf, List.map_cons, String.join_cons, String.append_assoc]
    · simp only [textOf, List.map_cons, String.join_cons]

end Folder

/-! ## What is known of an element -/

namespace Bindings

variable {bindings : Bindings} {name : String}

/-- Binding one more name, or a name anew, keeps bindings clear. -/
theorem Clear.insert (clear : bindings.Clear) (new : name ∉ libraryNames) (j : Json) :
    (bindings.insert name j).Clear := by
  by_cases known : name ∈ bindings.names
  · have same : (bindings.insert name j).names = bindings.names := by
      rw [names_insert, if_pos known]
    refine ⟨?_, ?_⟩ <;> rw [same]
    · exact clear.unique
    · exact clear.apart
  · have more : (bindings.insert name j).names = bindings.names ++ [name] := by
      rw [names_insert, if_neg known]
    refine ⟨?_, fun other there => ?_⟩
    · rw [more]
      exact List.nodup_append.2 ⟨clear.unique, List.nodup_singleton name, fun a ha b hb same =>
        known (List.mem_singleton.1 hb ▸ same ▸ ha)⟩
    · rw [more, List.mem_append, List.mem_singleton] at there
      rcases there with there | rfl
      · exact clear.apart other there
      · exact new

theorem sight_insert (bindings : Bindings) (name : String) (j : Json) (other : String) :
    (bindings.insert name j).sight other =
      if other = name then .data j else bindings.sight other := by
  have found : (bindings.insert name j).get? other =
      if other = name then some j else bindings.get? other := by
    induction bindings with
    | nil =>
      by_cases same : other = name
      · simp [insert, get?, same]
      · simp [insert, get?, same, List.lookup, beq_false_of_ne same]
    | cons e rest ih =>
      rw [insert_cons]
      by_cases here : e.1 = name
      · subst here
        by_cases same : other = e.1
        · simp [get?, same]
        · simp [get?, same, List.lookup, beq_false_of_ne same]
      · by_cases first : other = e.1
        · obtain ⟨k, v⟩ := e
          simp [get?, first, here]
        · simp only [get?] at ih
          simp [get?, here, List.lookup, beq_false_of_ne first, ih]
  rw [sight, found, sight]
  by_cases same : other = name
  · rw [if_pos same, if_pos same]
  · rw [if_neg same, if_neg same]

end Bindings

namespace Compile

/-- What is seen of names where an element is at hand. -/
def elementSight (naming : Naming) (index : Nat) (item : Json) (name : String) : Sight :=
  if name = naming.item then .data item
  else if name = naming.index then .data (.int index)
  else .unbound

/-- The names of an element. -/
def elementNames (naming : Naming) : List String := [naming.item, naming.index]

/-- Whether an argument says a text where some names are seen. -/
def ArgumentSays (names : List String) (look : String → Sight) (arg : Json) (said : String) : Prop :=
  ∃ text segments, arg = .str text ∧ Template.parse text = .ok segments ∧ 2 ≤ segments.length ∧
    Spells 2 names look segments said

variable {c : Context} {target : Target} {items : List Json} {args : List Json} {n : Nat}
  {calls : List (List String)}

section Unrolling

variable (function : target.kind = .function) (clear : c.bindings.Clear)
  (apart : c.naming.item ≠ c.naming.index)
  (new : ∀ name ∈ elementNames c.naming, name ∉ libraryNames)

include function clear apart new

end Unrolling

/-! ## Steps of a loop over a template -/

/-- Whether a literal is what an argument says, wherever it says something. -/
def Follows (names : List String) (arg : Json) (l : Literal) : Prop :=
  ∀ {m : Machine} {s : Scope} {ss : List Scope} {look : String → Sight} {said : String},
    m.Furnished → m.Below 2 s ss → m.Sights ss look → ArgumentSays names look arg said →
      Execution.Says m s l said

end Compile

end Tasklang
