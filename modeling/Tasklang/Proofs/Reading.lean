import Tasklang.Proofs.Parts
import Tasklang.Proofs.Placeholders

/-! # Reading names in code

Code whose names are looked up in a scope gets what they stand for there: in a run, what was bound
last in the scopes at hand, else a global. What a run binds are the names that every program has,
those of its imports and of its declarations, and those of its loops.
-/

namespace Tasklang

namespace Lua

/-- Reading a name has one answer. -/
theorem Outcome.Answers.unique {m : Machine} {name : String} {r r' : Option Value}
    {o : Outcome Value Value} (h : o.Answers m name r) (h' : o.Answers m name r') : r = r' := by
  cases o with
  | done v m' => exact h.1.trans h'.1.symm
  | failed e m' => exact h.1.trans h'.1.symm
  | exhausted => exact h.elim

end Lua

namespace Execution

open Lua Lua.Run

/-- What a name stands for in a run: what was bound last in the scopes at hand, or else a global. -/
def Log.stands? (log : Log) (m : Machine) (name : String) (scopes : List Scope) : Option Value :=
  match log.meaning? name scopes with
  | some v => some v
  | none => match m.global name with
    | .nil => none
    | v => some v

/-- Code reads what a name stands for in a run. -/
theorem Sound.reads {name : String} {c : Config} {log : Log} {m' : Machine}
    {f : Station × Activity} (h : Sound name 2 log c) (here : f ∈ c.todo)
    (grows : c.machine.Grows m') (kept : Machine.Spares name c.machine m')
    (plain : log.stands? m' name f.1.scopes = none → m'.PlainGlobals) :
    m'.Reads f.1.scope name (log.stands? m' name f.1.scopes) := by
  obtain ⟨chain, fits⟩ := h.seated f here
  have faithful := h.faithful.code grows kept
  have chain := (Extends.code grows).chain chain
  have same : m'.meaning? name f.1.scopes = log.stands? m' name f.1.scopes := by
    unfold Machine.meaning? Log.stands?
    exact faithful.displayed.binding chain ▸ rfl
  rw [← same] at plain ⊢
  exact chain.reads (faithful.proper chain) plain (by omega)

section Compiled

variable {options : CompileOptions} {registry : Registry} {tasks : List Task} {m m' : Machine}
  {known : List String} {parts : List Compile.Part} {p : Program} {c : Capabilities} {w : World}
  {name : String}

/-- Loading a placeholder leaves all names alone. -/
theorem spares_loaded (m : Machine) (s : Scope) (source : String) (chunk : Chunk) (name : String) :
    Machine.Spares name m (m.loaded s source chunk) := fun _ _ => ⟨rfl, id⟩

/-- Wherever a run of a compiled program is, names are seen as what they stand for there. -/
theorem Progress.sees (is_ : Compile.Parts options registry 0 known tasks m parts m')
    (r : Progress (Machine.Spares name) p (parts.map (·.steps)) c w) {f : Station × Activity}
    (here : f ∈ r.config.todo) {m₁ : Machine} (grows : r.config.machine.Grows m₁)
    (kept : Machine.Spares name r.config.machine m₁)
    (plain : r.log.stands? m₁ name f.1.scopes = none → m₁.PlainGlobals) :
    m₁.Sees f.1.scope name (r.log.stands? m₁ name f.1.scopes) := by
  have sound : Sound name 2 r.log r.config := is_.sound r (by decide) (by decide)
  have roomy : Sound name 4 r.log r.config := is_.sound r (by decide) (by decide)
  refine ⟨sound.reads here grows kept plain, fun source same => ?_⟩
  have loaded := m₁.grows_loaded f.1.scope source [.ret [.name name]]
  have reads := sound.reads here (grows.trans loaded)
    (Machine.Spares.trans kept grows (spares_loaded m₁ f.1.scope source _ name)) plain
  refine reads.eval same ?_
  rw [grows.budget]
  exact roomy.budget

end Compiled

theorem Log.stands?_bound {log : Log} {m : Machine} {name : String} {scopes : List Scope} {v : Value}
    (bound : log.meaning? name scopes = some v) : log.stands? m name scopes = some v := by
  rw [stands?, bound]

/-- A name that a run does not bind has no meaning in its log. -/
theorem Log.meaning?_none {log : Log} {name : String} (free : ∀ e ∈ log, e.name ≠ name)
    (scopes : List Scope) : log.meaning? name scopes = none := by
  induction scopes with
  | nil => rfl
  | cons s ss ih =>
    rw [meaning?, latest?_none fun e he _ => free e he]
    exact ih

section Names

/-- Whether steps declare a name, themselves or in their loops and blocks. -/
def Declares (parts : List (List Step)) (name : String) : Prop :=
  ∃ part ∈ parts, ∃ body value, Within part body ∧ .declare name value ∈ body

/-- The names that runs of a program may bind. -/
inductive Binds (p : Program) (parts : List (List Step)) : String → Prop where
  | start {name} : name ∈ [p.naming.result, p.naming.root, p.naming.env] → Binds p parts name
  | imported {i} : i ∈ p.imports → Binds p parts i.binding
  | declared {name} : Declares parts name → Binds p parts name
  | round {name} : name ∈ [p.naming.item, p.naming.index] → Binds p parts name

variable {s : Session} {keeps : Machine → Machine → Prop} {root : Scope}
  {parts : List (List Step)} {c c' : Config} {events : Log} {p : Program}

theorem Move.binds (moved : Move s keeps c events c') (naming : s.naming = p.naming)
    (h : Originates root parts c.todo) : ∀ e ∈ events, Binds p parts e.name := by
  intro e he
  cases moved with
  | @declare q past next name value todo m m' v found kept =>
    cases List.mem_singleton.1 he
    obtain ⟨-, part, there, within⟩ := h _ (.head _)
    exact .declared ⟨part, List.mem_of_getElem? there, _, value, within, mem_body past next _⟩
  | call found given ended kept =>
    cases List.mem_singleton.1 he
    rw [naming]
    exact .start (.head _)
  | round item =>
    rw [naming] at he
    rcases List.mem_cons.1 he with rfl | he
    · exact .round (.tail _ (.head _))
    · cases List.mem_singleton.1 he
      exact .round (.head _)
  | _ => cases he

theorem Path.binds (path : Path s keeps c events c') (naming : s.naming = p.naming)
    (h : Originates root parts c.todo) : ∀ e ∈ events, Binds p parts e.name := by
  induction path with
  | start => nofun
  | move path moved ih =>
    intro e he
    rcases List.mem_append.1 he with he | he
    · exact moved.binds naming (path.originates h) e he
    · exact ih e he

theorem Imported.binds {m m' : Machine} {imports : List Import} {log : Log}
    (h : Imported s keeps root m imports log m') : ∀ e ∈ log, ∃ i ∈ imports, e.name = i.binding := by
  induction h with
  | none => nofun
  | @next m i imports v m₁ log m' had kept rest ih =>
    intro e he
    rcases List.mem_append.1 he with he | he
    · obtain ⟨i', there, same⟩ := ih e he
      exact ⟨i', .tail _ there, same⟩
    · cases List.mem_singleton.1 he
      exact ⟨i, .head _, rfl⟩

theorem install_naming {naming : Naming} {c : Capabilities} {m m' : Machine} {s : Session}
    (h : install naming c m = .done s m') : s.naming = naming := by
  cases installed : c.registry.install with
  | error e =>
    simp only [install, installed] at h
    cases h
  | ok entries =>
    simp only [install, installed, bind_done, pure_done] at h
    obtain ⟨_, _, -, _, _, -, _, _, -, rfl, -⟩ := h
    rfl

/-- A run binds no other names than those that its program binds. -/
theorem Progress.binds {capabilities : Capabilities} {w : World}
    (r : Progress keeps p parts capabilities w) : ∀ e ∈ r.log, Binds p parts e.name := by
  intro e he
  rcases List.mem_append.1 he with he | he
  · exact r.path.binds (install_naming r.installs) (originates_start r.root parts) e he
  · rcases List.mem_append.1 he with he | he
    · obtain ⟨i, there, same⟩ := r.imports.binds e he
      rw [same]
      exact .imported there
    · refine .start ?_
      simp only [startLog, List.mem_cons, List.not_mem_nil, or_false] at he
      rcases he with rfl | rfl | rfl <;> simp

end Names

end Execution

end Tasklang
