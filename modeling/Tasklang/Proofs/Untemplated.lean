import Tasklang.Compile.TaskList
import Tasklang.Proofs.Folding
import Tasklang.Proofs.Markers

/-! # Texts that are not rendered

What a task names as its target or its module is taken as it is parsed when it is not templated.
Nothing that should have been evaluated is taken for text in this way, and a template compiled from
it would be rendered to the same text, whatever names it may read and whatever these stand for.
-/

namespace Tasklang

open Lua Lua.Run

namespace Template

theorem expressions_eq_nil {segments : List Segment} :
    expressions segments = [] ↔ ∀ source, .expr source ∉ segments := by
  rw [expressions, List.filterMap_eq_nil_iff]
  constructor
  · intro none_ source there
    cases none_ _ there
  · intro textual s there
    cases s with
    | text t => rfl
    | expr source => exact absurd there (textual source)

/-- A template of text alone is rendered to this text, whatever is bound. -/
theorem render_textual {t : Template} (textual : ∀ source, .expr source ∉ t.segments)
    (bindings : Bindings) (m : Machine) :
    ∃ m', t.render bindings m = .done (Folder.textOf t.segments) m' := by
  obtain ⟨s, m₁, opened⟩ := @Scope.ofBindings_ends EvalError (t.visible bindings) m
  have writes : m₁.Writes s t.segments (Folder.textOf t.segments) :=
    Machine.writes_texts (expressions_eq_nil.2 textual)
  obtain ⟨m₂, written, -⟩ := writes m₁ (.refl m₁)
  refine ⟨m₂, ?_⟩
  rw [render, bind_apply, opened, Outcome.andThen_done, written]

end Template

namespace Compile

/-- A text that is not templated is parsed to text alone and taken for what this says. A template
compiled from it says the same, with any names to read and for any bindings of them. -/
theorem renderPublic_untemplated {text : String}
    (untemplated : Template.isTemplated text = false) :
    ∃ segments, Template.parse text = .ok segments ∧ (∀ source, .expr source ∉ segments) ∧
      (∀ (c : Context) (m : Machine),
        renderPublic c text m = .done (Folder.textOf segments) m) ∧
      ∀ (keys : List String) (bindings : Bindings) (m : Machine), ∃ t m',
        Template.ofText text keys = .ok t ∧
        t.render bindings m = .done (Folder.textOf segments) m' := by
  obtain ⟨segments, parses, textual⟩ := Template.parse_untemplated untemplated
  refine ⟨segments, parses, textual, fun c m => ?_, fun keys bindings m => ?_⟩
  · simp only [renderPublic, untemplated, parses]
    rfl
  · have compiled : Template.ofText text keys = .ok ⟨segments, keys⟩ := by
      rw [Template.ofText, parses]
      rfl
    obtain ⟨m', rendered⟩ := Template.render_textual (t := ⟨segments, keys⟩) textual bindings m
    exact ⟨_, m', compiled, rendered⟩

/-! ## An escaped placeholder -/

namespace Untemplated

/-- The library is known while compiling. -/
def context : Context := contextOf { publicContext := { env := [("LIB", "m")] } } {} 0 []

/-- A path with an escaped placeholder, and with an escaped marker that is never closed. -/
def path : String := "./\\$\x7bbuild.env.LIB\x7d/\\$\x7b.lua"

/-- The path without the backslashes. -/
def shown : String := "./$\x7bbuild.env.LIB\x7d/$\x7b.lua"

/-- Though the name in the placeholder is known, it is text for parsing and for rendering. -/
theorem path_taken : Template.isTemplated path = false ∧
    Template.parse path = .ok [.text shown] ∧
    renderPublic context path (Machine.initial {}) = .done shown (Machine.initial {}) ∧
    ∃ t m, Template.ofText path context.publicBindings.names = .ok t ∧
      t.render context.publicBindings (Machine.initial {}) = .done shown m := by
  have untemplated : Template.isTemplated path = false := by decide
  have parses : Template.parse path = .ok [.text shown] := by decide +kernel
  obtain ⟨segments, parses', -, taken, renders⟩ := renderPublic_untemplated untemplated
  cases parses.symm.trans parses'
  exact ⟨untemplated, parses, taken _ _, renders _ _ _⟩

end Untemplated

end Compile

end Tasklang
