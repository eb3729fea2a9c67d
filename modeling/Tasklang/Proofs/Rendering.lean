import Tasklang.Execution.Interpreter
import Tasklang.Proofs.Folding
import Tasklang.Proofs.Joining
import Tasklang.Proofs.Operands

/-! # Templates as expressions

A template has the same text as an expression of its own as when its placeholders are evaluated one
by one, as long as these are expressions that come to the same values wherever they stand.
-/

namespace Tasklang.Lua

/-- The expression of source is one only. -/
theorem Whole.unique {room places : Nat} {source : String} {e e' : Expr}
    (h : Whole room places source e) (h' : Whole room places source e') : e = e' := by
  obtain ⟨_, _, read⟩ := h.read
  obtain ⟨_, _, read'⟩ := h'.read
  rw [read] at read'
  cases read'
  rfl

end Tasklang.Lua

namespace Tasklang.Template

open Lua Lua.Code

theorem quoteChar_clean (c : Char) : '\x00' ∉ quoteChar c := by
  unfold quoteChar
  split_ifs with quote backslash feed back tab control
  · decide
  · decide
  · decide
  · decide
  · decide
  · have digits : ∀ n < 128, '\x00' ∉ '\\' :: Number.padZeros 3 (Number.digitChars n) := by
      decide
    refine digits _ ?_
    simp only [isControl, Bool.or_eq_true, decide_eq_true_eq, beq_iff_eq] at control
    omega
  · rw [List.mem_singleton]
    rintro rfl
    exact control rfl

theorem has_append (c : Char) (s t : String) :
    Text.has c (s ++ t) = (Text.has c s || Text.has c t) := by
  rw [Text.has, Text.has, Text.has, String.toList_append, List.contains_append]

theorem has_quote (s : String) : Text.has '\x00' (quote s) = false := by
  rw [Text.has, quote, String.toList_ofList, ← Bool.not_eq_true, List.contains_iff_mem]
  simp only [List.cons_append, List.mem_cons, List.mem_append, List.mem_flatMap, List.not_mem_nil,
    or_false, not_or, not_exists, not_and]
  exact ⟨by decide, fun c _ => quoteChar_clean c, by decide⟩

theorem has_intercalate {c : Char} {between : String} (free : Text.has c between = false)
    {texts : List String} (each : ∀ s ∈ texts, Text.has c s = false) :
    Text.has c (between.intercalate texts) = false := by
  induction texts with
  | nil => rfl
  | cons s texts ih =>
    obtain ⟨first, others⟩ := List.forall_mem_cons.1 each
    match texts with
    | [] => rwa [String.intercalate_singleton]
    | s' :: texts =>
      rw [String.intercalate_cons_cons, has_append, has_append, first, free, ih others]
      rfl

/-- The source of a template holds a NUL only where a placeholder does. -/
theorem has_concatSource {segments : List Segment}
    (plain : ∀ source, .expr source ∈ segments → Text.has '\x00' source = false) :
    Text.has '\x00' (concatSource segments) = false := by
  rw [concatSource]
  split_ifs
  · rfl
  · refine has_intercalate rfl fun s there => ?_
    obtain ⟨x, inside, rfl⟩ := List.mem_map.1 there
    cases x with
    | text s => exact has_quote s
    | expr source =>
      rw [segmentSource, has_append, has_append, plain source inside]
      rfl

/-- The text of segments, given what placeholders show. -/
def filled (shown : String → String) : List Segment → String
  | [] => ""
  | .text s :: segments => s ++ filled shown segments
  | .expr source :: segments => shown source ++ filled shown segments

/-- Whether a placeholder shows a text where it is an expression that comes to values wherever it
stands in a scope. -/
structure Stands (room places turns : Nat) (m : Machine) (s : Scope) (source : String) (e : Expr)
    (v : Value) (vs : List Value) (text : String) : Prop where
  plain : Text.has '\x00' source = false
  parsed : Chunk.parse 0 (returning (Bytes.ofString source)) = .ok [.ret [e]]
  whole : Whole room places source e
  comes : m.Comes s turns e (v :: vs)
  shows : m.Shows v text

section Evaluation

variable {depth room places turns n : Nat} {m m₁ : Machine} {s : Scope} {ss : List Scope}
  {segments : List Segment} {shown : String → String} {ts rest : List Lexeme} {segment : Segment}
  {e : Expr} {env : Env}

/-- The text of a template whose placeholders are evaluated one by one. -/
theorem textIn_filled (f : m.Furnished) (adds : m.Adds m₁)
    (stands : ∀ source, .expr source ∈ segments →
      ∃ e v vs, Stands room places turns m s source e v vs (shown source))
    (few : turns ≤ 10000000) :
    ∃ m₂, textIn s segments m₁ = .done (filled shown segments) m₂ ∧ m₁.Adds m₂ := by
  induction segments generalizing m₁ with
  | nil => exact ⟨m₁, rfl, .refl m₁⟩
  | cons segment segments ih =>
    have others : ∀ source, .expr source ∈ segments → _ := fun source there => stands source (.tail _ there)
    cases segment with
    | text t =>
      obtain ⟨m₂, text, added⟩ := ih adds others
      refine ⟨m₂, ?_, added⟩
      show (textIn s segments m₁).andThen _ _ = _
      rw [text]
      rfl
    | expr source =>
      obtain ⟨e, v, vs, h⟩ := stands source (.head _)
      have loaded := m₁.adds_loaded s source [.ret [e]]
      have budget : m₁.budget = 9999999999 + 1 := adds.grows.budget.trans f.budget
      obtain ⟨j, most, m₂, leads, added⟩ := h.comes.returned (n := 9999999999) (adds.trans loaded)
        (placeholderEnv_open m₁ s source _) rfl (by decide)
      have evaluated := eval_returned h.plain h.parsed budget (by omega) leads
      have added := loaded.trans added
      obtain ⟨m₃, text, added'⟩ := ih (adds.trans added) others
      refine ⟨m₃, ?_, added.trans added'⟩
      have segment : segmentText s (.expr source) m₁ = .done (shown source) m₂ := by
        show (s.eval source m₁).andThen _ _ = _
        rw [evaluated]
        exact h.shows.display f (adds.trans added)
      show (segmentText s (.expr source) m₁).andThen _ _ = _
      rw [segment]
      show (textIn s segments m₂).andThen _ _ = _
      rw [text]
      rfl

/-- The text of one segment, given what placeholders show. -/
def segmentFilled (shown : String → String) : Segment → String
  | .text s => s
  | .expr source => shown source

theorem filled_cons (shown : String → String) (segment : Segment) (segments : List Segment) :
    filled shown (segment :: segments) = segmentFilled shown segment ++ filled shown segments := by
  cases segment <;> rfl

/-- What is known where the expression of a template is evaluated. -/
structure Ready (room places turns depth : Nat) (m : Machine) (s : Scope) (ss : List Scope)
    (shown : String → String) (segments : List Segment) : Prop where
  furnished : m.Furnished
  below : m.Below depth s ss
  levels : 2 * depth + 1 < Site.levelLimit
  stands : ∀ source, .expr source ∈ segments →
    ∃ e v vs, Stands room places turns m s source e v vs (shown source)

/-- Operands without placeholders have the text of their segments at once. -/
theorem Chain.value {apply : Apply} (chain : Chain room places ts segments e)
    (free : e.hasCall = false) :
    (env.value apply e).exec m₁ = .done (.ofString (filled shown segments)) m₁ := by
  induction chain with
  | one operand =>
    cases operand with
    | text t =>
      rw [filled_cons, filled, String.append_empty]
      rfl
    | expr => cases free
  | more operand chain ih =>
    cases operand with
    | text t =>
      rw [filled_cons, Value.ofString, Bytes.ofString_append]
      show ((env.value apply _).exec m₁).andThen _ _ = _
      rw [ih free]
      rfl
    | expr => cases free

section Chains

variable (ready : Ready room places turns depth m s ss shown segments)

include ready

/-- The function that gives texts is what its name stands for. -/
theorem Ready.tostring (adds : m.Adds m₁) (opens : env.Open m₁ s) (least : Site.levelLimit ≤ n) :
    (env.value (within n) (.name "tostring")).exec m₁ = .done (.function (.basic .tostring)) m₁ := by
  have f := adds.furnished ready.furnished
  have b := adds.below ready.below
  have other : "tostring" ≠ environmentName := by decide
  have answers := opens.answers other f b ready.levels least
  rw [b.meaning_library (by decide) (by rw [f.tostring]; nofun), f.tostring] at answers
  exact answers.done

/-- The argument of an operand is evaluated for the function that gives its text. -/
theorem Ready.argument {source : String} {e : Expr} (d : Nat) (tail : Bool) (line : Nat)
    (k : List Frame) (there : .expr source ∈ segments) (whole : Whole room places source e)
    (adds : m.Adds m₁) (opens : env.Open m₁ s) (least : Site.levelLimit ≤ n) :
    ∃ j ≤ turns + 2, ∃ v vs m₂, m.Shows v (shown source) ∧ Leads (within n) j
      (.running (.eval env (.name "tostring"))
        (.value (.callee env line (.named "tostring") [e.down d] tail) :: k)) m₁
      (.running (.giveAll (v :: vs)) (.values (.arguments env line (.named "tostring")
        (.function (.basic .tostring)) tail) :: k)) m₂ ∧ m₁.Adds m₂ := by
  obtain ⟨e', v, vs, h⟩ := ready.stands source there
  obtain rfl := whole.unique h.whole
  obtain ⟨j, most, s₁, m₂, m₃, starts, leads, added⟩ := h.comes.passed d (.arguments env line
    (.named "tostring") (.function (.basic .tostring)) tail) k adds opens least
  refine ⟨1 + (1 + j), by omega, v, vs, m₃, h.shows, ?_, added⟩
  exact (leads_value rfl rfl (ready.tostring adds opens least)).trans ((Leads.step
    (c := .give (.function (.basic .tostring))) (k := .value (.callee env line
      (.named "tostring") [e.down d] tail) :: k) starts).trans leads)

/-- An operand comes to the text of its segment. -/
theorem Ready.operand (operand : Operand room places rest ts segment e) (k : List Frame)
    (there : segment ∈ segments) (adds : m.Adds m₁) (opens : env.Open m₁ s)
    (least : Site.levelLimit ≤ n) : ∃ j ≤ turns + 4, ∃ m₂,
      Leads (within n) j (.running (.eval env e) k) m₁
        (.running (.give (.ofString (segmentFilled shown segment))) k) m₂ ∧ m₁.Adds m₂ := by
  cases operand with
  | text t => exact ⟨1, by omega, m₁, leads_value rfl rfl rfl, .refl m₁⟩
  | @expr source e d line before line' before' ts whole moved =>
    obtain ⟨j, most, v, vs, m₂, shows, leads, added⟩ :=
      ready.argument d false line' k there whole adds opens least
    refine ⟨1 + (j + 1), by omega, m₂, ?_, added⟩
    exact leads_callee.trans (leads.trans (leads_library (f := .basic .tostring) nofun fun c =>
      exec_tostring_shows shows (adds.trans added) c).given)

/-- Operands that are joined come to the text of their segments. -/
theorem Ready.chain {some_ : List Segment} (chain : Chain room places ts some_ e) (k : List Frame)
    (there : some_ ⊆ segments) (adds : m.Adds m₁) (opens : env.Open m₁ s)
    (least : Site.levelLimit ≤ n) : ∃ j ≤ some_.length * (turns + 7), ∃ m₂,
      Leads (within n) j (.running (.eval env e) k) m₁
        (.running (.give (.ofString (filled shown some_))) k) m₂ ∧ m₁.Adds m₂ := by
  induction chain generalizing m₁ k with
  | @one ts segment e line before operand =>
    obtain ⟨j, most, m₂, leads, added⟩ := ready.operand operand k (there (.head _)) adds opens least
    refine ⟨j, ?_, m₂, ?_, added⟩
    · simp only [List.length_singleton]
      omega
    · rw [filled_cons, filled, String.append_empty]
      exact leads
  | @more ts us segment segments' l right line before operand chain ih =>
    cases calls : (Expr.binary line .concat l right).hasCall with
    | false =>
      refine ⟨1, ?_, m₁, leads_value calls rfl (Chain.value (.more operand chain) calls), .refl m₁⟩
      simp only [List.length_cons, Nat.add_mul]
      omega
    | true =>
      obtain ⟨i, most, m₂, leads, added⟩ := ready.operand operand
        (.value (.leftOperand env line .concat right) :: k) (there (.head _)) adds opens least
      obtain ⟨j, most', m₃, leads', added'⟩ := ih (.value (.rightOperand env line .concat
        (.value (.ofString (segmentFilled shown segment)))) :: k)
        (fun x inside => there (.tail _ inside)) (adds.trans added) (opens.adds added)
      refine ⟨1 + (i + (1 + (j + 1))), ?_, m₃, ?_, added.trans added'⟩
      · simp only [List.length_cons, Nat.add_mul]
        omega
      · rw [filled_cons, Value.ofString, Bytes.ofString_append]
        exact (leads_left calls).trans (leads.trans (leads_right.trans (leads'.trans leads_joined)))

/-- A function that returns the operands of a template, joined, returns the text of the template. -/
theorem Ready.returned (chain : Chain room places ts segments e) (adds : m.Adds m₁)
    (opens : env.Open m₁ s) (open_ : env.closing = false) (least : Site.levelLimit ≤ n) :
    ∃ j ≤ segments.length * (turns + 7) + 5, ∃ m₂,
      Leads (within n) j (.running (.exec (.block env [.ret [e]])) [.flow .body]) m₁
        (.running (.giveAll [.ofString (filled shown segments)]) []) m₂ ∧ m₁.Adds m₂ := by
  cases chain with
  | @one ts segment e line before operand =>
    rw [filled_cons, filled, String.append_empty, List.length_singleton]
    cases operand with
    | text t =>
      exact ⟨1 + 2, by omega, m₁, (leads_ret_value rfl rfl rfl).trans leads_returned, .refl m₁⟩
    | @expr source e d line before line' before' ts whole moved =>
      obtain ⟨j, most, v, vs, m₂, shows, leads, added⟩ :=
        ready.argument d true line' [.flow .body] (.head _) whole adds opens least
      refine ⟨1 + (j + 2), by omega, m₂, ?_, added⟩
      exact (leads_tail open_).trans (leads.trans (leads_library_tail (f := .basic .tostring) nofun
        fun c => exec_tostring_shows shows (adds.trans added) c))
  | @more ts us segment segments l right line before operand chain =>
    have chain := Chain.more operand chain
    cases calls : (Expr.binary line .concat l right).hasCall with
    | false =>
      exact ⟨1 + 2, by omega, m₁,
        (leads_ret_value calls rfl (chain.value calls)).trans leads_returned, .refl m₁⟩
    | true =>
      obtain ⟨j, most, m₂, leads, added⟩ := ready.chain chain [.values .ret, .flow .body]
        (fun _ there => there) adds opens least
      refine ⟨2 + (j + 2), by omega, m₂, ?_, added⟩
      exact (leads_ret rfl calls).trans (leads.trans leads_given_returned)

end Chains

/-- The operands of a template, joined, evaluate to the text of the template. -/
theorem Ready.eval_chain (ready : Ready room places turns depth m s ss shown segments)
    (some_ : segments ≠ []) (levels : room + segments.length < Site.levelLimit - 1)
    (fits : segments.length + places ≤ Binding.placeLimit) (few : turns ≤ 10000000) :
    ∃ m', s.eval (concatSource segments) m = .done (.ofString (filled shown segments)) m' ∧
      m.Adds m' := by
  have whole (source : String) (there : .expr source ∈ segments) :
      ∃ e, Whole room places source e := by
    obtain ⟨e, v, vs, h⟩ := ready.stands source there
    exact ⟨e, h.whole⟩
  have plain (source : String) (there : .expr source ∈ segments) :
      Text.has '\x00' source = false := by
    obtain ⟨e, v, vs, h⟩ := ready.stands source there
    exact h.plain
  obtain ⟨ts, e, chain, parsed⟩ := parse_chain some_ whole levels fits
  rw [← concatSource_bytes some_] at parsed
  have loaded := m.adds_loaded s (concatSource segments) [.ret [e]]
  obtain ⟨j, most, m', leads, added⟩ := ready.returned (n := 9999999999) chain loaded
    (placeholderEnv_open m s _ _) rfl (by decide)
  refine ⟨m', eval_returned (has_concatSource plain) parsed ready.furnished.budget ?_ leads,
    loaded.trans added⟩
  have many : segments.length ≤ 200 := by
    have : Site.levelLimit = 200 := rfl
    omega
  have := Nat.mul_le_mul many (Nat.add_le_add_right few 7)
  omega

/-- A template whose placeholders are expressions that come to the same values wherever they stand
has the same text when these are evaluated one by one and as an expression of its own. -/
theorem eval_concatSource (ready : Ready room places turns depth m s ss shown segments)
    (levels : room + segments.length < Site.levelLimit - 1)
    (fits : segments.length + places ≤ Binding.placeLimit) (few : turns ≤ 10000000) :
    (∃ m', Execution.literalValue s (.deferred segments) m =
      .done (.ofString (filled shown segments)) m') ∧
    ∃ m', s.eval (concatSource segments) m = .done (.ofString (filled shown segments)) m' := by
  constructor
  · obtain ⟨m', text, -⟩ := textIn_filled ready.furnished (.refl m) ready.stands few
    refine ⟨m', ?_⟩
    show ((textIn s segments m).andThen _ _ : Outcome _ _).andThen _ _ = _
    rw [text]
    rfl
  · cases segments with
    | nil =>
      have empty : Ready 0 0 0 depth m s ss shown [.text ""] :=
        ⟨ready.furnished, ready.below, ready.levels, by simp⟩
      obtain ⟨m', evaluated, -⟩ := empty.eval_chain nofun (by decide) (by decide) (Nat.zero_le _)
      exact ⟨m', evaluated⟩
    | cons segment segments =>
      obtain ⟨m', evaluated, -⟩ := ready.eval_chain nofun levels fits few
      exact ⟨m', evaluated⟩

end Evaluation

end Tasklang.Template

namespace Tasklang.Template.Greeting

open Lua

/-- The names that are known. -/
def bindings : Bindings := [("name", .str "Ann"), ("n", .int 2)]

/-- The segments, whose placeholders calculate and call a function. -/
def segments : List Segment :=
  [.text "Dear ", .expr "string.upper(name)", .text ", ", .expr "-n"]

/-- What the placeholders show. -/
def shown (source : String) : String := if source = "-n" then "-2" else "ANN"

example : parse "Dear $\x7bstring.upper(name)\x7d, $\x7b-n\x7d" = .ok segments := by decide +kernel

/-- A call of a function of the library. -/
def upper : Expr := .call 1 (.index 1 (.name "string") (.str (Bytes.ofString "upper"))) [.name "name"]

/-- The negative of a number. -/
def negative : Expr := .unary 1 .neg (.name "n")

/-- Whether an expression is the call. -/
def isUpper : Expr → Bool
  | .call line (.index line' (.name x) (.str k)) [.name y] =>
    line = 1 && line' = 1 && x = "string" && k = Bytes.ofString "upper" && y = "name"
  | _ => false

/-- Whether an expression is the negative. -/
def isNegative : Expr → Bool
  | .unary line .neg (.name x) => line = 1 && x = "n"
  | _ => false

theorem isUpper_only (e : Expr) (is_ : isUpper e = true) : e = upper := by
  unfold isUpper at is_
  split at is_
  · simp only [Bool.and_eq_true, decide_eq_true_eq] at is_
    obtain ⟨⟨⟨⟨rfl, rfl⟩, rfl⟩, rfl⟩, rfl⟩ := is_
    rfl
  · cases is_

theorem isNegative_only (e : Expr) (is_ : isNegative e = true) : e = negative := by
  unfold isNegative at is_
  split at is_
  · simp only [Bool.and_eq_true, decide_eq_true_eq] at is_
    obtain ⟨rfl, rfl⟩ := is_
    rfl
  · cases is_

/-- Whether source is read as an expression of some form, as a chunk and alone. -/
def readsAs (form : Expr → Bool) (source : String) : Bool :=
  (match Chunk.parse 0 (returning (Bytes.ofString source)) with
    | .ok [.ret [e]] => form e
    | _ => false) &&
  match Parser.expr (Parser.fuelFor (Token.lex (Bytes.ofString source))) ⟨true, false, 9⟩ 0
      (Token.lex (Bytes.ofString source)) with
  | .ok (e, [⟨.done, _, _⟩]) => form e
  | _ => false

theorem of_readsAs {form : Expr → Bool} (source : String) {e : Expr}
    (only : ∀ a, form a = true → a = e) (reads : readsAs form source = true) :
    Chunk.parse 0 (returning (Bytes.ofString source)) = .ok [.ret [e]] ∧
    ∃ line before, Parser.expr (Parser.fuelFor (Token.lex (Bytes.ofString source)))
      ⟨true, false, 9⟩ 0 (Token.lex (Bytes.ofString source)) = .ok (e, [⟨.done, line, before⟩]) := by
  rw [readsAs, Bool.and_eq_true] at reads
  obtain ⟨chunk, alone⟩ := reads
  constructor
  · split at chunk
    · next e' parsed => rw [parsed, only e' chunk]
    · cases chunk
  · split at alone
    · next e' line before read => exact ⟨line, before, by rw [read, only e' alone]⟩
    · cases alone

section Places

variable {m : Machine} {s : Scope} (furnished : m.Furnished) (below : m.Below 1 s [s])
  (sights : m.Sights [s] bindings.sight)

include furnished below

theorem upper_callee : m.Gives [s] (.index 1 (.name "string") (.str (Bytes.ofString "upper")))
    (.function (.string .upper)) := by
  have library : m.global "string" = .table 4 := by
    rw [furnished.names "string" (by decide)]
    decide +kernel
  have strings : m.Gives [s] (.name "string") (.table 4) := by
    refine .name (by decide) ?_
    rw [below.meaning_library (by decide) (by rw [library]; nofun), library]
  exact .index strings (.str _) (furnished.index_library (by decide) (by decide) (by decide)
    (by decide) nofun)

include sights

theorem upper_comes : m.Comes s 6 upper [.ofString "ANN"] := by
  obtain ⟨name, found, _, _, _, made, -⟩ := sights "name" (by decide)
  obtain rfl := (Json.plain?_made made (.text "Ann")).1 rfl
  exact (upper_callee furnished below).comes_call furnished below (by decide)
    (.cons (.name (by decide) found) .nil) nofun fun _ _ _ => rfl

theorem upper_stands :
    Stands 9 9 6 m s "string.upper(name)" upper (.ofString "ANN") [] "ANN" := by
  have read := of_readsAs "string.upper(name)" isUpper_only (by decide +kernel)
  refine ⟨by decide, read.1, ⟨?_, read.2, _, rfl, by decide, by decide⟩, ?_,
    furnished.shows (.text "ANN")⟩
  · exact ⟨[.name "string", .symbol ".", .name "upper", .symbol "(", .name "name", .symbol ")"],
      by decide +kernel, by decide +kernel⟩
  · exact upper_comes furnished below sights

theorem negative_stands : Stands 9 9 6 m s "-n" negative (.int (-2)) [] "-2" := by
  have read := of_readsAs "-n" isNegative_only (by decide +kernel)
  obtain ⟨n, found, _, _, _, made, -⟩ := sights "n" (by decide)
  obtain rfl := (Json.plain?_made made (.whole 2)).1 rfl
  have given : m.Gives [s] negative (.int (-2)) :=
    .unary (.name (by decide) found) fun _ _ _ => rfl
  refine ⟨by decide, read.1, ⟨?_, read.2, _, rfl, by decide, by decide⟩, ?_,
    furnished.shows (.whole (-2))⟩
  · exact ⟨[.symbol "-", .name "n"], by decide +kernel, by decide +kernel⟩
  · exact (given.comes furnished below (by decide)).mono (by decide)

end Places

/-- The template says the same to a scope as its expression. -/
theorem evaluates_greeting : ∃ s m,
    (Scope.ofBindings bindings : Run EvalError Scope) (Machine.initial {}) = .done s m ∧
    (∃ m', Execution.literalValue s (.deferred segments) m =
      .done (.ofString "Dear ANN, -2") m') ∧
    ∃ m', s.eval (concatSource segments) m = .done (.ofString "Dear ANN, -2") m' := by
  obtain ⟨s, m, opened⟩ := @Scope.ofBindings_ends EvalError bindings (Machine.initial {})
  obtain ⟨fresh, below, sights⟩ := Knows.ofBindings_sights ⟨by decide, by decide⟩
    (Machine.fresh_initial {}) opened
  have ready : Ready 9 9 6 1 m s [s] shown segments := by
    refine ⟨fresh.toFurnished, below, by decide, fun source there => ?_⟩
    simp only [segments, List.mem_cons, reduceCtorEq, Segment.expr.injEq, List.not_mem_nil, or_false,
      false_or] at there
    rcases there with rfl | rfl
    · exact ⟨_, _, _, upper_stands fresh.toFurnished below sights⟩
    · exact ⟨_, _, _, negative_stands fresh.toFurnished below sights⟩
  exact ⟨s, m, opened, eval_concatSource ready (by decide) (by decide) (by decide)⟩

end Tasklang.Template.Greeting

namespace Tasklang.Template

open Lua

/-- Source that cannot be parsed has no value. -/
theorem eval_unparsed {s : Scope} {source : String} {m m' : Machine} {v : Value}
    (failed : (Chunk.parse 0 (returning (Bytes.ofString source))).isOk = false) :
    s.eval source m ≠ .done v m' := by
  unfold Scope.eval Scope.valueOf
  cases parsed : Chunk.parse 0 (returning (Bytes.ofString source)) with
  | ok chunk =>
    rw [parsed] at failed
    cases failed
  | error e =>
    split
    · nofun
    · intro done
      cases done

/-- A comment in a placeholder is none in the expression, where it hides the parenthesis. -/
theorem eval_concatSource_comment : parse "$\x7b1 -- one\x7d" = .ok [.expr "1 -- one"] ∧ ∃ s m,
    (Scope.root : Run EvalError Scope) (Machine.initial {}) = .done s m ∧
    (∃ m', Execution.literalValue s (.deferred [.expr "1 -- one"]) m = .done (.ofString "1") m') ∧
    ∀ v m', s.eval (concatSource [.expr "1 -- one"]) m ≠ .done v m' := by
  have runs : ((Scope.root : Run EvalError Scope) (Machine.initial {})).passes (fun s m =>
      (Execution.literalValue s (.deferred [.expr "1 -- one"]) m).passes fun v _ =>
        v = .ofString "1") = true := by
    decide +kernel
  obtain ⟨s, m, opened, runs⟩ := Outcome.passes_iff.1 runs
  obtain ⟨v, m', text, is_⟩ := Outcome.passes_iff.1 runs
  obtain rfl := of_decide_eq_true is_
  refine ⟨by decide +kernel, s, m, opened, ⟨m', text⟩, fun v m' => ?_⟩
  exact eval_unparsed (by decide +kernel)

end Tasklang.Template
