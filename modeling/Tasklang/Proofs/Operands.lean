import Tasklang.Proofs.Parsing
import Tasklang.Proofs.Turns

/-! # Expressions that come to the same values everywhere

An expression comes to values in a scope when evaluating it leads to them, wherever it stands and
whatever a machine gained. So does one that combines constants, names and fields, and a call of a
library function with such expressions.
-/

namespace Tasklang.Lua

open Code

/-- Whether an expression comes to values wherever it stands in a scope, in so many turns, and adds to
the machine at most: as the argument of a call, on whatever line, and as what a function returns. -/
structure Machine.Comes (m : Machine) (s : Scope) (turns : Nat) (e : Expr) (vs : List Value) :
    Prop where
  passed {env : Env} {n : Nat} {m₁ : Machine} (d : Nat) (f : ListFrame) (k : List Frame) :
    m.Adds m₁ → env.Open m₁ s → Site.levelLimit ≤ n → ∃ j ≤ turns, ∃ s₁ m₂ m₃,
      (Transition.listFor (within n) env [e.down d] f k).exec m₁ = .done s₁ m₂ ∧
      Leads (within n) j s₁ m₂ (.running (.giveAll vs) (.values f :: k)) m₃ ∧ m₁.Adds m₃
  returned {env : Env} {n : Nat} {m₁ : Machine} : m.Adds m₁ → env.Open m₁ s →
    env.closing = false → Site.levelLimit ≤ n → ∃ j ≤ turns, ∃ m₂,
      Leads (within n) j (.running (.exec (.block env [.ret [e]])) [.flow .body]) m₁
        (.running (.giveAll vs) []) m₂ ∧ m₁.Adds m₂

theorem Machine.Comes.mono {m : Machine} {s : Scope} {turns more : Nat} {e : Expr} {vs : List Value}
    (h : m.Comes s turns e vs) (le : turns ≤ more) : m.Comes s more e vs where
  passed d f k adds opens least := by
    obtain ⟨j, most, rest⟩ := h.passed d f k adds opens least
    exact ⟨j, Nat.le_trans most le, rest⟩
  returned adds opens open_ least := by
    obtain ⟨j, most, rest⟩ := h.returned adds opens open_ least
    exact ⟨j, Nat.le_trans most le, rest⟩

/-- Whether a value has a text, however it is asked for it, and whatever a machine gained. -/
def Machine.Shows (m : Machine) (v : Value) (text : String) : Prop :=
  ∀ (c : Caller) (m₁ : Machine), m.Adds m₁ →
    (toText c v).exec m₁ = .done (Bytes.ofString text) m₁

/-- The function that gives texts of values. -/
theorem exec_tostring_shows {m m₁ : Machine} {v : Value} {vs : List Value} {text : String}
    (shows : m.Shows v text) (adds : m.Adds m₁) (c : Caller) :
    (applyLibrary c (.basic .tostring) (v :: vs)).exec m₁ = .done [.ofString text] m₁ := by
  show ((toText c v) >>= fun text => Pure.pure [Value.str text] : Code Value (List Value)).exec m₁ = _
  rw [exec_bind, shows c m₁ adds]
  rfl

/-- Strings have no metamethod that gives another text. -/
theorem Machine.Furnished.toText_str {m : Machine} (f : m.Furnished) (c : Caller) (b : Bytes) :
    (toText c (.str b)).exec m = .done b m := by
  have none_ : (m.tables.getD stringMetaRef {}).field "__tostring" = .nil := by
    rw [f.tables stringMetaRef (by decide +kernel) (by decide) (by decide)]
    decide +kernel
  have absent : (metamethod (.str b) "__tostring").exec m = .done .nil m :=
    congrArg (Outcome.done · m) none_
  simp only [toText, exec_bind, absent, Outcome.andThen_done]
  rfl

/-- What is shown as a text is displayed as that text. -/
theorem Machine.Shows.display {m m₁ : Machine} {v : Value} {text : String} (f : m.Furnished)
    (shows : m.Shows v text) (adds : m.Adds m₁) : Tasklang.display v m₁ = .done text m₁ := by
  have f := adds.furnished f
  by_cases str : ∃ b, v = .str b
  · obtain ⟨b, rfl⟩ := str
    have same := (shows host m₁ adds).symm.trans (f.toText_str host b)
    obtain ⟨rfl, -⟩ := Outcome.done.inj same
    simp only [Tasklang.display, Bytes.decodeLossy_ofString]
    rfl
  have called : (globalValue "tostring").exec m₁ = .done (.function (.basic .tostring)) m₁ := by
    rw [exec_globalValue (by rw [f.tostring]; simp), f.tostring]
  obtain ⟨n, budget, -⟩ := f.steps
  have invoked : (invoke (.function (.basic .tostring)) [v]).exec m₁ = .done [.ofString text] m₁ := by
    rw [exec_invoke (n := n + 3) _ (by simp) budget]
    exact exec_tostring_shows shows adds _
  rw [display_asks fun b is_ => str ⟨b, is_⟩]
  simp only [Run.bind_apply, unlifted, Run.code_apply, exec_explain, called, Outcome.andThen_done,
    callFunction, invoked, Run.pure_apply, first, List.headD_cons, Value.toText?,
    Value.ofString, Value.toBytes?, Bytes.decode?_ofString]
  rfl

/-- A plain value has the text that it is displayed with. -/
theorem Machine.Furnished.shows {m : Machine} (f : m.Furnished) (p : Plain) :
    m.Shows p.value p.shown := by
  intro c m₁ adds
  by_cases text : ∃ s, p = .text s
  · obtain ⟨s, rfl⟩ := text
    exact (adds.furnished f).toText_str c _
  · have given := exec_tostring c p m₁ fun s is_ => text ⟨s, is_⟩
    have asked : (applyLibrary c (.basic .tostring) [p.value]).exec m₁ =
        ((toText c p.value).exec m₁).andThen (fun text => .done [.str text]) .failed := rfl
    rw [asked] at given
    cases evaluated : (toText c p.value).exec m₁ with
    | done b m₂ =>
      rw [evaluated] at given
      cases given
      rfl
    | failed => rw [evaluated] at given; cases given
    | exhausted => rw [evaluated] at given; cases given

/-! ## Expressions that only read -/

/-- A name of the library stands for the global below scopes that declare no such name. -/
theorem Machine.Below.meaning_library {depth : Nat} {m : Machine} {s : Scope} {ss : List Scope}
    {name : String} (b : m.Below depth s ss) (library : name ∈ libraryNames)
    (there : m.global name ≠ .nil) : m.meaning? name ss = some (m.global name) := by
  have free : m.binding? name ss = none := by
    have clear := b.clear
    clear b
    induction ss with
    | nil => rfl
    | cons t ss ih =>
      rw [Machine.binding?, if_neg (show name ∉ (m.record t).declared from fun declared =>
        clear t (.head _) name declared library)]
      exact ih fun u hu => clear u (.tail _ hu)
  rw [Machine.meaning?, free]
  cases value : m.global name with
  | nil => exact absurd value there
  | _ => rfl

/-- Reading a field of a table of the library. -/
theorem Machine.Furnished.index_library {m : Machine} {r : TableRef} {name : String} {v : Value}
    (f : m.Furnished) (there : r < initialTables.length) (other : r ≠ globalsRef) (apart : r ≠ loadedRef)
    (found : (initialTables.getD r {}).field name = v) (some_ : v ≠ .nil) (c : Caller) (m' : Machine)
    (adds : m.Adds m') :
    (Lua.index c metaHops (.table r) (.str (Bytes.ofString name))).exec m' = .done v m' := by
  have field : (m'.tables.getD r {}).field name = v := by
    rw [(adds.furnished f).tables r there other apart, found]
  rw [← field, show metaHops = 1999 + 1 from rfl,
    show Value.str (Bytes.ofString name) = .ofString name from rfl]
  exact Lua.index_field c 1999 r name (by rwa [field])

/-- How an expression gets its value from what names stand for below some scopes, by operations that
always have the same result. -/
inductive Machine.Gives (m : Machine) (ss : List Scope) : Expr → Value → Prop
  | nil : Gives m ss .nil .nil
  | bool (b : Bool) : Gives m ss (.bool b) (.bool b)
  | int (n : Int64) : Gives m ss (.int n) (.int n)
  | float (x : Double) : Gives m ss (.float x) (.float x)
  | str (s : Bytes) : Gives m ss (.str s) (.str s)
  | name {x : String} {v : Value} : x ≠ environmentName → m.meaning? x ss = some v →
    Gives m ss (.name x) v
  | index {line : Nat} {o k : Expr} {object key v : Value} : Gives m ss o object → Gives m ss k key →
    (∀ c m', m.Adds m' → (Lua.index c metaHops object key).exec m' = .done v m') →
    Gives m ss (.index line o k) v
  | paren {e : Expr} {v : Value} : Gives m ss e v → Gives m ss (.paren e) v
  | unary {line : Nat} {op : UnaryOp} {e : Expr} {v w : Value} : Gives m ss e v →
    (∀ c m', m.Adds m' → (Lua.unary c op v).exec m' = .done w m') →
    Gives m ss (.unary line op e) w
  | binary {line : Nat} {op : BinaryOp} {l r : Expr} {a b v : Value} : Gives m ss l a →
    Gives m ss r b → (∀ c m', m.Adds m' → (Lua.binary c op a b).exec m' = .done v m') →
    Gives m ss (.binary line op l r) v
  | and {l r : Expr} {v w : Value} : Gives m ss l v → Gives m ss r w →
    Gives m ss (.and l r) (if v.truthy then w else v)
  | or {l r : Expr} {v w : Value} : Gives m ss l v → Gives m ss r w →
    Gives m ss (.or l r) (if v.truthy then v else w)

namespace Machine.Gives

variable {depth n : Nat} {m m₁ : Machine} {s : Scope} {ss : List Scope} {e : Expr} {v : Value}
  {env : Env}

theorem free (h : m.Gives ss e v) : e.hasCall = false := by
  induction h with
  | index _ _ _ first second => rw [Expr.hasCall, first, second]; rfl
  | paren _ inner => rw [Expr.hasCall, inner]
  | unary _ _ inner => rw [Expr.hasCall, inner]
  | binary _ _ _ first second => rw [Expr.hasCall, first, second]; rfl
  | and _ _ first second => rw [Expr.hasCall, first, second]; rfl
  | or _ _ first second => rw [Expr.hasCall, first, second]; rfl
  | _ => rfl

theorem single (h : m.Gives ss e v) : e.isMultiple = false := by
  cases h <;> rfl

/-- The value is the same on whatever line an expression stands. -/
theorem down (d : Nat) (h : m.Gives ss e v) : m.Gives ss (e.down d) v := by
  induction h with
  | nil => exact .nil
  | bool b => exact .bool b
  | int n => exact .int n
  | float x => exact .float x
  | str s => exact .str s
  | name other there => exact .name other there
  | index _ _ found first second => exact .index first second found
  | paren _ inner => exact .paren inner
  | unary _ same inner => exact .unary inner same
  | binary _ _ same first second => exact .binary first second same
  | and _ _ first second => exact .and first second
  | or _ _ first second => exact .or first second

theorem adds (h : m.Gives ss e v) (b : m.Below depth s ss) (adds : m.Adds m₁) :
    m₁.Gives ss e v := by
  induction h with
  | nil => exact .nil
  | bool b => exact .bool b
  | int n => exact .int n
  | float x => exact .float x
  | str s => exact .str s
  | name other there => exact .name other ((adds.meaning b _).trans there)
  | index _ _ found first second =>
    exact .index first second fun c m' more => found c m' (adds.trans more)
  | paren _ inner => exact .paren inner
  | unary _ same inner => exact .unary inner fun c m' more => same c m' (adds.trans more)
  | binary _ _ same first second =>
    exact .binary first second fun c m' more => same c m' (adds.trans more)
  | and _ _ first second => exact .and first second
  | or _ _ first second => exact .or first second

/-- The environment is none of the names that are read. -/
theorem ne_environment (h : m.Gives ss e v) : e ≠ .name environmentName := by
  cases h with
  | name other => exact fun is_ => other (Expr.name.inj is_)
  | _ => nofun

/-- The value of an expression that only reads. -/
theorem value (h : m.Gives ss e v) (f : m.Furnished) (b : m.Below depth s ss)
    (levels : 2 * depth + 1 < Site.levelLimit) (opens : env.Open m s)
    (least : Site.levelLimit ≤ n) : (env.value (within n) e).exec m = .done v m := by
  induction h with
  | name other there =>
    have answers := opens.answers other f b levels least
    rw [there] at answers
    exact answers.done
  | index object key found first second =>
    simp only [Env.value, opens.heldObject? object.ne_environment, Option.isSome_none,
      Bool.false_eq_true, if_false, exec_bind, first, second, Outcome.andThen_done]
    exact found _ _ (.refl m)
  | paren _ inner => exact inner
  | unary _ same inner =>
    simp only [Env.value, exec_bind, inner, Outcome.andThen_done]
    exact same _ _ (.refl m)
  | @binary line op l r a b v left right same first second =>
    simp only [Env.value, opens.heldLeft?, Option.isSome_none, Bool.false_eq_true, if_false,
      exec_bind, first, second, Outcome.andThen_done]
    exact same _ _ (.refl m)
  | and _ _ first second =>
    simp only [Env.value, exec_bind, first, Outcome.andThen_done]
    split
    · exact second
    · rfl
  | or _ _ first second =>
    simp only [Env.value, exec_bind, first, Outcome.andThen_done]
    split
    · rfl
    · exact second
  | _ => rfl

section Comes

variable (f : m.Furnished) (b : m.Below depth s ss) (levels : 2 * depth + 1 < Site.levelLimit)

include f b levels

/-- The values of expressions that only read. -/
theorem values {es : List Expr} {vs : List Value} (given : List.Forall₂ (m.Gives ss) es vs)
    (opens : env.Open m s) (least : Site.levelLimit ≤ n) :
    (env.values (within n) es).exec m = .done vs m := by
  induction given with
  | nil => rfl
  | @cons e v es vs h _ ih =>
    have listed : env.values (within n) (e :: es) =
        env.value (within n) e >>= fun v => env.values (within n) es >>= fun vs =>
          Pure.pure (v :: vs) := by
      cases e <;> first | rfl | cases h.single
    simp only [listed, exec_bind, h.value f b levels opens least, ih, Outcome.andThen_done]
    rfl

/-- An expression that only reads comes to its value wherever it stands. -/
theorem comes (h : m.Gives ss e v) : m.Comes s 3 e [v] where
  passed {env n m₁} d frame k more opens least := by
    have given := (h.down d).adds b more
    have listed : (Transition.listFor (within n) env [e.down d] frame k).exec m₁ =
        .done (.running (.giveAll [v]) (.values frame :: k)) m₁ := by
      rw [Transition.listFor, List.any_cons, given.free]
      simp only [List.any_nil, Bool.or_self, Bool.false_eq_true, if_false, exec_bind,
        values (more.furnished f) (more.below b) levels (.cons given .nil) opens least,
        Outcome.andThen_done]
      rfl
    exact ⟨0, Nat.zero_le _, _, _, _, listed, .refl _ _, .refl m₁⟩
  returned {env n m₁} more opens _ least :=
    ⟨1 + 2, Nat.le_refl _, m₁, (leads_ret_value h.free h.single ((h.adds b more).value
      (more.furnished f) (more.below b) levels opens least)).trans leads_returned, .refl m₁⟩

/-- The values with which a function is called. -/
theorem leads_arguments {line : Nat} {name : CalleeName} {g : Function} {es : List Expr}
    {vs : List Value} {tail : Bool} {k : List Frame} (callee : m.Gives ss e (.function g))
    (given : List.Forall₂ (m.Gives ss) es vs) (opens : env.Open m s) (least : Site.levelLimit ≤ n) :
    Leads (within n) 2 (.running (.eval env e) (.value (.callee env line name es tail) :: k)) m
      (.running (.giveAll vs) (.values (.arguments env line name (.function g) tail) :: k)) m := by
  refine Leads.trans (i := 1) (leads_value callee.free callee.single
    (callee.value f b levels opens least)) (.step ?_)
  show (Transition.listFor _ env es _ k).exec m = _
  have free : es.any Expr.hasCall = false := by
    clear opens
    induction given with
    | nil => rfl
    | cons h _ ih => rw [List.any_cons, h.free, ih]; rfl
  rw [Transition.listFor, free]
  simp only [Bool.false_eq_true, if_false, exec_bind, values f b levels given opens least,
    Outcome.andThen_done]
  rfl

/-- A call of a library function with expressions that only read comes to its results. -/
theorem comes_call {line : Nat} {g : Function} {es : List Expr} {vs rs : List Value}
    (callee : m.Gives ss e (.function g)) (given : List.Forall₂ (m.Gives ss) es vs)
    (native : ∀ ref, g ≠ .closure ref)
    (called : ∀ c m', m.Adds m' → (applyLibrary c g vs).exec m' = .done rs m') :
    m.Comes s 6 (.call line e es) rs where
  passed {env n m₁} d frame k more opens least := by
    have given : List.Forall₂ (m₁.Gives ss) (downAll d es) vs := by
      rw [Parser.downAll_eq_map, List.forall₂_map_left_iff]
      exact given.imp fun _ _ h => (h.down d).adds b more
    refine ⟨5, by decide, .running (.list env [] [_]) (.values frame :: k), m₁, m₁, rfl, ?_, .refl m₁⟩
    exact Leads.trans (i := 1) (.step rfl) (leads_callee.trans ((leads_arguments (more.furnished f)
      (more.below b) levels ((callee.down d).adds b more) given opens least).trans
        (leads_library native fun c => called c m₁ more)))
  returned {env n m₁} more opens open_ least := by
    refine ⟨5, by decide, m₁, ?_, .refl m₁⟩
    exact (leads_tail open_).trans ((leads_arguments (more.furnished f) (more.below b) levels
      (callee.adds b more) (given.imp fun _ _ h => h.adds b more) opens least).trans
        (leads_library_tail native fun c => called c m₁ more))

end Comes

end Machine.Gives

end Tasklang.Lua
