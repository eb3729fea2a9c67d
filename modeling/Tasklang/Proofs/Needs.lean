import Tasklang.Proofs.Parsing
import Tasklang.Lua.Binding

/-! # What an expression needs elsewhere

The variables that an expression uses and the places that it takes do not depend on the lines of its
source, and further up in a function it takes as many places as before.
-/

namespace Tasklang.Lua

namespace Label

variable (d : Nat)

theorem isLabel_down (s : Stat) : isLabel (s.down d) = isLabel s := by cases s <;> rfl

theorem all_isLabel_down (ss : List Stat) : (downStats d ss).all isLabel = ss.all isLabel := by
  induction ss with
  | nil => rfl
  | cons s ss ih => rw [downStats, List.all_cons, List.all_cons, isLabel_down, ih]

mutual

theorem block_down (at_ : Place) (active : Nat) (waiting : List Pending) (ss : List Stat) :
    block at_ active waiting (downStats d ss) = block at_ active waiting ss := by
  match ss with
  | [] => rfl
  | s :: ss =>
    have inner := inside_down at_.visible active s
    cases s with
    | label l => simp only [downStats, Stat.down, block, all_isLabel_down, block_down]
    | goto l => simp only [downStats, Stat.down, block, block_down]
    | «local» names es => exact block_down at_ _ waiting ss
    | localFunction x b => exact block_down at_ _ waiting ss
    | _ =>
      simp only [Stat.down] at inner
      simp only [downStats, Stat.down, block, inner, block_down]

theorem inside_down (visible : List String) (active : Nat) (s : Stat) :
    inside visible active (s.down d) = inside visible active s := by
  cases s with
  | ifThen c ss other => simp only [Stat.down, inside, block_down]
  | block ss | whileDo c ss | repeatUntil ss c | numericFor line x start stop step ss
  | genericFor line names es ss => exact block_down _ _ _ ss
  | _ => rfl

end

theorem wellPlaced_down (params : Nat) (ss : List Stat) :
    wellPlaced params (downStats d ss) = wellPlaced params ss := by
  rw [wellPlaced, wellPlaced, block_down]

end Label

namespace Binding

variable (d : Nat)

theorem Scopes.holds_down (s : Scopes) (e : Expr) : s.holds (e.down d) = s.holds e := by
  match e with
  | .paren e => exact Scopes.holds_down s e
  | .nil | .bool _ | .int _ | .float _ | .str _ | .varargs | .name _ | .index .. | .call ..
  | .method .. | .unary .. | .binary .. | .and .. | .or .. | .table .. | .function _ => rfl

theorem isKnown_down (s : Scopes) (e : Expr) : isKnown s (e.down d) = isKnown s e := by
  cases e with
  | unary line op e => cases op <;> cases e <;> rfl
  | _ => rfl

theorem declared_down (s : Scopes) (names : List (String × Attribute)) (es : List Expr) :
    declared s names (downAll d es) = declared s names es := by
  induction names generalizing es with
  | nil => cases es <;> rfl
  | cons x names ih =>
    have tail (es : List Expr) : (downAll d es).drop 1 = downAll d (es.drop 1) := by
      cases es <;> rfl
    match names, es with
    | [], [e] => simp only [downAll, declared, isKnown_down]
    | [], [] => rfl
    | [], e :: e' :: es => rfl
    | y :: names, es =>
      show _ :: declared s (y :: names) ((downAll d es).drop 1) = _
      rw [tail, ih]
      rfl

mutual

theorem expr_down (s : Scopes) (free : Nat) (e : Expr) :
    expr s free (e.down d) = expr s free e := by
  cases e with
  | index line o k =>
    simp only [Expr.down, expr, Scopes.holds_down, expr_down]
  | call line f as => simp only [Expr.down, expr, expr_down, exprs_down]
  | method line o x as => simp only [Expr.down, expr, expr_down, exprs_down]
  | paren e => exact expr_down s free e
  | unary line op e => exact expr_down s free e
  | binary line op l r => simp only [Expr.down, expr, Scopes.holds_down, expr_down]
  | and l r => simp only [Expr.down, expr, expr_down]
  | or l r => simp only [Expr.down, expr, expr_down]
  | table line fs => simp only [Expr.down, expr, fields_down]
  | function b => simp only [Expr.down, expr, function_down]
  | _ => rfl

theorem exprs_down (s : Scopes) (free : Nat) (es : List Expr) :
    exprs s free (downAll d es) = exprs s free es := by
  match es with
  | [] => rfl
  | e :: es => simp only [downAll, exprs, expr_down, exprs_down]

theorem fields_down (s : Scopes) (free waiting : Nat) (fs : List Field) :
    fields s free waiting (downFields d fs) = fields s free waiting fs := by
  match fs with
  | [] => rfl
  | .item e :: fs => simp only [downFields, Field.down, fields, expr_down, fields_down]
  | .entry k e :: fs =>
    simp only [downFields, Field.down, fields, Scopes.holds_down, expr_down, fields_down]

theorem function_down (s : Scopes) (b : Body) : function s (b.down d) = function s b := by
  match b with
  | .mk params variadic stats =>
    simp only [Body.down, function, block_down, Label.wellPlaced_down]

theorem targets_down (s : Scopes) (free : Nat) (es : List Expr) :
    targets s free (downAll d es) = targets s free es := by
  match es with
  | [] => rfl
  | e :: es =>
    cases e with
    | index line o k =>
      simp only [downAll, Expr.down, targets, Scopes.holds_down, expr_down, targets_down]
      cases k <;> rfl
    | _ => simp only [downAll, Expr.down, targets, targets_down]

theorem stat_down (s : Scopes) (st : Stat) : stat s (st.down d) = stat s st := by
  cases st with
  | numericFor line x start stop step ss =>
    cases step <;> simp only [Stat.down, downStep, stat, expr_down, block_down]
  | _ => simp only [Stat.down, stat, expr_down, exprs_down, block_down, targets_down,
      function_down, declared_down]

theorem block_down (s : Scopes) (ss : List Stat) : block s (downStats d ss) = block s ss := by
  match ss with
  | [] => rfl
  | st :: ss => simp only [downStats, block, stat_down, block_down]

end

/-! ## Places -/

/-- What a part needs that starts so many places further up in its function, at most. -/
def Needs.Raised (k : Nat) (needs needs' : Needs) : Prop :=
  needs'.captured = needs.captured ∧ needs'.places ≤ needs.places + k

variable {k : Nat} {a a' b b' : Needs}

theorem Needs.Raised.join (h : a.Raised k a') (h' : b.Raised k b') :
    (a.join b).Raised k (a'.join b') := by
  refine ⟨?_, ?_⟩
  · simp only [Needs.join, h.1, h'.1]
  · have := h.2
    have := h'.2
    simp only [Needs.join]
    omega

theorem Needs.Raised.refl (k : Nat) (a : Needs) : a.Raised k a := ⟨rfl, Nat.le_add_right _ _⟩

/-- What is found out further up in a function. -/
def Raises (k : Nat) (r r' : Check Needs) : Prop :=
  ∀ needs, r = .ok needs → ∃ needs', r' = .ok needs' ∧ needs.Raised k needs'

theorem Raises.ok (h : a.Raised k a') : Raises k (.ok a) (.ok a') := by
  rintro needs ⟨⟩
  exact ⟨a', rfl, h⟩

theorem Raises.bind {r r' : Check Needs} {f f' : Needs → Check Needs} (h : Raises k r r')
    (next : ∀ a a', a.Raised k a' → Raises k (f a) (f' a')) : Raises k (r >>= f) (r' >>= f') := by
  cases r with
  | error e => nofun
  | ok a =>
    obtain ⟨a', is_, raised⟩ := h a rfl
    rw [is_]
    exact next a a' raised

theorem Raises.same (r : Check Needs) : Raises k r r := fun a is_ => ⟨a, is_, .refl k a⟩

theorem Needs.raised_next (free k : Nat) :
    Needs.Raised k { places := free + 1 } { places := free + k + 1 } :=
  ⟨rfl, by simp only; omega⟩

mutual

theorem expr_raises (s : Scopes) (free k : Nat) (e : Expr) :
    Raises k (expr s free e) (expr s (free + k) e) := by
  have next (e : Expr) (ih : Raises k (expr s (free + 1) e) (expr s (free + 1 + k) e)) :
      Raises k (expr s (free + 1) e) (expr s (free + k + 1) e) := by
    rwa [Nat.add_right_comm]
  cases e with
  | name x => exact .ok ((Needs.Raised.refl k _).join (Needs.raised_next free k))
  | index line o key =>
    refine (expr_raises s free k o).bind fun a a' object => ?_
    refine Raises.bind ?_ fun b b' other => .ok (object.join other)
    split
    · exact expr_raises s free k key
    · exact next key (expr_raises s (free + 1) k key)
  | call line f as =>
    refine (expr_raises s free k f).bind fun a a' callee => ?_
    refine Raises.bind ?_ fun b b' other => .ok (callee.join other)
    rw [Nat.add_right_comm]
    exact exprs_raises s (free + 1) k as
  | method line o x as =>
    refine (expr_raises s free k o).bind fun a a' object => ?_
    refine Raises.bind ?_ fun b b' other => .ok ((object.join ?_).join other)
    · rw [Nat.add_right_comm]
      exact exprs_raises s (free + 2) k as
    · exact ⟨rfl, by simp only; omega⟩
  | paren e => exact expr_raises s free k e
  | unary line op e => exact expr_raises s free k e
  | binary line op l r =>
    refine (expr_raises s free k l).bind fun a a' left => ?_
    refine Raises.bind ?_ fun b b' other => .ok (left.join other)
    split
    · exact next r (expr_raises s (free + 1) k r)
    · exact expr_raises s free k r
  | and l r | or l r =>
    refine (expr_raises s free k l).bind fun a a' left => ?_
    exact (expr_raises s free k r).bind fun b b' other => .ok (left.join other)
  | table line fs =>
    refine Raises.bind ?_ fun a a' others => .ok ((Needs.raised_next free k).join others)
    rw [Nat.add_right_comm]
    exact fields_raises s (free + 1) 0 k fs
  | function b =>
    exact (Raises.same (function s b)).bind fun a a' others =>
      .ok ((Needs.raised_next free k).join others)
  | _ => exact .ok (Needs.raised_next free k)

theorem exprs_raises (s : Scopes) (free k : Nat) (es : List Expr) :
    Raises k (exprs s free es) (exprs s (free + k) es) := by
  match es with
  | [] => exact .ok (.refl k _)
  | e :: es =>
    refine (expr_raises s free k e).bind fun a a' first => ?_
    refine Raises.bind ?_ fun b b' others => .ok (first.join others)
    rw [Nat.add_right_comm]
    exact exprs_raises s (free + 1) k es

theorem fields_raises (s : Scopes) (free waiting k : Nat) (fs : List Field) :
    Raises k (fields s free waiting fs) (fields s (free + k) waiting fs) := by
  match fs with
  | [] => exact .ok (.refl k _)
  | .item e :: fs =>
    refine Raises.bind ?_ fun a a' value => ?_
    · rw [Nat.add_right_comm]
      exact expr_raises s _ k e
    · exact (fields_raises s free _ k fs).bind fun b b' others => .ok (value.join others)
  | .entry key e :: fs =>
    refine Raises.bind ?_ fun a a' name => ?_
    · rw [Nat.add_right_comm]
      exact expr_raises s _ k key
    refine Raises.bind ?_ fun b b' value => ?_
    · split
      · rw [Nat.add_right_comm]
        exact expr_raises s _ k e
      · rw [Nat.add_right_comm free k, Nat.add_right_comm _ k]
        exact expr_raises s _ k e
    · exact (fields_raises s free _ k fs).bind fun c c' others => .ok ((name.join value).join others)

end

end Binding

end Tasklang.Lua
