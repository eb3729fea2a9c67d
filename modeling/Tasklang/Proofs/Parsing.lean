import Tasklang.Proofs.Closing
import Tasklang.Lua.Parser

/-! # Expressions in front of a parenthesis

An expression that is all of its source is read the same further down in other source, up to a
parenthesis that closes what stands around it. What a parser reads depends on the tokens ahead and
never on the end of the source, except that a block may end there; as an expression holds blocks in
functions only, which end at a word, it does not.
-/

namespace Tasklang.Lua

mutual

/-- An expression further down in its source. -/
def Expr.down (d : Nat) : Expr → Expr
  | .index line o k => .index (line + d) (o.down d) (k.down d)
  | .call line f es => .call (line + d) (f.down d) (downAll d es)
  | .method line o x es => .method (line + d) (o.down d) x (downAll d es)
  | .paren e => .paren (e.down d)
  | .unary line op e => .unary (line + d) op (e.down d)
  | .binary line op l r => .binary (line + d) op (l.down d) (r.down d)
  | .and l r => .and (l.down d) (r.down d)
  | .or l r => .or (l.down d) (r.down d)
  | .table line fs => .table (line + d) (downFields d fs)
  | .function b => .function (b.down d)
  | e => e

/-- Expressions further down in their source. -/
def downAll (d : Nat) : List Expr → List Expr
  | [] => []
  | e :: es => e.down d :: downAll d es

/-- A part of a table constructor further down in its source. -/
def Field.down (d : Nat) : Field → Field
  | .item e => .item (e.down d)
  | .entry k e => .entry (k.down d) (e.down d)

/-- The parts of a table constructor further down in their source. -/
def downFields (d : Nat) : List Field → List Field
  | [] => []
  | f :: fs => f.down d :: downFields d fs

/-- A function further down in its source. -/
def Body.down (d : Nat) : Body → Body
  | .mk params variadic stats => .mk params variadic (downStats d stats)

/-- A statement further down in its source. -/
def Stat.down (d : Nat) : Stat → Stat
  | .local names es => .local names (downAll d es)
  | .assign line targets es => .assign (line + d) (downAll d targets) (downAll d es)
  | .call e => .call (e.down d)
  | .block ss => .block (downStats d ss)
  | .whileDo c ss => .whileDo (c.down d) (downStats d ss)
  | .repeatUntil ss c => .repeatUntil (downStats d ss) (c.down d)
  | .ifThen c ss other => .ifThen (c.down d) (downStats d ss) (downStats d other)
  | .numericFor line x start stop step ss =>
    .numericFor (line + d) x (start.down d) (stop.down d) (downStep d step) (downStats d ss)
  | .genericFor line names es ss => .genericFor (line + d) names (downAll d es) (downStats d ss)
  | .localFunction x b => .localFunction x (b.down d)
  | .ret es => .ret (downAll d es)
  | s => s

/-- The step of a loop further down in its source. -/
def downStep (d : Nat) : Option Expr → Option Expr
  | some e => some (e.down d)
  | none => none

/-- Statements further down in their source. -/
def downStats (d : Nat) : List Stat → List Stat
  | [] => []
  | s :: ss => s.down d :: downStats d ss

end

namespace Parser

/-- A context in which as much may be used as in another. -/
structure Context.Within (c c' : Context) : Prop where
  variadic : c'.variadic = c.variadic
  inLoop : c'.inLoop = c.inLoop
  room : c.room ≤ c'.room

/-- What a parser gives, another one gives as well, up to a relation. -/
def Keeps {ρ ρ' : Type} (R : ρ → ρ' → Prop) (r : Parse ρ) (r' : Parse ρ') : Prop :=
  ∀ a, r = .ok a → ∃ a', r' = .ok a' ∧ R a a'

namespace Keeps

variable {ρ ρ' σ σ' : Type} {R : ρ → ρ' → Prop} {S : σ → σ' → Prop}

theorem error (e : ParseError) (r' : Parse ρ') : Keeps R (.error e) r' := nofun

theorem ok {a : ρ} {a' : ρ'} (related : R a a') : Keeps R (.ok a) (.ok a') := by
  rintro a ⟨⟩
  exact ⟨a', rfl, related⟩

theorem bind {x : Parse ρ} {x' : Parse ρ'} {k : ρ → Parse σ} {k' : ρ' → Parse σ'}
    (h : Keeps R x x') (next : ∀ a a', R a a' → Keeps S (k a) (k' a')) :
    Keeps S (x >>= k) (x' >>= k') := by
  cases x with
  | error e => nofun
  | ok a =>
    obtain ⟨a', is_, related⟩ := h a rfl
    rw [is_]
    exact next a a' related

theorem map {r : Parse ρ} {r' : Parse ρ'} {f : ρ → σ} {f' : ρ' → σ'} (h : Keeps R r r')
    (next : ∀ a a', R a a' → S (f a) (f' a')) : Keeps S (r.map f) (r'.map f') := by
  cases r with
  | error e => nofun
  | ok a =>
    obtain ⟨a', rfl, related⟩ := h a rfl
    exact .ok (next a a' related)

end Keeps

variable (d : Nat) (more : List Lexeme)

/-- Tokens further down in their source, in front of a parenthesis. -/
inductive Moved : List Lexeme → List Lexeme → Prop
  | here {line before} :
    Moved [⟨.done, line, before⟩] (⟨.symbol ")", line + d, before + d⟩ :: more)
  | token {t ts ts'} : t.token ≠ .done → Moved ts ts' → Moved (t :: ts) (t.down d :: ts')

/-- A parsed part further down in its source, and the tokens after it. -/
def Part {α : Type} (f : α → α) (p p' : α × List Lexeme) : Prop :=
  p'.1 = f p.1 ∧ Moved d more p.2 p'.2

variable {d more}

namespace Moved

variable {ts ts' : List Lexeme}

/-- A token that is no parenthesis stands there when it stood there before. -/
theorem back {token : Token} {l b : Nat} {us : List Lexeme} (other : token ≠ .symbol ")")
    (moved : Moved d more ts (⟨token, l, b⟩ :: us)) :
    ∃ l' b' us', ts = ⟨token, l', b'⟩ :: us' ∧ Moved d more us' us := by
  generalize same : (⟨token, l, b⟩ :: us : List Lexeme) = ts' at moved
  cases moved with
  | here =>
    cases same
    exact absurd rfl other
  | @token t ts ts' _ moved =>
    obtain ⟨token, l', b'⟩ := t
    cases same
    exact ⟨l', b', ts, rfl, moved⟩

theorem apart {token : Token} (other : token ≠ .symbol ")") (moved : Moved d more ts ts')
    (new : ∀ l b us, ts = ⟨token, l, b⟩ :: us → False) :
    ∀ l b us, ts' = ⟨token, l, b⟩ :: us → False := by
  rintro l b us rfl
  obtain ⟨l, b, us, rfl, -⟩ := moved.back other
  exact new _ _ _ rfl

theorem apart₂ {token token' : Token} (other : token ≠ .symbol ")") (other' : token' ≠ .symbol ")")
    (moved : Moved d more ts ts')
    (new : ∀ l b l' b' us, ts = ⟨token, l, b⟩ :: ⟨token', l', b'⟩ :: us → False) :
    ∀ l b l' b' us, ts' = ⟨token, l, b⟩ :: ⟨token', l', b'⟩ :: us → False := by
  rintro l b l' b' us rfl
  obtain ⟨l, b, us, rfl, after⟩ := moved.back other
  exact after.apart other' (fun l' b' us is_ => new l b l' b' us (congrArg _ is_)) _ _ _ rfl

theorem apart₃ {token token' token'' : Token} (other : token ≠ .symbol ")")
    (other' : token' ≠ .symbol ")") (other'' : token'' ≠ .symbol ")") (moved : Moved d more ts ts')
    (new : ∀ l b l' b' l'' b'' us,
      ts = ⟨token, l, b⟩ :: ⟨token', l', b'⟩ :: ⟨token'', l'', b''⟩ :: us → False) :
    ∀ l b l' b' l'' b'' us,
      ts' = ⟨token, l, b⟩ :: ⟨token', l', b'⟩ :: ⟨token'', l'', b''⟩ :: us → False := by
  rintro l b l' b' l'' b'' us rfl
  obtain ⟨l, b, us, rfl, after⟩ := moved.back other
  exact after.apart₂ other' other''
    (fun l' b' l'' b'' us is_ => new l b l' b' l'' b'' us (congrArg _ is_)) _ _ _ _ _ rfl

theorem symbol (s : String) (moved : Moved d more ts ts') :
    Keeps (Moved d more) (Parser.symbol s ts) (Parser.symbol s ts') := by
  unfold Parser.symbol
  split
  · obtain _ | ⟨-, moved⟩ := moved
    simp only [Lexeme.down]
    split
    · exact .ok moved
    · exact .error _ _
  · exact .error _ _

theorem keyword (w : String) (moved : Moved d more ts ts') :
    Keeps (Moved d more) (Parser.keyword w ts) (Parser.keyword w ts') := by
  unfold Parser.keyword
  split
  · obtain _ | ⟨-, moved⟩ := moved
    simp only [Lexeme.down]
    split
    · exact .ok moved
    · exact .error _ _
  · exact .error _ _

theorem name (moved : Moved d more ts ts') :
    Keeps (Part d more id) (Parser.name ts) (Parser.name ts') := by
  unfold Parser.name
  split
  · obtain _ | ⟨-, moved⟩ := moved
    exact .ok ⟨rfl, moved⟩
  · exact .error _ _

theorem startsWith {s : String} (other : s ≠ ")") (moved : Moved d more ts ts') :
    Parser.startsWith s ts' = Parser.startsWith s ts := by
  cases moved with
  | here => exact beq_false_of_ne other.symm
  | @token t =>
    obtain ⟨token, line, before⟩ := t
    cases token <;> rfl

theorem lineOf (moved : Moved d more ts ts') : Parser.lineOf ts' = Parser.lineOf ts + d := by
  cases moved <;> rfl

theorem lineBefore (moved : Moved d more ts ts') :
    Parser.lineBefore ts' = Parser.lineBefore ts + d := by
  cases moved <;> rfl

theorem tail {s : String} (moved : Moved d more ts ts') (there : Parser.startsWith s ts = true) :
    Moved d more (ts.drop 1) (ts'.drop 1) := by
  cases moved with
  | here => cases there
  | token _ moved => exact moved

/-- Going one level further down. -/
theorem enter {c c' : Context} (moved : Moved d more ts ts') (within : c.Within c') :
    Keeps Context.Within (c.enter ts) (c'.enter ts') := by
  obtain ⟨variadic, inLoop, room⟩ := within
  obtain ⟨_, _, n⟩ := c
  obtain ⟨_, _, n'⟩ := c'
  rw [Context.enter.eq_def]
  split
  · exact .error _ _
  next regular =>
  rw [Context.enter]
  · cases n with
    | zero => exact .error _ _
    | succ n =>
      obtain ⟨n', rfl⟩ := Nat.exists_eq_add_of_lt (Nat.lt_of_lt_of_le (Nat.succ_pos n) room)
      exact .ok ⟨variadic, inLoop, by simpa using room⟩
  · exact moved.apart nofun regular

end Moved

/-- Nothing is read where the source ends. -/
theorem exprs_done (n : Nat) (c : Context) {line before : Nat} :
    ∃ e, exprs n c [⟨.done, line, before⟩] = .error e := by
  have operand : ∀ n c, ∃ e, simple n c [⟨.done, line, before⟩] = .error e
    | 0, _ | 1, _ | _ + 2, _ => ⟨_, rfl⟩
  have one : ∀ n c limit, ∃ e, expr n c limit [⟨.done, line, before⟩] = .error e
    | 0, _, _ => ⟨_, rfl⟩
    | n + 1, ⟨_, _, 0⟩, _ => ⟨_, rfl⟩
    | n + 1, ⟨variadic, inLoop, room + 1⟩, limit => by
      obtain ⟨e, failed⟩ := operand n ⟨variadic, inLoop, room⟩
      refine ⟨e, ?_⟩
      show (simple n _ _ >>= _) = _
      rw [failed]
      rfl
  cases n with
  | zero => exact ⟨_, rfl⟩
  | succ n =>
    obtain ⟨e, failed⟩ := one n c 0
    refine ⟨e, ?_⟩
    show (expr n c 0 _ >>= _) = _
    rw [failed]
    rfl

/-- The targets of an assignment further down in its source, and what may be used and stands after
them. -/
def Targets (d : Nat) (more : List Lexeme) (p p' : List Expr × Context × List Lexeme) : Prop :=
  p'.1 = downAll d p.1 ∧ p.2.1.Within p'.2.1 ∧ Moved d more p.2.2 p'.2.2

/-- What a parser gives before the end of the source, another one gives as well, further down. -/
def Inside (d : Nat) (more : List Lexeme) {α : Type} (f : α → α)
    (r r' : Parse (α × List Lexeme)) : Prop :=
  ∀ a ts, r = .ok (a, ts) → (∀ line before, ts ≠ [⟨.done, line, before⟩]) →
    ∃ ts', r' = .ok (f a, ts') ∧ Moved d more ts ts'

namespace Inside

variable {α β ρ ρ' : Type} {f : α → α} {g : β → β} {r r' : Parse (α × List Lexeme)}
  {x : Parse ρ} {x' : Parse ρ'} {R : ρ → ρ' → Prop}

theorem error (e : ParseError) (r' : Parse (α × List Lexeme)) :
    Inside d more f (.error e) r' := nofun

theorem ok {a : α} {ts ts' : List Lexeme} (moved : Moved d more ts ts') :
    Inside d more f (.ok (a, ts)) (.ok (f a, ts')) := by
  rintro a ts ⟨⟩ -
  exact ⟨ts', rfl, moved⟩

/-- Where nothing is left, nothing is claimed. -/
theorem done {a : α} {line before : Nat} :
    Inside d more f (.ok (a, [⟨.done, line, before⟩])) r' := by
  rintro a ts ⟨⟩ some_
  exact absurd rfl (some_ line before)

theorem after {k : ρ → Parse (α × List Lexeme)} {k' : ρ' → Parse (α × List Lexeme)}
    (first : Keeps R x x') (next : ∀ a a', R a a' → Inside d more f (k a) (k' a')) :
    Inside d more f (x >>= k) (x' >>= k') := by
  cases x with
  | error e => nofun
  | ok a =>
    obtain ⟨a', is_, related⟩ := first a rfl
    rw [is_]
    exact next a a' related

theorem map {h : α → β} {h' : α → β} (same : ∀ a, h' (f a) = g (h a))
    (inside : Inside d more f r r') : Inside d more g
      (r >>= fun p => pure (h p.1, p.2)) (r' >>= fun p => pure (h' p.1, p.2)) := by
  cases r with
  | error e => nofun
  | ok p =>
    rintro b ts ⟨⟩ some_
    obtain ⟨ts', is_, moved⟩ := inside p.1 p.2 rfl some_
    rw [is_]
    exact ⟨ts', congrArg (fun b => Except.ok (b, ts')) (same p.1), moved⟩

/-- What goes on only before the end of the source. -/
theorem bind {S : ρ → ρ' → Prop} {k : α × List Lexeme → Parse ρ} {k' : α × List Lexeme → Parse ρ'}
    (inside : Inside d more f r r')
    (next : ∀ a ts ts', Moved d more ts ts' → Keeps S (k (a, ts)) (k' (f a, ts')))
    (stops : ∀ a line before, ∃ e, k (a, [⟨.done, line, before⟩]) = .error e) :
    Keeps S (r >>= k) (r' >>= k') := by
  cases r with
  | error e => nofun
  | ok p =>
    obtain ⟨a, ts⟩ := p
    by_cases last : ∃ line before, ts = [⟨.done, line, before⟩]
    · obtain ⟨line, before, rfl⟩ := last
      obtain ⟨e, failed⟩ := stops a line before
      show Keeps S (k _) _
      rw [failed]
      exact .error _ _
    · obtain ⟨ts', is_, moved⟩ := inside a ts rfl fun line before is_ => last ⟨line, before, is_⟩
      rw [is_]
      exact next a ts ts' moved

end Inside

theorem downAll_eq_map (d : Nat) (es : List Expr) : downAll d es = es.map (Expr.down d) := by
  induction es with
  | nil => rfl
  | cons e es ih => exact congrArg _ ih

theorem isTarget_down (d : Nat) (e : Expr) : isTarget (e.down d) = isTarget e := by cases e <;> rfl

theorem isCall_down (d : Nat) (e : Expr) : isCall (e.down d) = isCall e := by cases e <;> rfl

/-- A parser further down in its source, with as much fuel and in a context in which as much may be
used, reads what another one reads. -/
def Follows (d : Nat) (more : List Lexeme) {α : Type} (f : α → α)
    (p p' : Nat → Context → List Lexeme → Parse (α × List Lexeme)) (n : Nat) : Prop :=
  ∀ {n' c c' ts ts'}, n ≤ n' → Context.Within c c' → Moved d more ts ts' →
    Keeps (Part d more f) (p n c ts) (p' n' c' ts')

/-- Every parser of expressions and statements reads the same further down in its source. -/
structure Local (d : Nat) (more : List Lexeme) (n : Nat) : Prop where
  expr (limit : Nat) : Follows d more (Expr.down d) (expr · · limit) (expr · · limit) n
  operators (limit : Nat) (e : Expr) : Follows d more (Expr.down d) (operators · · limit e)
    (operators · · limit (e.down d)) n
  simple : Follows d more (Expr.down d) simple simple n
  suffixed : Follows d more (Expr.down d) suffixed suffixed n
  suffixes (e : Expr) : Follows d more (Expr.down d) (suffixes · · e) (suffixes · · (e.down d)) n
  arguments : Follows d more (downAll d) arguments arguments n
  constructor : Follows d more (Expr.down d) constructor constructor n
  fields : Follows d more (downFields d) fields fields n
  field : Follows d more (Field.down d) field field n
  exprs : Follows d more (downAll d) exprs exprs n
  body : Follows d more (Body.down d) body body n
  block {n' c c' ts ts'} : n ≤ n' → Context.Within c c' → Moved d more ts ts' →
    Inside d more (downStats d) (block n c ts) (block n' c' ts')
  stat : Follows d more (Stat.down d) stat stat n
  conditional : Follows d more (Stat.down d) conditional conditional n
  moreTargets (acc : List Expr) {n' c c' ts ts'} : n ≤ n' → Context.Within c c' →
    Moved d more ts ts' → Keeps (Targets d more) (moreTargets n c acc ts)
      (moreTargets n' c' (downAll d acc) ts')

section Names

variable {n n' : Nat} {ts ts' : List Lexeme} (le : n ≤ n') (moved : Moved d more ts ts')

include moved

theorem promise_keeps : Keeps (Part d more id) (promise ts) (promise ts') := by
  rw [promise.eq_def]
  split
  · obtain _ | ⟨-, _ | ⟨-, _ | ⟨-, moved⟩⟩⟩ := moved
    show Keeps _ _ (if _ then _ else if _ then _ else _)
    split
    · exact .ok ⟨rfl, moved⟩
    split
    · exact .ok ⟨rfl, moved⟩
    · exact .error _ _
  · exact .error _ _
  next named other =>
    rw [promise.eq_3]
    · exact .ok ⟨rfl, moved⟩
    · exact fun _ _ _ _ _ _ _ us same => moved.apart (by nofun) other _ _ _ same
    · exact moved.apart (by nofun) other

include le

theorem moreNames_keeps : Keeps (Part d more id) (moreNames n ts) (moreNames n' ts') := by
  fun_induction moreNames n ts generalizing n' ts' with
  | case1 n line before x line' before' us ih =>
    obtain ⟨n', rfl⟩ := Nat.exists_eq_add_of_lt le
    obtain _ | ⟨-, _ | ⟨-, moved⟩⟩ := moved
    refine (ih (by omega) moved).map ?_
    rintro ⟨_, vs⟩ ⟨xs, vs'⟩ ⟨rfl, moved⟩
    exact ⟨rfl, moved⟩
  | case2 => exact .error _ _
  | case3 n us other =>
    rw [moreNames.eq_3]
    · exact .ok ⟨rfl, moved⟩
    · exact moved.apart (by nofun) other
    · exact fun _ _ _ _ _ _ _ _ same => moved.apart (by nofun) other _ _ _ same

theorem parameters_keeps : Keeps (Part d more id) (parameters n ts) (parameters n' ts') := by
  fun_induction parameters n ts generalizing n' ts' with
  | case1 | case2 =>
    obtain _ | ⟨-, _ | ⟨-, moved⟩⟩ := moved
    cases n' <;> exact .ok ⟨rfl, moved⟩
  | case3 n x line before line' before' us ih =>
    obtain ⟨n', rfl⟩ := Nat.exists_eq_add_of_lt le
    obtain _ | ⟨-, _ | ⟨-, moved⟩⟩ := moved
    refine (ih (by omega) moved).map ?_
    rintro ⟨_, vs⟩ ⟨⟨xs, variadic⟩, vs'⟩ ⟨rfl, moved⟩
    exact ⟨rfl, moved⟩
  | case4 => exact .error _ _

theorem localNames_keeps : Keeps (Part d more id) (localNames n ts) (localNames n' ts') := by
  induction n generalizing n' ts ts' with
  | zero => exact .error _ _
  | succ n ih =>
    obtain ⟨n', rfl⟩ := Nat.exists_eq_add_of_lt le
    refine moved.name.bind ?_
    rintro ⟨_, us⟩ ⟨x, us'⟩ ⟨rfl, moved⟩
    refine (promise_keeps moved).bind ?_
    rintro ⟨_, us⟩ ⟨a, us'⟩ ⟨rfl, moved⟩
    dsimp only
    rw [moved.startsWith (by decide)]
    split
    next comma =>
      refine (ih (by omega) (moved.tail comma)).bind ?_
      rintro ⟨_, us⟩ ⟨xs, us'⟩ ⟨rfl, moved⟩
      exact .ok ⟨rfl, moved⟩
    · exact .ok ⟨rfl, moved⟩

theorem functionName_keeps (e : Expr) : Keeps (fun p p' => p'.1 = p.1.down d ∧ p'.2.1 = p.2.1 ∧
    Moved d more p.2.2 p'.2.2) (functionName n e ts) (functionName n' (e.down d) ts') := by
  induction n generalizing n' e ts ts' with
  | zero => exact .error _ _
  | succ n ih =>
    obtain ⟨n', rfl⟩ := Nat.exists_eq_add_of_lt le
    rw [functionName.eq_def]
    dsimp only
    split
    · obtain _ | ⟨-, _ | ⟨-, moved⟩⟩ := moved
      exact ih (by omega) moved (.index _ e (nameKey _))
    · obtain _ | ⟨-, _ | ⟨-, moved⟩⟩ := moved
      exact .ok ⟨rfl, rfl, moved⟩
    · exact .error _ _
    · exact .error _ _
    next named called field method =>
      rw [functionName.eq_6]
      · exact .ok ⟨rfl, rfl, moved⟩
      · exact fun _ _ _ _ _ _ same => moved.apart (by nofun) field _ _ _ same
      · exact fun _ _ _ _ _ _ same => moved.apart (by nofun) method _ _ _ same
      · exact moved.apart (by nofun) field
      · exact moved.apart (by nofun) method

end Names

theorem endsBlock_down (t : Lexeme) (ts us : List Lexeme) :
    endsBlock (t.down d :: us) = endsBlock (t :: ts) := by
  obtain ⟨token, _, _⟩ := t
  cases token <;> rfl

/-- A `return` ends its block in the same way when more than the end of the source follows. -/
theorem return_inside {ts ts' : List Lexeme} (moved : Moved d more ts ts') (es : List Expr) :
    Inside d more (downStats d)
      (if endsBlock (if startsWith ";" ts then ts.drop 1 else ts) then
        pure ([Stat.ret es], if startsWith ";" ts then ts.drop 1 else ts) else refuse)
      (if endsBlock (if startsWith ";" ts' then ts'.drop 1 else ts') then
        pure ([Stat.ret (downAll d es)], if startsWith ";" ts' then ts'.drop 1 else ts')
        else refuse) := by
  have ends {us us' : List Lexeme} (moved : Moved d more us us') : Inside d more (downStats d)
      (if endsBlock us then pure ([Stat.ret es], us) else refuse)
      (if endsBlock us' then pure ([Stat.ret (downAll d es)], us') else refuse) := by
    cases moved with
    | here => exact .done
    | @token t us us' solid moved =>
      rw [endsBlock_down t us us']
      split
      · exact .ok (.token solid moved)
      · exact .error _ _
  rw [moved.startsWith (by decide)]
  by_cases semicolon : startsWith ";" ts = true
  · simp only [if_pos semicolon]
    exact ends (moved.tail semicolon)
  · simp only [if_neg semicolon]
    exact ends moved

section Steps

variable {n n' : Nat} {c c' : Context} {ts ts' : List Lexeme} (ih : Local d more n) (le : n ≤ n')
  (within : c.Within c') (moved : Moved d more ts ts')

include ih le within moved

theorem expr_step (limit : Nat) :
    Keeps (Part d more (Expr.down d)) (expr (n + 1) c limit ts) (expr (n' + 1) c' limit ts') := by
  refine (moved.enter within).bind fun c c' within => ?_
  cases moved with
  | here =>
    refine (ih.simple le within .here).bind ?_
    rintro ⟨e, us⟩ ⟨_, us'⟩ ⟨rfl, moved⟩
    exact ih.operators limit e le within moved
  | @token t ts ts' solid moved =>
    dsimp only [Lexeme.down]
    cases unary? t.token with
    | some op =>
      refine (ih.expr unaryPower le within moved).bind ?_
      rintro ⟨e, us⟩ ⟨_, us'⟩ ⟨rfl, moved⟩
      exact ih.operators limit (.unary t.line op e) le within moved
    | none =>
      refine (ih.simple le within (.token solid moved)).bind ?_
      rintro ⟨e, us⟩ ⟨_, us'⟩ ⟨rfl, moved⟩
      exact ih.operators limit e le within moved

theorem operators_step (limit : Nat) (e : Expr) : Keeps (Part d more (Expr.down d))
    (operators (n + 1) c limit e ts) (operators (n' + 1) c' limit (e.down d) ts') := by
  cases moved with
  | here => exact .ok ⟨rfl, .here⟩
  | @token t ts ts' solid moved =>
    rw [operators.eq_def, operators.eq_def]
    dsimp only [Lexeme.down]
    cases infix? t.token with
    | none => exact .ok ⟨rfl, .token solid moved⟩
    | some op =>
      dsimp only
      split
      · refine (ih.expr op.power.2 le within moved).bind ?_
        rintro ⟨right, us⟩ ⟨_, us'⟩ ⟨rfl, moved⟩
        have built : op.build (t.line + d) (lineBefore us + d) (e.down d) (right.down d) =
            (op.build t.line (lineBefore us) e right).down d := by
          cases op with
          | op o =>
            simp only [Infix.build, Expr.down]
            split <;> rfl
          | _ => rfl
        dsimp only
        rw [moved.lineBefore, built]
        exact ih.operators limit _ le within moved
      · exact .ok ⟨rfl, .token solid moved⟩

theorem simple_step :
    Keeps (Part d more (Expr.down d)) (simple (n + 1) c ts) (simple (n' + 1) c' ts') := by
  rw [simple.eq_def]
  dsimp only
  split
  case h_7 =>
    obtain _ | ⟨-, moved⟩ := moved
    have same := within.variadic
    show Keeps _ _ (if c'.variadic then _ else _)
    rw [same]
    split
    · exact .ok ⟨rfl, moved⟩
    · exact .error _ _
  case h_8 =>
    obtain _ | ⟨-, moved⟩ := moved
    exact ih.constructor le within moved
  case h_9 =>
    obtain _ | ⟨-, moved⟩ := moved
    refine (ih.body le within moved).bind ?_
    rintro ⟨b, us⟩ ⟨_, us'⟩ ⟨rfl, moved⟩
    exact .ok ⟨rfl, moved⟩
  case h_10 int float str nil yes no varargs table function =>
    rw [simple]
    · exact ih.suffixed le within moved
    · exact fun i => moved.apart nofun (int i)
    · exact fun x => moved.apart nofun (float x)
    · exact fun s => moved.apart nofun (str s)
    · exact moved.apart nofun nil
    · exact moved.apart nofun yes
    · exact moved.apart nofun no
    · exact moved.apart nofun varargs
    · exact moved.apart nofun table
    · exact moved.apart nofun function
  all_goals
    obtain _ | ⟨-, moved⟩ := moved
    exact .ok ⟨rfl, moved⟩

theorem suffixed_step :
    Keeps (Part d more (Expr.down d)) (suffixed (n + 1) c ts) (suffixed (n' + 1) c' ts') := by
  rw [suffixed.eq_def]
  dsimp only
  split
  · obtain _ | ⟨-, moved⟩ := moved
    exact ih.suffixes _ le within moved
  · obtain _ | ⟨-, moved⟩ := moved
    refine (ih.expr 0 le within moved).bind ?_
    rintro ⟨e, us⟩ ⟨_, us'⟩ ⟨rfl, moved⟩
    refine (moved.symbol ")").bind fun us us' moved => ?_
    exact ih.suffixes (.paren e) le within moved
  · exact .error _ _

theorem suffixes_step (e : Expr) : Keeps (Part d more (Expr.down d))
    (suffixes (n + 1) c e ts) (suffixes (n' + 1) c' (e.down d) ts') := by
  have called {line line' : Nat} {us us' : List Lexeme} (lower : line' = line + d)
      (moved : Moved d more us us') : Keeps (Part d more (Expr.down d))
      (arguments n c us >>= fun p => suffixes n c (.call line e p.1) p.2)
      (arguments n' c' us' >>= fun p => suffixes n' c' (.call line' (e.down d) p.1) p.2) := by
    refine (ih.arguments le within moved).bind ?_
    rintro ⟨as, us⟩ ⟨_, us'⟩ ⟨rfl, moved⟩
    rw [lower]
    exact ih.suffixes (.call line e as) le within moved
  rw [suffixes.eq_def]
  dsimp only
  split
  case h_1 =>
    obtain _ | ⟨-, moved⟩ := moved
    refine moved.name.bind ?_
    rintro ⟨_, us⟩ ⟨x, us'⟩ ⟨rfl, after⟩
    rw [moved.lineOf]
    exact ih.suffixes (.index _ e (nameKey x)) le within after
  case h_2 =>
    obtain _ | ⟨-, moved⟩ := moved
    refine (ih.expr 0 le within moved).bind ?_
    rintro ⟨k, us⟩ ⟨_, us'⟩ ⟨rfl, moved⟩
    refine (moved.symbol "]").bind fun vs vs' after => ?_
    dsimp only
    rw [moved.lineOf]
    exact ih.suffixes (.index _ e k) le within after
  case h_3 =>
    obtain _ | ⟨-, moved⟩ := moved
    refine moved.name.bind ?_
    rintro ⟨_, us⟩ ⟨x, us'⟩ ⟨rfl, moved⟩
    refine (ih.arguments le within moved).bind ?_
    rintro ⟨as, vs⟩ ⟨_, vs'⟩ ⟨rfl, after⟩
    dsimp only
    rw [moved.lineOf]
    exact ih.suffixes (.method _ e x as) le within after
  case h_7 field index method str call table =>
    rw [suffixes]
    · exact .ok ⟨rfl, moved⟩
    · exact moved.apart nofun field
    · exact moved.apart nofun index
    · exact moved.apart nofun method
    · exact fun s => moved.apart nofun (str s)
    · exact moved.apart nofun call
    · exact moved.apart nofun table
  all_goals
    have all := moved
    obtain _ | ⟨-, moved⟩ := moved
    exact called rfl all

theorem arguments_step :
    Keeps (Part d more (downAll d)) (arguments (n + 1) c ts) (arguments (n' + 1) c' ts') := by
  rw [arguments.eq_def]
  dsimp only
  split
  case h_1 =>
    obtain _ | ⟨-, moved⟩ := moved
    exact .ok ⟨rfl, moved⟩
  case h_2 =>
    obtain _ | ⟨-, moved⟩ := moved
    refine (ih.constructor le within moved).bind ?_
    rintro ⟨e, us⟩ ⟨_, us'⟩ ⟨rfl, moved⟩
    exact .ok ⟨rfl, moved⟩
  case h_3 =>
    obtain _ | ⟨-, _ | ⟨-, moved⟩⟩ := moved
    exact .ok ⟨rfl, moved⟩
  case h_4 us some_ =>
    obtain _ | ⟨-, moved⟩ := moved
    cases moved with
    | here =>
      obtain ⟨e, failed⟩ := exprs_done n c
      rw [failed]
      exact .error _ _
    | @token t us us' solid moved =>
      show Keeps _ _ (arguments _ _ (⟨.symbol "(", _, _⟩ :: t.down d :: us'))
      rw [arguments.eq_5]
      · refine (ih.exprs le within (.token solid moved)).bind ?_
        rintro ⟨es, us⟩ ⟨_, us'⟩ ⟨rfl, moved⟩
        refine (moved.symbol ")").bind fun us us' moved => ?_
        exact .ok ⟨rfl, moved⟩
      · rintro l b us same
        obtain ⟨token, _, _⟩ := t
        cases same
        exact some_ _ _ _ rfl
  case h_5 => exact .error _ _

theorem constructor_step : Keeps (Part d more (Expr.down d))
    (Parser.constructor (n + 1) c ts) (Parser.constructor (n' + 1) c' ts') := by
  refine (ih.fields le within moved).bind ?_
  rintro ⟨fs, us⟩ ⟨_, us'⟩ ⟨rfl, moved⟩
  refine .ok ⟨?_, moved⟩
  rw [moved.lineBefore]
  rfl

theorem fields_step :
    Keeps (Part d more (downFields d)) (fields (n + 1) c ts) (fields (n' + 1) c' ts') := by
  rw [fields.eq_def]
  dsimp only
  split
  case h_1 =>
    obtain _ | ⟨-, moved⟩ := moved
    exact .ok ⟨rfl, moved⟩
  case h_2 open_ =>
    rw [fields]
    · refine (ih.field le within moved).bind ?_
      rintro ⟨f, us⟩ ⟨_, us'⟩ ⟨rfl, moved⟩
      dsimp only
      split
      case h_4 => exact .error _ _
      case h_3 =>
        obtain _ | ⟨-, moved⟩ := moved
        exact .ok ⟨rfl, moved⟩
      all_goals
        obtain _ | ⟨-, moved⟩ := moved
        refine (ih.fields le within moved).bind ?_
        rintro ⟨fs, us⟩ ⟨_, us'⟩ ⟨rfl, moved⟩
        exact .ok ⟨rfl, moved⟩
    · exact moved.apart nofun open_

theorem field_step :
    Keeps (Part d more (Field.down d)) (field (n + 1) c ts) (field (n' + 1) c' ts') := by
  rw [field.eq_def]
  dsimp only
  split
  case h_1 =>
    obtain _ | ⟨-, _ | ⟨-, moved⟩⟩ := moved
    refine (ih.expr 0 le within moved).bind ?_
    rintro ⟨e, us⟩ ⟨_, us'⟩ ⟨rfl, moved⟩
    exact .ok ⟨rfl, moved⟩
  case h_2 =>
    obtain _ | ⟨-, moved⟩ := moved
    refine (ih.expr 0 le within moved).bind ?_
    rintro ⟨k, us⟩ ⟨_, us'⟩ ⟨rfl, moved⟩
    refine (moved.symbol "]").bind fun us us' moved => ?_
    refine (moved.symbol "=").bind fun us us' moved => ?_
    refine (ih.expr 0 le within moved).bind ?_
    rintro ⟨e, us⟩ ⟨_, us'⟩ ⟨rfl, moved⟩
    exact .ok ⟨rfl, moved⟩
  case h_3 named keyed =>
    rw [field]
    · refine (ih.expr 0 le within moved).bind ?_
      rintro ⟨e, us⟩ ⟨_, us'⟩ ⟨rfl, moved⟩
      exact .ok ⟨rfl, moved⟩
    · exact fun x => moved.apart₂ (by nofun) (by nofun) (named x)
    · exact moved.apart nofun keyed

theorem exprs_step : Keeps (Part d more (downAll d)) (exprs (n + 1) c ts) (exprs (n' + 1) c' ts') := by
  refine (ih.expr 0 le within moved).bind fun p p' ⟨same, moved⟩ => ?_
  dsimp only
  rw [moved.startsWith (by decide)]
  split
  next comma =>
    exact (ih.exprs le within (moved.tail comma)).bind fun q q' ⟨others, moved⟩ =>
      .ok ⟨congrArg₂ List.cons same others, moved⟩
  · exact .ok ⟨congrArg (List.cons · []) same, moved⟩

theorem body_step :
    Keeps (Part d more (Body.down d)) (body (n + 1) c ts) (body (n' + 1) c' ts') := by
  refine (moved.symbol "(").bind fun us us' moved => ?_
  have rest (params : List String) (variadic : Bool) {us us' : List Lexeme}
      (moved : Moved d more us us') : Keeps (Part d more (Body.down d))
      (block n ⟨variadic, false, c.room⟩ us >>= fun p => keyword "end" p.2 >>= fun ts =>
        pure (Body.mk params variadic p.1, ts))
      (block n' ⟨variadic, false, c'.room⟩ us' >>= fun p => keyword "end" p.2 >>= fun ts =>
        pure (Body.mk params variadic p.1, ts)) := by
    have inner : Context.Within ⟨variadic, false, c.room⟩ ⟨variadic, false, c'.room⟩ :=
      ⟨rfl, rfl, within.room⟩
    refine (ih.block le inner moved).bind (fun ss us us' moved => ?_) fun _ _ _ => ⟨_, rfl⟩
    exact (moved.keyword "end").bind fun us us' moved => .ok ⟨rfl, moved⟩
  dsimp only
  split
  · obtain _ | ⟨-, moved⟩ := moved
    exact rest [] false moved
  next open_ =>
    cases moved with
    | here => cases n <;> exact .error _ _
    | @token t us us' solid moved =>
      split
      next is_ =>
        obtain ⟨token, _, _⟩ := t
        cases is_
        exact (open_ _ _ _ rfl).elim
      next =>
        refine (parameters_keeps le (.token solid moved)).bind ?_
        rintro ⟨_, us⟩ ⟨⟨params, variadic⟩, us'⟩ ⟨rfl, moved⟩
        exact rest params variadic moved

theorem block_step :
    Inside d more (downStats d) (block (n + 1) c ts) (block (n' + 1) c' ts') := by
  rw [block.eq_def, block.eq_def]
  dsimp only
  cases moved with
  | here => exact .done
  | @token t us us' solid moved =>
    have all : Moved d more (t :: us) (t.down d :: us') := .token solid moved
    rw [endsBlock_down t us us']
    split
    · exact .ok all
    refine .after (all.enter within) fun inner inner' within' => ?_
    obtain ⟨token, line, before⟩ := t
    split
    next same =>
      cases same
      exact ih.block le within moved
    next same =>
      cases same
      cases moved with
      | here => exact .done
      | @token t us us' solid moved =>
        have after : Moved d more (t :: us) (t.down d :: us') := .token solid moved
        show Inside _ _ _ _ (if (endsBlock (t.down d :: us') || startsWith ";" (t.down d :: us')) = true
          then _ else _)
        rw [endsBlock_down t us us', after.startsWith (by decide)]
        split
        · exact return_inside after []
        · refine .after (ih.exprs le within' after) ?_
          rintro ⟨es, us⟩ ⟨_, us'⟩ ⟨rfl, moved⟩
          exact return_inside moved es
    next semicolon returned =>
      split
      next same =>
        cases same
        exact (semicolon _ _ _ rfl).elim
      next same =>
        cases same
        exact (returned _ _ _ rfl).elim
      refine .after (ih.stat le within' all) ?_
      rintro ⟨s, us⟩ ⟨_, us'⟩ ⟨rfl, moved⟩
      exact (ih.block le within moved).map fun _ => rfl

theorem conditional_step :
    Keeps (Part d more (Stat.down d)) (conditional (n + 1) c ts) (conditional (n' + 1) c' ts') := by
  refine (ih.expr 0 le within moved).bind ?_
  rintro ⟨e, us⟩ ⟨_, us'⟩ ⟨rfl, moved⟩
  refine (moved.keyword "then").bind fun us us' moved => ?_
  refine (ih.block le within moved).bind (fun ss us us' moved => ?_) fun _ _ _ => ⟨_, rfl⟩
  dsimp only
  split
  · obtain _ | ⟨-, moved⟩ := moved
    refine (ih.conditional le within moved).bind ?_
    rintro ⟨s, us⟩ ⟨_, us'⟩ ⟨rfl, moved⟩
    exact .ok ⟨rfl, moved⟩
  · obtain _ | ⟨-, moved⟩ := moved
    refine (ih.block le within moved).bind (fun ss us us' moved => ?_) fun _ _ _ => ⟨_, rfl⟩
    exact (moved.keyword "end").bind fun us us' moved => .ok ⟨rfl, moved⟩
  next elseif else_ =>
    split
    next is_ => exact (moved.apart (by nofun) elseif _ _ _ rfl).elim
    next is_ => exact (moved.apart (by nofun) else_ _ _ _ rfl).elim
    exact (moved.keyword "end").bind fun us us' moved => .ok ⟨rfl, moved⟩

theorem moreTargets_step (acc : List Expr) : Keeps (Targets d more)
    (moreTargets (n + 1) c acc ts) (moreTargets (n' + 1) c' (downAll d acc) ts') := by
  have targets : (downAll d acc).head?.any isTarget = acc.head?.any isTarget := by
    cases acc with
    | nil => rfl
    | cons e es => exact isTarget_down d e
  rw [moreTargets.eq_def, moreTargets.eq_def]
  dsimp only
  rw [targets, moved.startsWith (by decide)]
  split
  · exact .error _ _
  split
  next comma =>
    refine (ih.suffixed le within (moved.tail comma)).bind ?_
    rintro ⟨e, us⟩ ⟨_, us'⟩ ⟨rfl, moved⟩
    refine (moved.enter within).bind fun c c' within => ?_
    exact ih.moreTargets (e :: acc) le within moved
  · refine .ok ⟨?_, within, moved⟩
    rw [downAll_eq_map, downAll_eq_map, List.map_reverse]

theorem stat_step :
    Keeps (Part d more (Stat.down d)) (stat (n + 1) c ts) (stat (n' + 1) c' ts') := by
  have loop : Context.Within { c with inLoop := true } { c' with inLoop := true } :=
    ⟨within.variadic, rfl, within.room⟩
  rw [stat.eq_def]
  dsimp only
  split
  case h_1 =>
    obtain _ | ⟨-, moved⟩ := moved
    exact ih.conditional le within moved
  case h_2 =>
    obtain _ | ⟨-, moved⟩ := moved
    refine (ih.expr 0 le within moved).bind ?_
    rintro ⟨e, us⟩ ⟨_, us'⟩ ⟨rfl, moved⟩
    refine (moved.keyword "do").bind fun us us' moved => ?_
    refine (ih.block le loop moved).bind (fun ss us us' moved => ?_) fun _ _ _ => ⟨_, rfl⟩
    exact (moved.keyword "end").bind fun us us' moved => .ok ⟨rfl, moved⟩
  case h_3 =>
    obtain _ | ⟨-, moved⟩ := moved
    refine (ih.block le within moved).bind (fun ss us us' moved => ?_) fun _ _ _ => ⟨_, rfl⟩
    exact (moved.keyword "end").bind fun us us' moved => .ok ⟨rfl, moved⟩
  case h_4 =>
    obtain _ | ⟨-, _ | ⟨-, _ | ⟨-, moved⟩⟩⟩ := moved
    refine (ih.expr 0 le within moved).bind ?_
    rintro ⟨start, us⟩ ⟨_, us'⟩ ⟨rfl, moved⟩
    refine (moved.symbol ",").bind fun us us' moved => ?_
    refine (ih.expr 0 le within moved).bind ?_
    rintro ⟨stop, us⟩ ⟨_, us'⟩ ⟨rfl, moved⟩
    have rest (x : String) (step : Option Expr) {us us' : List Lexeme}
        (moved : Moved d more us us') : Keeps (Part d more (Stat.down d))
          (keyword "do" us >>= fun vs => block n { c with inLoop := true } vs >>= fun p =>
            keyword "end" p.2 >>= fun vs =>
              pure (.numericFor (lineOf us) x start stop step p.1, vs))
          (keyword "do" us' >>= fun vs => block n' { c' with inLoop := true } vs >>= fun p =>
            keyword "end" p.2 >>= fun vs =>
              pure (.numericFor (lineOf us') x (start.down d) (stop.down d) (downStep d step) p.1,
                vs)) := by
      rw [moved.lineOf]
      refine (moved.keyword "do").bind fun us us' moved => ?_
      refine (ih.block le loop moved).bind (fun ss us us' moved => ?_) fun _ _ _ => ⟨_, rfl⟩
      exact (moved.keyword "end").bind fun us us' moved => .ok ⟨rfl, moved⟩
    dsimp only
    rw [moved.startsWith (by decide)]
    split
    next comma =>
      refine (ih.expr 0 le within (moved.tail comma)).bind ?_
      rintro ⟨e, us⟩ ⟨_, us'⟩ ⟨rfl, moved⟩
      exact rest _ (some e) moved
    next => exact rest _ none moved
  case h_5 assigned =>
    obtain _ | ⟨-, _ | ⟨-, moved⟩⟩ := moved
    show Keeps _ _ (stat _ _ (⟨.keyword "for", _, _⟩ :: ⟨.name _, _, _⟩ :: _))
    rw [stat.eq_6]
    · refine (moreNames_keeps le moved).bind ?_
      rintro ⟨_, us⟩ ⟨xs, us'⟩ ⟨rfl, moved⟩
      refine (moved.keyword "in").bind fun us us' moved => ?_
      refine (ih.exprs le within moved).bind ?_
      rintro ⟨es, us⟩ ⟨_, us'⟩ ⟨rfl, moved⟩
      refine (moved.keyword "do").bind fun us us' moved => ?_
      refine (ih.block le loop moved).bind (fun ss us us' moved => ?_) fun _ _ _ => ⟨_, rfl⟩
      exact (moved.keyword "end").bind fun us us' moved => .ok ⟨rfl, moved⟩
    · exact moved.apart (by nofun) assigned
  case h_6 =>
    obtain _ | ⟨-, moved⟩ := moved
    refine (ih.block le loop moved).bind (fun ss us us' moved => ?_) fun _ _ _ => ⟨_, rfl⟩
    refine (moved.keyword "until").bind fun us us' moved => ?_
    refine (ih.expr 0 le within moved).bind ?_
    rintro ⟨e, us⟩ ⟨_, us'⟩ ⟨rfl, moved⟩
    exact .ok ⟨rfl, moved⟩
  case h_7 x line _ us =>
    obtain _ | ⟨-, _ | ⟨-, moved⟩⟩ := moved
    refine (functionName_keeps le moved (.name _)).bind ?_
    rintro ⟨target, isMethod, us⟩ ⟨target', isMethod', us'⟩ ⟨is_, same, moved⟩
    obtain rfl : target' = target.down d := is_
    obtain rfl : isMethod' = isMethod := same
    refine (ih.body le within moved).bind ?_
    rintro ⟨⟨params, variadic, stats⟩, us⟩ ⟨_, us'⟩ ⟨rfl, moved⟩
    refine .ok ⟨?_, moved⟩
    cases isMethod' <;> rfl
  case h_8 =>
    obtain _ | ⟨-, _ | ⟨-, _ | ⟨-, moved⟩⟩⟩ := moved
    refine (ih.body le within moved).bind ?_
    rintro ⟨b, us⟩ ⟨_, us'⟩ ⟨rfl, moved⟩
    exact .ok ⟨rfl, moved⟩
  case h_9 function =>
    obtain _ | ⟨-, moved⟩ := moved
    show Keeps _ _ (stat _ _ (⟨.keyword "local", _, _⟩ :: _))
    rw [stat.eq_10]
    · refine (localNames_keeps le moved).bind ?_
      rintro ⟨_, us⟩ ⟨xs, us'⟩ ⟨rfl, moved⟩
      dsimp only
      rw [moved.startsWith (by decide)]
      split
      next equals =>
        refine (ih.exprs le within (moved.tail equals)).bind ?_
        rintro ⟨es, us⟩ ⟨_, us'⟩ ⟨rfl, moved⟩
        exact .ok ⟨rfl, moved⟩
      next => exact .ok ⟨rfl, moved⟩
    · exact fun l b x => moved.apart₂ (by nofun) (by nofun) (fun l b => function l b x) l b
  case h_10 =>
    obtain _ | ⟨-, moved⟩ := moved
    show Keeps _ _ (if c'.inLoop then _ else _)
    rw [within.inLoop]
    split
    · exact .ok ⟨rfl, moved⟩
    · exact .error _ _
  case h_11 =>
    obtain _ | ⟨-, _ | ⟨-, moved⟩⟩ := moved
    exact .ok ⟨rfl, moved⟩
  case h_12 =>
    obtain _ | ⟨-, _ | ⟨-, _ | ⟨-, moved⟩⟩⟩ := moved
    exact .ok ⟨rfl, moved⟩
  case h_13 if_ while_ do_ _ for_ repeat_ named _ local_ break_ goto_ label =>
    have fors (x : String) : ∀ l b l' b' us, ts' = ⟨.keyword "for", l, b⟩ :: ⟨.name x, l', b'⟩ :: us →
        False := moved.apart₂ (by nofun) (by nofun) fun l b => for_ l b x
    have functions (x : String) : ∀ l b l' b' us,
        ts' = ⟨.keyword "function", l, b⟩ :: ⟨.name x, l', b'⟩ :: us → False :=
      moved.apart₂ (by nofun) (by nofun) fun l b => named l b x
    have locals := moved.apart (by nofun) local_
    have gotos (x : String) : ∀ l b l' b' us,
        ts' = ⟨.keyword "goto", l, b⟩ :: ⟨.name x, l', b'⟩ :: us → False :=
      moved.apart₂ (by nofun) (by nofun) fun l b => goto_ l b x
    have labels (x : String) : ∀ l b l' b' l'' b'' us,
        ts' = ⟨.symbol "::", l, b⟩ :: ⟨.name x, l', b'⟩ :: ⟨.symbol "::", l'', b''⟩ :: us → False :=
      moved.apart₃ (by nofun) (by nofun) (by nofun) fun l b => label l b x
    rw [stat.eq_14]
    · refine (ih.suffixed le within moved).bind ?_
      rintro ⟨e, us⟩ ⟨_, us'⟩ ⟨rfl, moved⟩
      dsimp only
      rw [moved.startsWith (by decide), moved.startsWith (by decide), isCall_down]
      split
      · refine (ih.moreTargets [e] le within moved).bind ?_
        rintro ⟨targets, c, us⟩ ⟨targets', c', us'⟩ ⟨same, within, moved⟩
        obtain rfl : targets' = downAll d targets := same
        refine (moved.symbol "=").bind fun us us' moved => ?_
        refine (ih.exprs le within moved).bind ?_
        rintro ⟨es, us⟩ ⟨_, us'⟩ ⟨rfl, moved⟩
        refine .ok ⟨?_, moved⟩
        dsimp only
        rw [moved.lineBefore]
        rfl
      split
      · exact .ok ⟨rfl, moved⟩
      · exact .error _ _
    · exact moved.apart (by nofun) if_
    · exact moved.apart (by nofun) while_
    · exact moved.apart (by nofun) do_
    · exact fun l b x l' b' _ _ _ => fors x l b l' b' _
    · exact fun l b x => fors x l b
    · exact moved.apart (by nofun) repeat_
    · exact fun l b x => functions x l b
    · exact fun l b _ _ _ _ _ _ => locals l b _
    · exact locals
    · exact moved.apart (by nofun) break_
    · exact fun l b x => gotos x l b
    · exact fun l b x => labels x l b

end Steps

/-- All parsers read the same further down in their source, in front of a parenthesis. -/
theorem reads_further_down (d : Nat) (more : List Lexeme) (n : Nat) : Local d more n := by
  induction n with
  | zero =>
    constructor
    all_goals
      try unfold Follows
      intros
      exact nofun
  | succ n ih =>
    constructor
    all_goals
      try unfold Follows
      intros
      rename_i n' c c' ts ts' le within moved
      obtain ⟨k, rfl⟩ := Nat.exists_eq_add_of_lt le
      have le : n ≤ n + k := Nat.le_add_right n k
    case expr => exact expr_step ih le within moved _
    case operators => exact operators_step ih le within moved _ _
    case simple => exact simple_step ih le within moved
    case suffixed => exact suffixed_step ih le within moved
    case suffixes => exact suffixes_step ih le within moved _
    case arguments => exact arguments_step ih le within moved
    case constructor => exact constructor_step ih le within moved
    case fields => exact fields_step ih le within moved
    case field => exact field_step ih le within moved
    case exprs => exact exprs_step ih le within moved
    case body => exact body_step ih le within moved
    case block => exact block_step ih le within moved
    case stat => exact stat_step ih le within moved
    case conditional => exact conditional_step ih le within moved
    case moreTargets => exact moreTargets_step ih le within moved _

/-- An expression that is all of its source is read the same further down, up to a parenthesis. -/
theorem expr_moved {n n' limit : Nat} {c c' : Context} {ts ts' : List Lexeme} {e : Expr}
    {line before : Nat} (le : n ≤ n') (within : c.Within c') (moved : Moved d more ts ts')
    (read : expr n c limit ts = .ok (e, [⟨.done, line, before⟩])) :
    expr n' c' limit ts' =
      .ok (e.down d, ⟨.symbol ")", line + d, before + d⟩ :: more) := by
  obtain ⟨⟨_, us⟩, is_, rfl, after⟩ := (reads_further_down d more n).expr limit le within moved _ read
  cases after with
  | here => exact is_
  | token solid => exact absurd rfl solid

end Parser

end Tasklang.Lua
