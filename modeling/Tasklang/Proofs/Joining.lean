import Tasklang.Proofs.Needs
import Tasklang.Proofs.Quoting
import Tasklang.Template.Source
import Tasklang.Lua.Chunk

/-! # Templates are expressions

The segments of a template are joined into one Lua expression. When every placeholder is an
expression that leaves nothing open, the joined source is read as the expression that joins the
literals and the texts of the placeholders, and compiled when it nests no deeper than it may.
-/

namespace Tasklang.Lua

namespace Token

theorem readToken_solid {b : UInt8} {r rest : Bytes} {t : Token}
    (h : readToken b r = some (t, rest)) : t ≠ .done := by
  have numeral {bs : Bytes} (read : readNumeral bs = some (t, rest)) : t ≠ .done := by
    obtain ⟨n, -, same⟩ := Option.map_eq_some_iff.1 read
    cases same
    simp
  have symbol : ∀ {ss : List String} {bs : Bytes} {read : Token × Bytes},
      readSymbol ss bs = some read → read.1 ≠ .done := by
    intro ss bs read found
    induction ss with
    | nil => cases found
    | cons s ss ih =>
      unfold readSymbol at found
      dsimp only at found
      split at found
      · cases found
        simp
      · exact ih found
  unfold readToken at h
  dsimp only at h
  split at h
  · cases h
    unfold word
    dsimp only
    split <;> simp
  split at h
  · exact numeral h
  split at h
  · obtain ⟨_, -, same⟩ := Option.map_eq_some_iff.1 h
    cases same
    simp
  split at h
  · exact numeral h
  split at h
  · obtain ⟨_, -, same⟩ := Option.map_eq_some_iff.1 h
    cases same
    simp
  split at h
  · cases h
  cases found : readSymbol symbols (b :: r) with
  | none =>
    rw [found] at h
    cases h
    simp
  | some read =>
    rw [found] at h
    cases h
    exact symbol found

/-- The source ends after its last token only. -/
theorem lexFrom_solid {n before line : Nat} {bs : Bytes} {us : List Lexeme} {t : Lexeme}
    (h : lexFrom n before line bs = us ++ [t]) : ∀ u ∈ us, u.token ≠ .done := by
  fun_induction lexFrom n before line bs generalizing us with
  | case3 | case4 | case5 => rename_i ih; exact ih h
  | case7 n before line b bs _ _ t' rest found l _ =>
    rename_i ih
    simp only [found] at h
    cases us with
    | nil => simp
    | cons u us =>
      obtain ⟨rfl, others⟩ := List.cons.inj h
      exact List.forall_mem_cons.2 ⟨readToken_solid found, ih others⟩
  | case8 n before line b bs _ _ found =>
    simp only [found] at h
    cases us with
    | nil => simp
    | cons u us => cases us <;> cases h
  | _ =>
    cases us with
    | nil => simp
    | cons u us => cases us <;> cases h

end Token

namespace Parser.Moved

variable {d : Nat} {more ts ts' : List Lexeme}

theorem of_map {us : List Lexeme} {line before : Nat}
    (same : ts.map (Lexeme.down d) = us ++ [⟨.done, line, before⟩])
    (solid : ∀ u ∈ us, u.token ≠ .done) :
    Moved d more ts (us ++ ⟨.symbol ")", line, before⟩ :: more) := by
  induction us generalizing ts with
  | nil =>
    obtain ⟨⟨token, l, b⟩, rfl, down⟩ := List.map_eq_singleton_iff.1 same
    cases down
    exact .here
  | cons u us ih =>
    obtain ⟨t, ts, rfl, rfl, others⟩ := List.map_eq_cons_iff.1 same
    obtain ⟨first, rest⟩ := List.forall_mem_cons.1 solid
    exact .token first (ih others rest)

theorem length (moved : Moved d more ts ts') : ts'.length = ts.length + more.length := by
  induction moved with
  | here => simp [Nat.add_comm]
  | token _ _ ih => simp [ih, Nat.add_right_comm]

end Parser.Moved

namespace Parser

variable {ts us : List Lexeme} {e : Expr} {n : Nat} {c : Context}

theorem expr_apart {t : Lexeme} (limit : Nat) (apart : unary? t.token = none) :
    expr (n + 1) c limit (t :: us) = c.enter (t :: us) >>= fun c =>
      simple n c (t :: us) >>= fun p => operators n c limit p.1 p.2 := by
  rw [Parser.expr]
  simp only [apart]

/-- Nothing is read where no operand starts. -/
theorem expr_refused {t : Lexeme} (limit : Nat) (apart : unary? t.token = none)
    (stops : ∀ n c, ∃ e, simple n c (t :: us) = .error e) :
    ∃ e, expr n c limit (t :: us) = .error e := by
  cases n with
  | zero => exact ⟨_, rfl⟩
  | succ n =>
    rw [expr_apart limit apart]
    cases c.enter (t :: us) with
    | error e => exact ⟨e, rfl⟩
    | ok c =>
      obtain ⟨e, failed⟩ := stops n c
      refine ⟨e, ?_⟩
      show (simple n c (t :: us) >>= _) = _
      rw [failed]
      rfl

/-- An expression starts with an operand. -/
theorem expr_operand {t : Lexeme} {limit r : Nat} {left : Expr} (regular : t.token ≠ .malformed)
    (apart : unary? t.token = none) (some_ : c.room = r + 1)
    (read : simple n { c with room := r } (t :: us) = .ok (left, ts)) :
    expr (n + 1) c limit (t :: us) = operators n { c with room := r } limit left ts := by
  have enters : c.enter (t :: us) = .ok { c with room := r } := by
    obtain ⟨token, _, _⟩ := t
    obtain ⟨_, _, _⟩ := c
    obtain rfl := some_
    cases token <;> first | rfl | exact absurd rfl regular
  rw [expr_apart limit apart, enters]
  show (simple n _ (t :: us) >>= _) = _
  rw [read]
  rfl

/-- Whether what stands there goes on with no operand. -/
def Ends (ts : List Lexeme) : Prop :=
  ∃ t us, ts = t :: us ∧ (t.token = .done ∨ t.token = .symbol "..")

theorem suffixes_ends (ends : Ends ts) (e : Expr) :
    suffixes (n + 1) c e ts = .ok (e, ts) := by
  obtain ⟨⟨token, l, b⟩, us, rfl, is_⟩ := ends
  rcases is_ with is_ | is_
  · cases is_
    rfl
  · cases is_
    rfl

/-- An operand that is joined with an expression up to the end of the source. -/
theorem operators_join {limit line before l b : Nat} {left right : Expr} (low : limit ≤ 8)
    (read : expr (n + 1) c 8 us = .ok (right, [⟨.done, l, b⟩])) :
    operators (n + 2) c limit left (⟨.symbol "..", line, before⟩ :: us) =
      .ok (.binary line .concat left right, [⟨.done, l, b⟩]) := by
  have higher : (Infix.op .concat).power.1 > limit := Nat.lt_succ_of_le low
  rw [operators]
  simp only [infix?]
  rw [if_pos higher]
  show (expr (n + 1) c 8 us >>= _) = _
  rw [read]
  rfl

/-- A chunk that returns an expression. -/
theorem block_returns {room line before l b : Nat} (goes : endsBlock ts = false)
    (value : startsWith ";" ts = false)
    (read : expr n ⟨true, false, room⟩ 0 ts = .ok (e, [⟨.done, l, b⟩])) :
    block (n + 2) ⟨true, false, room + 1⟩ (⟨.keyword "return", line, before⟩ :: ts) =
      .ok ([.ret [e]], [⟨.done, l, b⟩]) := by
  have values : exprs (n + 1) ⟨true, false, room⟩ ts = .ok ([e], [⟨.done, l, b⟩]) := by
    show (expr n _ 0 ts >>= _) = _
    rw [read]
    rfl
  show (if (endsBlock ts || startsWith ";" ts) = true then _ else
    exprs (n + 1) ⟨true, false, room⟩ ts >>= _) = _
  rw [goes, value, values]
  rfl

/-- What starts an expression is no closing parenthesis. -/
theorem Moved.not_closing {d l b limit line before : Nat} {more : List Lexeme}
    (moved : Moved d more ts (⟨.symbol ")", l, b⟩ :: us))
    (read : expr n c limit ts = .ok (e, [⟨.done, line, before⟩])) : False := by
  have stops : ∀ n c, ∃ e, simple n c (⟨.symbol ")", l, b⟩ :: us) = .error e
    | 0, _ | 1, _ | _ + 2, _ => ⟨_, rfl⟩
  obtain ⟨failure, failed⟩ := expr_refused (n := n) (c := c) limit rfl stops
  have read := expr_moved (Nat.le_refl n) ⟨rfl, rfl, Nat.le_refl _⟩ moved read
  rw [failed] at read
  cases read

end Parser

/-- The variables in scope in a chunk outside of its functions. -/
def Binding.chunkScopes : Binding.Scopes := ⟨[], [[⟨environmentName, .plain, false⟩]]⟩

/-- Whether a part of a chunk needs at most so many places, and no variable but the environment. -/
def Binding.Needs.Fits (places : Nat) (needs : Binding.Needs) : Prop :=
  needs.places ≤ places ∧ needs.captured ∈ [[], [environmentName]]

namespace Binding.Needs.Fits

variable {places : Nat} {a b : Binding.Needs}

theorem join (h : a.Fits places) (h' : b.Fits places) : (a.join b).Fits places := by
  refine ⟨Nat.max_le.2 ⟨h.1, h'.1⟩, ?_⟩
  obtain ⟨-, captured⟩ := h
  obtain ⟨-, captured'⟩ := h'
  simp only [List.mem_cons, List.not_mem_nil, or_false] at captured captured' ⊢
  rcases captured with is_ | is_ <;> rcases captured' with is_' | is_' <;>
    simp [Needs.join, is_, is_']

theorem mono {more : Nat} (h : a.Fits places) (le : places ≤ more) : a.Fits more :=
  ⟨Nat.le_trans h.1 le, h.2⟩

theorem raised {k : Nat} (h : a.Fits places) (raised : a.Raised k b) : b.Fits (places + k) :=
  ⟨Nat.le_trans raised.2 (Nat.add_le_add_right h.1 k), raised.1 ▸ h.2⟩

/-- A chunk that returns an expression can be compiled when that fits. -/
theorem check {needs : Binding.Needs} {e : Expr}
    (found : Binding.expr chunkScopes 0 e = .ok needs) (fits : needs.Fits placeLimit) :
    Binding.check [.ret [e]] = .ok () := by
  have statements : Binding.block Binding.chunkScopes [.ret [e]] =
      .ok ((needs.join {}).join {}, Binding.chunkScopes) := by
    have values : Binding.exprs Binding.chunkScopes 0 [e] = .ok (needs.join {}) := by
      show (Binding.expr Binding.chunkScopes 0 e >>= _) = _
      rw [found]
      rfl
    show (Binding.exprs Binding.chunkScopes 0 [e] >>= _) >>= _ = _
    rw [values]
    rfl
  have all : ((needs.join {}).join {}).Fits placeLimit :=
    (fits.join ⟨Nat.zero_le _, .head _⟩).join ⟨Nat.zero_le _, .head _⟩
  have few : ((needs.join {}).join {}).captured.length ≤ captureLimit := by
    have there := all.2
    simp only [List.mem_cons, List.not_mem_nil, or_false] at there
    rcases there with is_ | is_ <;> rw [is_] <;> decide
  show (Binding.block Binding.chunkScopes [.ret [e]] >>= _) >>= _ = _
  rw [statements]
  show (if _ then _ else _ : Binding.Check Binding.Needs) >>= _ = _
  rw [if_neg]
  · rfl
  · have placed : Label.wellPlaced 0 [.ret [e]] = true := rfl
    simp only [List.length_nil, placed, Nat.not_lt.2 all.1, Nat.not_lt.2 few]
    decide

end Binding.Needs.Fits

/-- Whether source is one expression that can stand in parentheses: it leaves nothing open, nests at
most so many levels deep, and takes at most so many places. -/
structure Whole (room places : Nat) (source : String) (e : Expr) : Prop where
  closed : Token.Closed (Bytes.ofString source)
  read : ∃ line before, Parser.expr (Parser.fuelFor (Token.lex (Bytes.ofString source)))
    ⟨true, false, room⟩ 0 (Token.lex (Bytes.ofString source)) = .ok (e, [⟨.done, line, before⟩])
  needs : ∃ needs, Binding.expr Binding.chunkScopes 0 e = .ok needs ∧ needs.Fits places

end Tasklang.Lua

namespace Tasklang.Template

open Lua Lua.Token

/-- The tokens of an operand and those after it, its segment and its expression. -/
inductive Operand (room places : Nat) (rest : List Lexeme) : List Lexeme → Segment → Expr → Prop
  | text (s : String) (line before : Nat) :
    Operand room places rest (⟨.str (Bytes.ofString s), line, before⟩ :: rest) (.text s)
      (.str (Bytes.ofString s))
  | expr {source : String} {e : Expr} {d line before line' before' : Nat} {ts : List Lexeme} :
    Whole room places source e → Parser.Moved d rest (lex (Bytes.ofString source)) ts →
    Operand room places rest (⟨.name "tostring", line, before⟩ :: ⟨.symbol "(", line', before'⟩ :: ts)
      (.expr source) (.call line' (.name "tostring") [e.down d])

/-- The tokens of operands that are joined, up to the end of the source, their segments and their
expression. -/
inductive Chain (room places : Nat) : List Lexeme → List Segment → Expr → Prop
  | one {ts : List Lexeme} {segment : Segment} {e : Expr} {line before : Nat} :
    Operand room places [⟨.done, line, before⟩] ts segment e → Chain room places ts [segment] e
  | more {ts us : List Lexeme} {segment : Segment} {segments : List Segment} {l r : Expr}
    {line before : Nat} : Operand room places (⟨.symbol "..", line, before⟩ :: us) ts segment l →
    Chain room places us segments r →
    Chain room places ts (segment :: segments) (.binary line .concat l r)

/-- The bytes of an operand. -/
def operandBytes (segment : Segment) : Bytes := Bytes.ofString (segmentSource segment)

/-- The bytes of operands that are joined. -/
def chainBytes : List Segment → Bytes
  | [] => []
  | [segment] => operandBytes segment
  | segment :: segments => operandBytes segment ++ 0x20 :: 0x2E :: 0x2E :: 0x20 :: chainBytes segments

theorem endLine_le (t : Token) (line : Nat) (bs rest : Bytes) : line ≤ endLine t line bs rest := by
  unfold endLine
  split
  · exact Nat.le_add_right _ _
  · exact Nat.le_refl _

/-- Tokens stand on the line where reading starts or further down. -/
theorem lexFrom_line {n before line : Nat} {bs : Bytes} :
    ∀ t ∈ lexFrom n before line bs, line ≤ t.line := by
  fun_induction lexFrom n before line bs with
  | case3 => rename_i ih; exact fun t there => Nat.le_of_succ_le (ih t there)
  | case4 => rename_i ih; exact ih
  | case5 => rename_i ih; exact fun t there => Nat.le_of_add_right_le (ih t there)
  | case7 n before line b bs _ _ t rest found l _ =>
    rename_i ih
    have later : line ≤ l := endLine_le t line bs rest
    rw [found]
    exact List.forall_mem_cons.2 ⟨later, fun t there => Nat.le_trans later (ih t there)⟩
  | case8 n before line b bs _ _ found =>
    rw [found]
    exact List.forall_mem_singleton.2 (Nat.le_refl _)
  | _ => exact List.forall_mem_singleton.2 (Nat.le_refl _)

theorem readToken_tostring (rest : Bytes) :
    readToken 0x74 (Bytes.ofString "ostring" ++ 0x28 :: rest) =
      some (.name "tostring", 0x28 :: rest) := by
  rfl

theorem readToken_join (rest : Bytes) :
    readToken 0x2E (0x2E :: 0x20 :: rest) = some (.symbol "..", 0x20 :: rest) := by
  rfl

theorem readToken_opening (rest : Bytes) : readToken 0x28 rest = some (.symbol "(", rest) := by
  rfl

theorem readToken_return (rest : Bytes) :
    readToken 0x72 (Bytes.ofString "eturn" ++ 0x20 :: rest) =
      some (.keyword "return", 0x20 :: rest) := by
  rfl

theorem chainBytes_cons (segment other : Segment) (segments : List Segment) :
    chainBytes (segment :: other :: segments) =
      operandBytes segment ++ 0x20 :: 0x2E :: 0x2E :: 0x20 :: chainBytes (other :: segments) := rfl

/-- The tokens of an operand, after which reading goes on. -/
theorem lexFrom_operand {room places n before d : Nat} {segment : Segment} {more : Bytes}
    (whole : ∀ source, segment = .expr source → ∃ e, Whole room places source e)
    (fuel : (operandBytes segment ++ more).length < n) :
    ∃ (k d' : Nat) (e : Expr), more.length < k ∧
      Operand room places (lexFrom k (d' + 1) (d' + 1) more)
        (lexFrom n before (d + 1) (operandBytes segment ++ more)) segment e := by
  cases segment with
  | text s =>
    obtain ⟨n, rfl⟩ := Nat.exists_eq_add_of_lt fuel
    rw [operandBytes, segmentSource, lexFrom_quote]
    refine ⟨_, d, _, ?_, .text s _ _⟩
    simp only [quote_bytes, List.length_append, List.length_cons]
    omega
  | expr source =>
    obtain ⟨e, whole⟩ := whole source rfl
    have bytes : operandBytes (.expr source) ++ more = 0x74 :: (Bytes.ofString "ostring" ++ 0x28 ::
        (Bytes.ofString source ++ 0x29 :: more)) := by
      simp only [operandBytes, segmentSource, Bytes.ofString_append, List.append_assoc]
      rfl
    have size : (Bytes.ofString "ostring").length = 7 := by decide
    rw [bytes] at fuel ⊢
    simp only [List.length_append, List.length_cons, size] at fuel
    obtain ⟨k, rfl⟩ : ∃ k, n = (Bytes.ofString source).length + 1 + (more.length + 1 + k) + 1 + 1 :=
      ⟨n - ((Bytes.ofString source).length + more.length + 4), by omega⟩
    obtain ⟨ts, read, closed⟩ := whole.closed
    have place (n : Nat) (bs : Bytes) : lexFrom n (d + 1) (d + 1) bs =
        (lexFrom n 1 1 bs).map (Lexeme.down d) := by
      rw [← lexFrom_down, Nat.add_comm]
    have tokens (n : Nat) (bs : Bytes) : (lexFrom n (d + 1) (d + 1) bs).map (·.token) =
        (lexFrom n 1 1 bs).map (·.token) := by
      rw [place, List.map_map]
      rfl
    have closed : (lexFrom ((Bytes.ofString source).length + 1 + 1) (d + 1) (d + 1)
        (Bytes.ofString source ++ [0x29])).map (·.token) = ts ++ [.symbol ")", .done] := by
      rw [tokens, ← closed, lex, List.length_append]
      rfl
    obtain ⟨us, l, b, j, more_left, alone, inside⟩ :=
      @lexFrom_closed _ _ _ _ more _ ((tokens _ _).trans read) closed (more.length + 1 + k)
    have down : d + 1 ≤ l := lexFrom_line _ (by rw [alone]; exact List.mem_append_right _ (.head _))
    obtain ⟨d', rfl⟩ := Nat.exists_eq_add_of_le' (Nat.le_trans (Nat.succ_pos d) down)
    have first (n : Nat) (rest : Bytes) : lexFrom (n + 1) before (d + 1)
        (0x74 :: (Bytes.ofString "ostring" ++ 0x28 :: rest)) =
        ⟨.name "tostring", d + 1, before⟩ :: lexFrom n (d + 1) (d + 1) (0x28 :: rest) :=
      lexFrom_token rfl (fun _ is_ _ => absurd is_ (by decide)) (readToken_tostring rest)
    have second (n : Nat) (rest : Bytes) : lexFrom (n + 1) (d + 1) (d + 1) (0x28 :: rest) =
        ⟨.symbol "(", d + 1, d + 1⟩ :: lexFrom n (d + 1) (d + 1) rest :=
      lexFrom_token rfl (fun _ is_ _ => absurd is_ (by decide)) (readToken_opening rest)
    refine ⟨j, d', .call (d + 1) (.name "tostring") [e.down d], by omega, ?_⟩
    rw [first, second, inside]
    exact .expr whole (.of_map ((place _ _).symm.trans alone) (lexFrom_solid alone))

/-- The tokens of operands that are joined. -/
theorem lexFrom_chain {room places n before d : Nat} {segments : List Segment} (some_ : segments ≠ [])
    (whole : ∀ source, .expr source ∈ segments → ∃ e, Whole room places source e)
    (fuel : (chainBytes segments).length < n) : ∃ e,
      Chain room places (lexFrom n before (d + 1) (chainBytes segments)) segments e := by
  induction segments generalizing n before d with
  | nil => exact absurd rfl some_
  | cons segment segments ih =>
    have first (source : String) (is_ : segment = .expr source) :
        ∃ e, Whole room places source e := whole source (is_ ▸ .head _)
    match segments with
    | [] =>
      rw [chainBytes, ← List.append_nil (operandBytes segment)] at fuel ⊢
      obtain ⟨k, d', e, more_left, operand⟩ := lexFrom_operand first fuel
      obtain ⟨k, rfl⟩ := Nat.exists_eq_add_of_lt more_left
      exact ⟨e, .one operand⟩
    | other :: segments =>
      rw [chainBytes_cons] at fuel ⊢
      obtain ⟨k, d', l, more_left, operand⟩ := @lexFrom_operand _ _ _ before _ _ _ first fuel
      simp only [List.length_cons] at more_left
      obtain ⟨k, rfl⟩ : ∃ i, k = i + 1 + 1 + 1 := ⟨k - 3, by omega⟩
      have join (n : Nat) (rest : Bytes) : lexFrom (n + 1 + 1 + 1) (d' + 1) (d' + 1)
          (0x20 :: 0x2E :: 0x2E :: 0x20 :: rest) =
          ⟨.symbol "..", d' + 1, d' + 1⟩ :: lexFrom n (d' + 1) (d' + 1) rest := by
        rw [lexFrom_space (by decide) rfl,
          lexFrom_token rfl (fun _ is_ _ => absurd is_ (by decide)) (readToken_join rest),
          lexFrom_space (by decide) rfl]
        rfl
      rw [join] at operand
      have left : (chainBytes (other :: segments)).length < k := by omega
      obtain ⟨r, chain⟩ : ∃ e, Chain room places
          (lexFrom k (d' + 1) (d' + 1) (chainBytes (other :: segments))) (other :: segments) e :=
        ih nofun (fun source there => whole source (.tail _ there)) left
      exact ⟨_, .more operand chain⟩

/-! ## Parsing -/

section Parsing

open Lua.Parser

variable {room places : Nat} {ts us : List Lexeme} {segment : Segment} {e : Expr} {n : Nat}
  {c : Context}

/-- An operand is read as its expression. -/
theorem Operand.simple {rest : List Lexeme} {f : Nat} (operand : Operand room places rest ts segment e)
    (ends : Ends rest) (variadic : c.variadic = true) (inLoop : c.inLoop = false)
    (fits : room ≤ c.room)
    (fuel : ∀ source, segment = .expr source → fuelFor (lex (Bytes.ofString source)) ≤ f) :
    ∃ t us, ts = t :: us ∧ t.token ≠ .malformed ∧ unary? t.token = none ∧
      Parser.simple (f + 5) c ts = .ok (e, rest) := by
  cases operand with
  | text s line before => exact ⟨_, _, rfl, nofun, rfl, rfl⟩
  | @expr source e d line before line' before' ts whole moved =>
    refine ⟨_, _, rfl, nofun, rfl, ?_⟩
    obtain ⟨l, b, read⟩ := whole.read
    have within : Context.Within ⟨true, false, room⟩ c := ⟨variadic, inLoop, fits⟩
    have inner := expr_moved (fuel source rfl) within moved read
    have items : exprs (f + 1) c ts = .ok ([e.down d], ⟨.symbol ")", l + d, b + d⟩ :: rest) := by
      show (Parser.expr f c 0 ts >>= _) = _
      rw [inner]
      rfl
    have called : arguments (f + 2) c (⟨.symbol "(", line', before'⟩ :: ts) =
        .ok ([e.down d], rest) := by
      rw [arguments.eq_5]
      · rw [items]
        rfl
      · rintro l b us rfl
        exact moved.not_closing read
    show (arguments (f + 2) c (⟨.symbol "(", line', before'⟩ :: ts) >>= _) = _
    rw [called]
    exact suffixes_ends ends _

/-- Operands that are joined are read as their expression. -/
theorem Chain.expr {segments : List Segment} {f limit : Nat} (chain : Chain room places ts segments e)
    (low : limit ≤ 8) (variadic : c.variadic = true) (inLoop : c.inLoop = false)
    (fits : room + segments.length ≤ c.room)
    (fuel : ∀ source, .expr source ∈ segments → fuelFor (lex (Bytes.ofString source)) ≤ f)
    (enough : f + 2 * segments.length + 5 ≤ n) :
    ∃ line before, Parser.expr n c limit ts = .ok (e, [⟨.done, line, before⟩]) := by
  induction chain generalizing c n limit with
  | @one ts segment e line before operand =>
    simp only [List.length_singleton] at fits enough
    obtain ⟨r, some_⟩ : ∃ r, c.room = r + 1 := Nat.exists_eq_add_of_le' (by omega)
    obtain ⟨m, rfl⟩ : ∃ m, n = m + 7 := ⟨n - 7, by omega⟩
    obtain ⟨t, us, rfl, regular, apart, read⟩ := operand.simple (c := { c with room := r })
      (f := m + 1) ⟨_, _, rfl, .inl rfl⟩ variadic inLoop (by simp only; omega) fun source is_ =>
        Nat.le_trans (fuel source (is_ ▸ .head _)) (by omega)
    refine ⟨line, before, ?_⟩
    rw [expr_operand regular apart some_ read]
    rfl
  | @more ts us segment segments l right line before operand chain ih =>
    simp only [List.length_cons] at fits enough
    obtain ⟨r, some_⟩ : ∃ r, c.room = r + 1 := Nat.exists_eq_add_of_le' (by omega)
    obtain ⟨m, rfl⟩ : ∃ m, n = m + 7 := ⟨n - 7, by omega⟩
    obtain ⟨l', b', inner⟩ := ih (c := { c with room := r }) (n := m + 5) (Nat.le_refl 8) variadic
      inLoop (by simp only; omega) (fun source there => fuel source (.tail _ there)) (by omega)
    obtain ⟨t, vs, rfl, regular, apart, read⟩ := operand.simple (c := { c with room := r })
      (f := m + 1) ⟨_, _, rfl, .inr rfl⟩ variadic inLoop (by simp only; omega) fun source is_ =>
        Nat.le_trans (fuel source (is_ ▸ .head _)) (by omega)
    refine ⟨l', b', ?_⟩
    rw [expr_operand regular apart some_ read]
    exact operators_join low inner

/-- There are at least as many tokens as in the source of an operand, and two for every operand. -/
theorem Chain.length {segments : List Segment} (chain : Chain room places ts segments e) :
    2 * segments.length ≤ ts.length ∧ ∀ source, .expr source ∈ segments →
      (lex (Bytes.ofString source)).length + 2 * segments.length ≤ ts.length := by
  have operand {rest ts : List Lexeme} {segment : Segment} {e : Expr}
      (operand : Operand room places rest ts segment e) : rest.length + 1 ≤ ts.length ∧
      ∀ source, segment = .expr source →
        (lex (Bytes.ofString source)).length + rest.length + 2 ≤ ts.length := by
    cases operand with
    | text s => exact ⟨by simp, nofun⟩
    | expr whole moved =>
      have same := moved.length
      refine ⟨by simp only [List.length_cons]; omega, ?_⟩
      rintro source ⟨⟩
      simp only [List.length_cons]
      omega
  induction chain with
  | one first =>
    obtain ⟨least, inside⟩ := operand first
    simp only [List.length_singleton] at least inside ⊢
    refine ⟨by omega, fun source there => ?_⟩
    have := inside source (List.mem_singleton.1 there).symm
    omega
  | more first chain ih =>
    obtain ⟨least, inside⟩ := operand first
    simp only [List.length_cons] at least inside ⊢
    refine ⟨by omega, fun source there => ?_⟩
    rcases List.mem_cons.1 there with is_ | there
    · have := inside source is_.symm
      omega
    · have := ih.2 source there
      omega

theorem Operand.needs {rest : List Lexeme} (operand : Operand room places rest ts segment e) (k : Nat) :
    ∃ needs, Binding.expr Binding.chunkScopes k e = .ok needs ∧ needs.Fits (k + places + 1) := by
  cases operand with
  | text s => exact ⟨_, rfl, Nat.add_le_add_right (Nat.le_add_right _ _) 1, .head _⟩
  | @expr source e d line before line' before' ts whole moved =>
    obtain ⟨needs, found, fits⟩ := whole.needs
    obtain ⟨needs', found', raised⟩ := Binding.expr_raises Binding.chunkScopes 0 (k + 1) e needs found
    rw [Nat.zero_add] at found'
    refine ⟨_, ?_, Binding.Needs.Fits.join (a := ⟨k + 1, [environmentName]⟩) ⟨?_, .tail _ (.head _)⟩
      (((fits.raised raised).mono ?_).join (b := {}) ⟨Nat.zero_le _, .head _⟩)⟩
    · show (Binding.expr _ (k + 1) (e.down d) >>= _) >>= _ = _
      rw [Binding.expr_down, found']
      rfl
    · simp only
      omega
    · omega

theorem Chain.needs {segments : List Segment} (chain : Chain room places ts segments e) (k : Nat) :
    ∃ needs, Binding.expr Binding.chunkScopes k e = .ok needs ∧
      needs.Fits (k + segments.length + places) := by
  induction chain generalizing k with
  | one operand =>
    obtain ⟨needs, found, fits⟩ := operand.needs k
    exact ⟨needs, found, fits.mono (by simp only [List.length_singleton]; omega)⟩
  | @more ts us segment segments l r line before operand chain ih =>
    obtain ⟨left, found, fits⟩ := operand.needs k
    obtain ⟨right, found', fits'⟩ := ih (k + 1)
    refine ⟨left.join right, ?_, ?_⟩
    · show (Binding.expr _ k l >>= _) = _
      rw [found]
      show (Binding.expr _ (k + 1) r >>= _) = _
      rw [found']
      rfl
    · simp only [List.length_cons]
      exact (fits.mono (by omega)).join (fits'.mono (by omega))

/-- The bytes of a template as an expression. -/
theorem concatSource_bytes {segments : List Segment} (some_ : segments ≠ []) :
    Bytes.ofString (concatSource segments) = chainBytes segments := by
  rw [concatSource, if_neg (by simpa using some_)]
  induction segments with
  | nil => exact absurd rfl some_
  | cons segment segments ih =>
    match segments with
    | [] => simp only [List.map_cons, List.map_nil, String.intercalate_singleton]; rfl
    | other :: segments =>
      have ih := ih nofun
      simp only [List.map_cons] at ih ⊢
      rw [String.intercalate_cons_cons, Bytes.ofString_append, Bytes.ofString_append, ih,
        chainBytes_cons, List.append_assoc]
      rfl

theorem lex_returning (bs : Bytes) : lex (returning bs) =
    ⟨.keyword "return", 1, 1⟩ :: lexFrom (bs.length + 6) 1 1 bs := by
  have bytes : returning bs = 0x72 :: (Bytes.ofString "eturn" ++ 0x20 :: bs) := by
    rw [returning, show Bytes.ofString "return " = 0x72 :: Bytes.ofString "eturn" ++ [0x20] from rfl,
      List.append_assoc]
    rfl
  have size : (returning bs).length = bs.length + 7 := by
    rw [returning, List.length_append, show (Bytes.ofString "return ").length = 7 from rfl,
      Nat.add_comm]
  rw [lex, size, bytes, lexFrom_token rfl (fun _ is_ _ => absurd is_ (by decide))
    (readToken_return bs)]
  show _ :: lexFrom (bs.length + 6 + 1) 1 1 (0x20 :: bs) = _
  rw [lexFrom_space (by decide) rfl]
  rfl

/-- Source that is read as one expression is compiled to a chunk that returns it. -/
theorem parse_returning {bs : Bytes} {ts : List Lexeme} {e : Expr} {l b : Nat}
    (tokens : lexFrom (bs.length + 6) 1 1 bs = ts) (goes : endsBlock ts = false)
    (value : startsWith ";" ts = false)
    (read : Parser.expr (24 * (ts.length + 1) + 62) ⟨true, false, Site.levelLimit - 2⟩ 0 ts =
      .ok (e, [⟨.done, l, b⟩]))
    (needs : ∃ needs, Binding.expr Binding.chunkScopes 0 e = .ok needs ∧
      needs.Fits Binding.placeLimit) :
    Chunk.parse 0 (returning bs) = .ok [.ret [e]] := by
  obtain ⟨needs, found, fits⟩ := needs
  have statements : Parser.block (24 * (ts.length + 1) + 62 + 2)
      ⟨true, false, Site.levelLimit - 2 + 1⟩ (⟨.keyword "return", 1, 1⟩ :: ts) =
        .ok ([.ret [e]], [⟨.done, l, b⟩]) :=
    block_returns goes value read
  show (Parser.block (fuelFor (lex _)) ⟨true, false, Site.levelLimit - 1 - 0⟩ (lex _) >>= _) = _
  rw [lex_returning, tokens,
    show fuelFor (⟨.keyword "return", 1, 1⟩ :: ts) = 24 * (ts.length + 1) + 62 + 2 from rfl,
    show Site.levelLimit - 1 - 0 = Site.levelLimit - 2 + 1 from rfl, statements]
  show (Binding.check [.ret [e]] >>= _) = _
  rw [Binding.Needs.Fits.check found fits]
  rfl

/-- The source of a template whose placeholders are expressions is an expression, too. -/
theorem parse_chain {segments : List Segment} (some_ : segments ≠ [])
    (whole : ∀ source, .expr source ∈ segments → ∃ e, Whole room places source e)
    (levels : room + segments.length < Site.levelLimit - 1)
    (fits : segments.length + places ≤ Binding.placeLimit) : ∃ ts e, Chain room places ts segments e ∧
      Chunk.parse 0 (returning (chainBytes segments)) = .ok [.ret [e]] := by
  obtain ⟨e, chain⟩ := @lexFrom_chain _ _ ((chainBytes segments).length + 6) 1 0 _ some_ whole
    (by omega)
  refine ⟨_, e, chain, ?_⟩
  generalize tokens : lexFrom ((chainBytes segments).length + 6) 1 1 (chainBytes segments) = ts
    at chain
  obtain ⟨least, inside⟩ := chain.length
  obtain ⟨l, b, read⟩ := chain.expr (c := ⟨true, false, Site.levelLimit - 2⟩)
    (f := 24 * ts.length + 64 - 2 * segments.length) (n := 24 * (ts.length + 1) + 62)
    (Nat.zero_le 8) rfl rfl (by simp only; omega)
    (fun source there => by have := inside source there; simp only [fuelFor]; omega) (by omega)
  obtain ⟨needs, found, fits'⟩ := chain.needs 0
  obtain ⟨goes, value⟩ : endsBlock ts = false ∧ startsWith ";" ts = false := by
    cases chain with
    | one operand => cases operand <;> exact ⟨rfl, rfl⟩
    | more operand => cases operand <;> exact ⟨rfl, rfl⟩
  exact parse_returning tokens goes value read ⟨needs, found, fits'.mono (by omega)⟩

end Parsing

end Tasklang.Template
