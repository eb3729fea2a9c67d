import Mathlib.Data.List.TakeWhile
import Mathlib.Tactic.ByContra
import Mathlib.Tactic.Tauto
import Tasklang.Lua.Token

/-! # The bytes of tokens

Source that has neither comments nor long brackets is blanks and tokens. A token is read from bytes
of its own: a short string with its quotes, a brace, or bytes that are neither quotes nor braces.
-/

namespace Tasklang.Lua.Token

/-! ## Short strings -/

theorem emit_some {bs s rest : Bytes} {r : Option (Bytes × Bytes)}
    (h : emit bs r = some (s, rest)) : ∃ s', r = some (s', rest) := by
  obtain ⟨⟨s', rest'⟩, found, same⟩ := Option.map_eq_some_iff.1 h
  cases same
  exact ⟨s', found⟩

/-- A piece of source is the rest of a short string: bytes that stand for themselves, and bytes that
a backslash protects, up to the closing quote. -/
inductive Quoted (quote : UInt8) : Bytes → Prop where
  | close : Quoted quote [quote]
  | plain {b piece} : b ≠ quote → b ≠ 0x5C → Quoted quote piece → Quoted quote (b :: piece)
  | escape {b piece} : Quoted quote piece → Quoted quote (0x5C :: b :: piece)

/-- Source begins with the rest of a short string. -/
def Closes (quote : UInt8) (bs rest : Bytes) : Prop :=
  ∃ piece, Quoted quote piece ∧ bs = piece ++ rest

namespace Closes

variable {quote b : UInt8} {bs rest : Bytes}

theorem here : Closes quote (quote :: rest) rest := ⟨[quote], .close, rfl⟩

theorem plain (h : Closes quote bs rest) (other : b ≠ quote) (bare : b ≠ 0x5C) :
    Closes quote (b :: bs) rest := by
  obtain ⟨piece, quoted, rfl⟩ := h
  exact ⟨b :: piece, .plain other bare quoted, rfl⟩

theorem escape (h : Closes quote bs rest) : Closes quote (0x5C :: b :: bs) rest := by
  obtain ⟨piece, quoted, rfl⟩ := h
  exact ⟨0x5C :: b :: piece, .escape quoted, rfl⟩

end Closes

/-- Whether a byte is a quote. -/
abbrev IsQuote (b : UInt8) : Prop := b = 0x22 ∨ b = 0x27

section Bare

variable {quote b : UInt8} (quotes : IsQuote quote)

include quotes

theorem hexValue?_bare {n : Nat} (h : Bytes.hexValue? b = some n) : b ≠ quote ∧ b ≠ 0x5C := by
  constructor
  · rintro rfl
    rcases quotes with rfl | rfl <;> cases h
  · rintro rfl
    cases h

theorem isDigit_bare (h : Bytes.isDigit b = true) : b ≠ quote ∧ b ≠ 0x5C := by
  constructor
  · rintro rfl
    rcases quotes with rfl | rfl <;> cases h
  · rintro rfl
    cases h

theorem isSpace_bare (h : Bytes.isSpace b = true) : b ≠ quote ∧ b ≠ 0x5C := by
  constructor
  · rintro rfl
    rcases quotes with rfl | rfl <;> cases h
  · rintro rfl
    cases h

/-- Reading a short string ends after its closing quote. -/
theorem readShort_closes {place : Place} {bs s rest : Bytes}
    (h : readShort quote place bs = some (s, rest)) : Closes quote bs rest := by
  have apart {c : UInt8} (other : ¬IsQuote c) : c ≠ quote := fun same => other (same ▸ quotes)
  fun_induction readShort quote place bs generalizing s rest with
  | case2 value bs ih =>
    obtain ⟨s', found⟩ := emit_some h
    exact (ih found).plain (apart (by decide)) (by decide)
  | case3 value b bs _ d digit _ ih =>
    obtain ⟨other, bare⟩ := hexValue?_bare quotes digit
    exact (ih h).plain other bare
  | case6 place b bs _ blank ih =>
    obtain ⟨other, bare⟩ := isSpace_bare quotes blank.2
    exact (ih h).plain other bare
  | case7 =>
    cases h
    exact .here
  | case9 place b bs _ _ other _ bare ih =>
    obtain ⟨s', found⟩ := emit_some h
    exact (ih found).plain other bare
  | case11 place b _ _ _ _ backslash bs ih =>
    obtain rfl := not_not.1 backslash
    obtain ⟨s', found⟩ := emit_some h
    exact ((ih found).plain (apart (by decide)) (by decide)).escape
  | case12 place b _ _ _ _ backslash bs ih =>
    obtain rfl := not_not.1 backslash
    obtain ⟨s', found⟩ := emit_some h
    exact ((ih found).plain (apart (by decide)) (by decide)).escape
  | case13 place b _ _ _ _ backslash bs _ ih | case14 place b _ _ _ _ backslash bs _ ih =>
    obtain rfl := not_not.1 backslash
    obtain ⟨s', found⟩ := emit_some h
    exact (ih found).escape
  | case15 place b _ _ _ _ backslash bs ih =>
    obtain rfl := not_not.1 backslash
    exact (ih h).escape
  | case16 place b _ _ _ _ backslash high low bs _ _ digit' digit ih =>
    obtain rfl := not_not.1 backslash
    obtain ⟨s', found⟩ := emit_some h
    obtain ⟨other, bare⟩ := hexValue?_bare quotes digit
    obtain ⟨other', bare'⟩ := hexValue?_bare quotes digit'
    exact (((ih found).plain other' bare').plain other bare).escape
  | case18 place b _ _ _ _ backslash d bs _ digit ih =>
    obtain rfl := not_not.1 backslash
    obtain ⟨other, bare⟩ := hexValue?_bare quotes digit
    exact (((ih h).plain other bare).plain (apart (by decide)) (by decide)).escape
  | case20 place b _ _ _ _ backslash =>
    rename_i ih
    obtain rfl := not_not.1 backslash
    obtain ⟨s', found⟩ := emit_some h
    exact (ih found).escape
  | case23 place b _ _ _ _ backslash =>
    rename_i ih
    obtain rfl := not_not.1 backslash
    obtain ⟨s', found⟩ := emit_some h
    exact (ih found).escape
  | case25 place b _ _ _ _ backslash e _ _ _ _ _ d digit =>
    rename_i ih
    obtain rfl := not_not.1 backslash
    obtain ⟨s', found⟩ := emit_some h
    obtain ⟨other, bare⟩ := isDigit_bare quotes (b := d) (by simpa using digit)
    exact ((ih found).plain other bare).escape
  | case26 place b _ _ _ _ backslash e _ _ _ _ _ d digit c cs digit' =>
    rename_i ih
    obtain rfl := not_not.1 backslash
    obtain ⟨s', found⟩ := emit_some h
    obtain ⟨other, bare⟩ := isDigit_bare quotes (b := d) (by simpa using digit)
    obtain ⟨other', bare'⟩ := isDigit_bare quotes (b := c) (by simpa using digit')
    exact (((ih found).plain other' bare').plain other bare).escape
  | _ => cases h

end Bare

/-! ## Names -/

/-- Whether a byte is neither a quote nor a brace. -/
def Inert (b : UInt8) : Prop := ¬IsQuote b ∧ b ≠ 0x7B ∧ b ≠ 0x7D

instance : DecidablePred Inert := fun _ => inferInstanceAs (Decidable (_ ∧ _))

theorem not_inert {b : UInt8} (h : ¬Inert b) : b = 0x22 ∨ b = 0x27 ∨ b = 0x7B ∨ b = 0x7D := by
  unfold Inert at h
  tauto

theorem continuesName_inert {b : UInt8} (h : continuesName b = true) : Inert b := by
  by_contra bad
  rcases not_inert bad with rfl | rfl | rfl | rfl <;> cases h

/-! ## Numerals -/

/-- A byte in front of what a numeral takes. -/
def also (b : UInt8) (taken : Bytes × Bytes) : Bytes × Bytes := (b :: taken.1, taken.2)

/-- Whether a byte starts the exponent of a numeral. -/
abbrev StartsExponent (hex : Bool) (b : UInt8) : Prop :=
  if hex then b = 0x70 ∨ b = 0x50 else b = 0x65 ∨ b = 0x45

/-- Whether a byte goes on a numeral. -/
def continuesNumeral (b : UInt8) : Bool := Numeral.isHexDigit b || b == 0x2E || continuesName b

theorem numeralRun_singleton (hex : Bool) (b : UInt8) : numeralRun hex [b] =
    if StartsExponent hex b then ([b], [])
    else if continuesNumeral b then ([b], [])
    else ([], [b]) := by
  cases hex <;> rfl

theorem numeralRun_cons_cons (hex : Bool) (b c : UInt8) (cs : Bytes) :
    numeralRun hex (b :: c :: cs) =
    if StartsExponent hex b then
      if c = 0x2B ∨ c = 0x2D then also b (also c (numeralRun hex cs))
      else also b (numeralRun hex (c :: cs))
    else if continuesNumeral b then also b (numeralRun hex (c :: cs))
    else ([], b :: c :: cs) := by
  cases hex <;> rfl

theorem startsExponent_inert {hex : Bool} {b : UInt8} (h : StartsExponent hex b) : Inert b := by
  by_contra bad
  rcases not_inert bad with rfl | rfl | rfl | rfl <;> revert h <;> cases hex <;> decide

theorem continuesNumeral_inert {b : UInt8} (h : continuesNumeral b = true) : Inert b := by
  by_contra bad
  rcases not_inert bad with rfl | rfl | rfl | rfl <;> cases h

theorem sign_inert {b : UInt8} (h : b = 0x2B ∨ b = 0x2D) : Inert b := by
  rcases h with rfl | rfl <;> decide

/-- Whether bytes are neither quotes nor braces, and a prefix of others. -/
structure Takes (taken : Bytes × Bytes) (bs : Bytes) : Prop where
  split : bs = taken.1 ++ taken.2
  inert : ∀ b ∈ taken.1, Inert b

theorem Takes.none (bs : Bytes) : Takes ([], bs) bs := ⟨rfl, nofun⟩

theorem Takes.also {b : UInt8} {bs : Bytes} {taken : Bytes × Bytes} (inert : Inert b)
    (h : Takes taken bs) : Takes (also b taken) (b :: bs) :=
  ⟨congrArg (b :: ·) h.split, List.forall_mem_cons.2 ⟨inert, h.inert⟩⟩

/-- Bytes that a numeral takes are neither quotes nor braces. -/
theorem numeralRun_takes (hex : Bool) : ∀ bs : Bytes, Takes (numeralRun hex bs) bs
  | [] => .none []
  | [b] => by
    rw [numeralRun_singleton]
    split
    · next starts => exact (Takes.none []).also (startsExponent_inert starts)
    split
    · next continues => exact (Takes.none []).also (continuesNumeral_inert continues)
    · exact .none _
  | b :: c :: cs => by
    rw [numeralRun_cons_cons]
    split
    · next starts =>
      have inert := startsExponent_inert starts
      split
      · next sign => exact ((numeralRun_takes hex cs).also (sign_inert sign)).also inert
      · exact (numeralRun_takes hex (c :: cs)).also inert
    split
    · next continues =>
      exact (numeralRun_takes hex (c :: cs)).also (continuesNumeral_inert continues)
    · exact .none _

/-! ## Tokens -/

/-- The bytes that a token is read from: bytes that are neither quotes nor braces, a short string,
or a brace. -/
inductive Spells : Bytes → Token → Prop where
  | inert {piece t} : piece ≠ [] → (∀ b ∈ piece, Inert b) → t ≠ .symbol "\x7b" →
    t ≠ .symbol "\x7d" → Spells piece t
  | str {quote piece s} : IsQuote quote → Quoted quote piece → Spells (quote :: piece) (.str s)
  | opening : Spells [0x7B] (.symbol "\x7b")
  | closing : Spells [0x7D] (.symbol "\x7d")

theorem Spells.ne_nil {piece : Bytes} {t : Token} (h : Spells piece t) : piece ≠ [] := by
  cases h with
  | inert some_ => exact some_
  | _ => nofun

theorem Takes.number {taken : Bytes × Bytes} {bs rest : Bytes} {t : Token} (h : Takes taken bs)
    (read : ((Numeral.unsigned? taken.1).map fun n => (Token.number n, taken.2)) = some (t, rest)) :
    ∃ piece, bs = piece ++ rest ∧ Spells piece t := by
  obtain ⟨n, found, same⟩ := Option.map_eq_some_iff.1 read
  cases same
  have some_ : taken.1 ≠ [] := by
    intro empty
    rw [empty] at found
    cases found
  exact ⟨taken.1, h.split, .inert some_ h.inert nofun nofun⟩

theorem readNumeral_spells {bs rest : Bytes} {t : Token} (h : readNumeral bs = some (t, rest)) :
    ∃ piece, bs = piece ++ rest ∧ Spells piece t := by
  by_cases hex : ∃ x r, bs = 0x30 :: x :: r ∧ (x = 0x78 ∨ x = 0x58)
  · obtain ⟨x, r, rfl, letter⟩ := hex
    have zero : Inert 0x30 := by decide
    have inert : Inert x := by rcases letter with rfl | rfl <;> decide
    refine (((numeralRun_takes true r).also inert).also zero).number ?_
    rcases letter with rfl | rfl <;> exact h
  · refine (numeralRun_takes false bs).number ?_
    unfold readNumeral at h
    dsimp only at h
    split at h
    · next marked =>
      split at marked
      · next is_ => exact absurd ⟨_, _, is_, .inl rfl⟩ hex
      · next is_ => exact absurd ⟨_, _, is_, .inr rfl⟩ hex
      · cases marked
    · exact h

/-! ## Words and symbols -/

theorem word_ne_symbol (bs : Bytes) (s : String) : word bs ≠ .symbol s := by
  unfold word
  dsimp only
  split <;> nofun

theorem readSymbol_some {ss : List String} {bs rest : Bytes} {t : Token}
    (h : readSymbol ss bs = some (t, rest)) :
    ∃ s ∈ ss, t = .symbol s ∧ bs = Bytes.ofString s ++ rest := by
  induction ss with
  | nil => cases h
  | cons s ss ih =>
    unfold readSymbol at h
    dsimp only at h
    split at h
    · next begins =>
      cases h
      obtain ⟨rest, rfl⟩ := List.isPrefixOf_iff_prefix.1 begins
      exact ⟨s, .head _, rfl, by rw [List.drop_left]⟩
    · obtain ⟨s', there, rest⟩ := ih h
      exact ⟨s', .tail _ there, rest⟩

theorem readSymbol_none {ss : List String} {bs : Bytes} (h : readSymbol ss bs = none) :
    ∀ s ∈ ss, ¬Bytes.ofString s <+: bs := by
  induction ss with
  | nil => nofun
  | cons s ss ih =>
    unfold readSymbol at h
    dsimp only at h
    split at h
    · cases h
    · next begins =>
      exact List.forall_mem_cons.2 ⟨mt List.isPrefixOf_iff_prefix.2 begins, ih h⟩

/-- Symbols other than braces have neither quotes nor braces in them. -/
theorem symbols_spells : ∀ s ∈ symbols, Spells (Bytes.ofString s) (.symbol s) := by
  have sorted : ∀ s ∈ symbols, s = "\x7b" ∨ s = "\x7d" ∨
      Bytes.ofString s ≠ [] ∧ ∀ b ∈ Bytes.ofString s, Inert b := by decide +kernel
  intro s there
  by_cases opens : s = "\x7b"
  · subst opens
    exact .opening
  by_cases closes : s = "\x7d"
  · subst closes
    exact .closing
  rcases sorted s there with is_ | is_ | ⟨some_, inert⟩
  · exact absurd is_ opens
  · exact absurd is_ closes
  · exact .inert some_ inert (fun is_ => opens (Token.symbol.inj is_))
      (fun is_ => closes (Token.symbol.inj is_))

theorem readSymbol_spells {b : UInt8} {r rest : Bytes} {t : Token} (plain : ¬IsQuote b)
    (h : (readSymbol symbols (b :: r)).getD (.stray b, r) = (t, rest)) :
    ∃ piece, b :: r = piece ++ rest ∧ Spells piece t := by
  cases found : readSymbol symbols (b :: r) with
  | some read =>
    rw [found] at h
    cases h
    obtain ⟨s, there, rfl, split⟩ := readSymbol_some found
    exact ⟨_, split, symbols_spells s there⟩
  | none =>
    rw [found] at h
    cases h
    have apart (s : String) (there : s ∈ symbols) (c : UInt8) (byte : Bytes.ofString s = [c]) :
        b ≠ c := by
      rintro rfl
      exact readSymbol_none found s there ⟨r, by rw [byte]; rfl⟩
    have inert : Inert b := ⟨plain, apart "\x7b" (by decide) _ rfl, apart "\x7d" (by decide) _ rfl⟩
    exact ⟨[b], rfl, .inert nofun (by simpa using inert) nofun nofun⟩

/-- A token is read from its own bytes. -/
theorem readToken_spells {b : UInt8} {r rest : Bytes} {t : Token}
    (short : b = 0x5B → openLong 0 r = none) (h : readToken b r = some (t, rest)) :
    ∃ piece, b :: r = piece ++ rest ∧ Spells piece t := by
  unfold readToken at h
  dsimp only at h
  split at h
  · next starts =>
    cases h
    refine ⟨_, List.takeWhile_append_dropWhile.symm, .inert ?_ (fun c there => ?_)
      (word_ne_symbol _ _) (word_ne_symbol _ _)⟩
    · simp [continuesName, starts]
    · exact continuesName_inert (List.mem_takeWhile_imp there)
  split at h
  · exact readNumeral_spells h
  split at h
  · next quotes =>
    obtain ⟨⟨s, rest'⟩, found, same⟩ := Option.map_eq_some_iff.1 h
    cases same
    obtain ⟨piece, quoted, rfl⟩ := readShort_closes quotes found
    exact ⟨_, rfl, .str quotes quoted⟩
  next plain =>
  split at h
  · exact readNumeral_spells h
  split at h
  · next opens =>
    split at opens
    · next bracket => rw [short bracket] at opens; cases opens
    · cases opens
  split at h
  · cases h
  · exact readSymbol_spells plain (Option.some.inj h)

/-! ## Source -/

/-- Source is split into tokens: blanks separate them, and neither comments nor long brackets
begin in it. -/
inductive Splits : Bytes → List Token → Prop where
  | done : Splits [] []
  | blank {b bs ts} : Bytes.isSpace b = true → Splits bs ts → Splits (b :: bs) ts
  | token {b bs rest t ts} : Bytes.isSpace b = false → ¬(b = 0x2D ∧ bs.head? = some 0x2D) →
    (b = 0x5B → openLong 0 bs = none) → readToken b bs = some (t, rest) → Splits rest ts →
    Splits (b :: bs) (t :: ts)

namespace Splits

variable {b : UInt8} {bs : Bytes} {ts : List Token}

theorem of_blank (blank : Bytes.isSpace b = true) (h : Splits (b :: bs) ts) : Splits bs ts := by
  cases h with
  | blank _ h => exact h
  | token some_ => rw [blank] at some_; cases some_

theorem dropLineEnd (h : Splits bs ts) : Splits (dropLineEnd bs) ts := by
  unfold Token.dropLineEnd
  split
  · exact (h.of_blank rfl).of_blank rfl
  · exact (h.of_blank rfl).of_blank rfl
  · exact h.of_blank rfl
  · exact h.of_blank rfl
  · exact h

end Splits

theorem dropLineEnd_length {b : UInt8} (ends : b = 0x0A ∨ b = 0x0D) (bs : Bytes) :
    (dropLineEnd (b :: bs)).length ≤ bs.length := by
  rcases ends with rfl | rfl <;> unfold dropLineEnd <;> split <;> simp_all

/-- The lexer gives these tokens. The induction is on the length of the source, as a line end may
take two blanks at once. -/
theorem Splits.lex {bs : Bytes} {ts : List Token} (h : Splits bs ts) :
    (lex bs).map (·.token) = ts ++ [.done] := by
  suffices ∀ fuel before line, bs.length < fuel →
      (lexFrom fuel before line bs).map (·.token) = ts ++ [.done] from
    this _ _ _ (Nat.lt_succ_self _)
  generalize size : bs.length = n
  induction n using Nat.strongRecOn generalizing bs ts with
  | ind n ih =>
    intro fuel before line enough
    obtain _ | fuel := fuel
    · omega
    cases h with
    | done => rfl
    | @blank b bs ts blank h =>
      rw [List.length_cons] at size
      rw [lexFrom]
      · split
        · next ends =>
          have shorter := dropLineEnd_length ends bs
          exact ih _ (by omega) (h.blank blank).dropLineEnd rfl fuel _ _ (by omega)
        · exact ih bs.length (by omega) h rfl fuel before line (by omega)
      · rintro r rfl
        cases blank
    | @token b bs rest t ts some_ dashes short read h =>
      obtain ⟨piece, split, spells⟩ := readToken_spells short read
      have shorter : rest.length < (b :: bs).length := by
        rw [split, List.length_append]
        have := List.length_pos_iff.2 spells.ne_nil
        omega
      have inline : ¬(b = 0x0A ∨ b = 0x0D) := by
        rintro (rfl | rfl) <;> cases some_
      rw [lexFrom]
      · rw [if_neg inline, some_, if_neg Bool.false_ne_true, read]
        exact congrArg (t :: ·) (ih rest.length (by omega) h rfl fuel _ _ (by omega))
      · rintro r rfl rfl
        exact dashes ⟨rfl, rfl⟩

/-- How many braces are open after some tokens; nothing when a closing brace closes none. -/
def braces : Nat → List Token → Option Nat
  | depth, [] => some depth
  | depth, t :: ts =>
    if t = .symbol "\x7b" then braces (depth + 1) ts
    else if t = .symbol "\x7d" then
      match depth with
      | 0 => none
      | depth + 1 => braces depth ts
    else braces depth ts

theorem braces_cons {depth : Nat} {t : Token} {ts : List Token} (opens : t ≠ .symbol "\x7b")
    (closes : t ≠ .symbol "\x7d") : braces depth (t :: ts) = braces depth ts := by
  rw [braces.eq_def]
  simp only [if_neg opens, if_neg closes]

end Tasklang.Lua.Token
