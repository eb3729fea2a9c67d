import Tasklang.Proofs.Figures
import Tasklang.Proofs.Identifiers
import Tasklang.Proofs.Joining

/-! # Source piece by piece

Pieces of source are tokens of their own as long as what follows does not go on with them: a word or
a numeral ends before a comma, a blank or a closing bracket, a symbol before anything that makes no
longer one of it. So source that is put together from pieces has the tokens of its pieces, in order.
-/

namespace Tasklang.Lua

open Bytes

namespace Token

/-- Tokens on the first line. -/
def firstLine (ts : List Token) : List Lexeme := ts.map fun t => ⟨t, 1, 1⟩

theorem firstLine_append (ts us : List Token) :
    firstLine (ts ++ us) = firstLine ts ++ firstLine us := List.map_append

/-- Whether bytes are read as tokens wherever what follows them allows it. -/
def Lexes (follow : Bytes → Prop) (bs : Bytes) (ts : List Token) : Prop :=
  ∃ k ≤ bs.length, ∀ n rest, follow rest →
    lexFrom (n + k) 1 1 (bs ++ rest) = firstLine ts ++ lexFrom n 1 1 rest

section Spelling

variable {follow follow' : Bytes → Prop} {bs bs' : Bytes} {ts ts' : List Token}

theorem Lexes.append (h : Lexes follow bs ts) (h' : Lexes follow' bs' ts')
    (goes : ∀ rest, follow' rest → follow (bs' ++ rest)) :
    Lexes follow' (bs ++ bs') (ts ++ ts') := by
  obtain ⟨k, few, read⟩ := h
  obtain ⟨k', few', read'⟩ := h'
  refine ⟨k' + k, by rw [List.length_append]; omega, fun n rest follows => ?_⟩
  rw [← Nat.add_assoc, List.append_assoc, read _ _ (goes rest follows), read' n rest follows,
    firstLine_append, List.append_assoc]

theorem Lexes.mono (h : Lexes follow bs ts) (goes : ∀ rest, follow' rest → follow rest) :
    Lexes follow' bs ts := by
  obtain ⟨k, few, read⟩ := h
  exact ⟨k, few, fun n rest follows => read n rest (goes rest follows)⟩

/-- One token on one line. -/
theorem Lexes.token {b : UInt8} {t : Token} (solid : isSpace b = false)
    (flat : mayCrossLines t = false)
    (read : ∀ rest, follow rest → (∀ r, b = 0x2D → bs ++ rest = 0x2D :: r → False) ∧
      readToken b (bs ++ rest) = some (t, rest)) : Lexes follow (b :: bs) [t] := by
  refine ⟨1, Nat.succ_le_succ (Nat.zero_le _), fun n rest follows => ?_⟩
  obtain ⟨apart, read⟩ := read rest follows
  have line : endLine t 1 (bs ++ rest) rest = 1 := if_neg (by rw [flat]; exact Bool.false_ne_true)
  rw [List.cons_append, lexFrom_token solid apart read, line]
  rfl

/-- A blank in front of tokens. -/
theorem Lexes.space (h : Lexes follow bs ts) : Lexes follow (0x20 :: bs) ts := by
  obtain ⟨k, few, read⟩ := h
  refine ⟨k + 1, Nat.succ_le_succ few, fun n rest follows => ?_⟩
  rw [← Nat.add_assoc, List.cons_append, lexFrom_space (by decide) rfl, read n rest follows]

theorem lexes_nil : Lexes follow [] [] := ⟨0, Nat.le_refl _, fun _ _ _ => rfl⟩

theorem lexes_blank : Lexes follow [0x20] [] := lexes_nil.space

/-- Whether anything may follow. -/
def anything : Bytes → Prop := fun _ => True

theorem lexes_open : Lexes anything [0x7B] [.symbol "\x7b"] :=
  .token rfl rfl fun _ _ => ⟨nofun, rfl⟩

theorem lexes_close : Lexes anything [0x7D] [.symbol "\x7d"] :=
  .token rfl rfl fun _ _ => ⟨nofun, rfl⟩

theorem lexes_comma : Lexes anything [0x2C, 0x20] [.symbol ","] := by
  have comma : Lexes anything [0x2C] [.symbol ","] := .token rfl rfl fun _ _ => ⟨nofun, rfl⟩
  exact comma.append lexes_blank fun _ _ => trivial

/-- Whether a byte follows. -/
def first (b : UInt8) (rest : Bytes) : Prop := rest.head? = some b

theorem lexes_equals : Lexes anything [0x20, 0x3D, 0x20] [.symbol "="] := by
  have equals : Lexes (first 0x20) [0x3D] [.symbol "="] := .token rfl rfl fun rest starts => by
    cases rest with
    | nil => cases starts
    | cons b rest =>
      cases starts
      exact ⟨nofun, rfl⟩
  exact (equals.append lexes_blank fun _ _ => rfl).space

theorem lexes_quote (s : String) : Lexes anything (ofString (quote s)) [.str (ofString s)] := by
  refine ⟨1, ?_, fun n rest _ => lexFrom_quote n 1 1 s rest⟩
  rw [quote_bytes]
  exact Nat.succ_le_succ (Nat.zero_le _)

theorem lexes_figures {n : Number} (figures : Figures bs) (read : Numeral.decimal? bs = some n) :
    Lexes Parted bs [.number n] := by
  refine ⟨1, ?_, fun k rest parted => lexFrom_figures figures parted read k 1 1⟩
  obtain ⟨b, r, rfl, -⟩ := figures.starts
  exact Nat.succ_le_succ (Nat.zero_le _)

/-- A minus in front of a numeral. -/
theorem lexes_negative {n : Number} (figures : Figures bs) (read : Numeral.decimal? bs = some n) :
    Lexes Parted (0x2D :: bs) [.symbol "-", .number n] := by
  obtain ⟨b, r, rfl, digit⟩ := figures.starts
  have minus : Lexes (first b) [0x2D] [.symbol "-"] := .token rfl rfl fun rest starts => by
    cases rest with
    | nil => cases starts
    | cons c rest =>
      cases starts
      refine ⟨fun r _ same => ?_, rfl⟩
      cases same
      cases digit
  exact minus.append (lexes_figures figures read) fun _ _ => rfl

/-- A key between brackets. -/
theorem lexes_bracketed (s : String) : Lexes anything ([0x5B] ++ ofString (quote s) ++ [0x5D])
    ([.symbol "["] ++ [.str (ofString s)] ++ [.symbol "]"]) := by
  have left : Lexes (first 0x22) [0x5B] [.symbol "["] := .token rfl rfl fun rest starts => by
    cases rest with
    | nil => cases starts
    | cons c rest =>
      cases starts
      exact ⟨nofun, rfl⟩
  have right : Lexes anything [0x5D] [.symbol "]"] := .token rfl rfl fun _ _ => ⟨nofun, rfl⟩
  have quoted := left.append (lexes_quote s) fun rest _ => by
    rw [quote_bytes, List.cons_append]
    rfl
  exact quoted.append right fun _ _ => trivial

end Spelling

/-! ## Words -/

theorem continuesName_ascii {c : Char} (continues : Lua.continuesName c = true) :
    c.toNat < 128 := by
  simp only [Lua.continuesName, Char.isAlphanum, Char.isAlpha, Char.isUpper, Char.isLower,
    Char.isDigit, Bool.or_eq_true, Bool.and_eq_true, decide_eq_true_iff, ge_iff_le,
    UInt32.le_iff_toNat_le, beq_iff_eq, ← Char.toNat_inj, Char.reduceVal] at continues
  simp only [show c.val.toNat = c.toNat from rfl, UInt32.reduceToNat, Char.reduceToNat] at continues
  omega

/-- A character of a name is one byte, which can stand there in a name of source. -/
theorem encoded_name {c : Char} (continues : Lua.continuesName c = true) :
    String.utf8EncodeChar c = [byte c] ∧ continuesName (byte c) = true ∧
      isSpace (byte c) = false ∧ Char.ofNat (byte c).toNat = c ∧
      (Lua.startsName c = true → startsName (byte c) = true) := by
  have ascii := continuesName_ascii continues
  have same : (byte c).toNat = c.toNat := toNat_ofNat (by omega)
  have table : ∀ n < 128, Lua.continuesName (Char.ofNat n) = true →
      continuesName (UInt8.ofNat n) = true ∧ isSpace (UInt8.ofNat n) = false ∧
        (Lua.startsName (Char.ofNat n) = true → startsName (UInt8.ofNat n) = true) := by
    decide +kernel
  have here := table c.toNat ascii
  rw [Char.ofNat_toNat] at here
  obtain ⟨goes, solid, starts⟩ := here continues
  exact ⟨encoded_ascii ascii, goes, solid, by rw [same, Char.ofNat_toNat], starts⟩

theorem parted_stops {rest : Bytes} (parted : Parted rest) :
    rest.takeWhile continuesName = [] ∧ rest.dropWhile continuesName = rest := by
  cases rest with
  | nil => exact ⟨rfl, rfl⟩
  | cons b rest => rcases parted b rfl with rfl | rfl | rfl | rfl <;> exact ⟨rfl, rfl⟩

theorem asciiString_ofChars {cs : List Char} (continues : cs.all Lua.continuesName = true) :
    asciiString (ofChars cs) = String.ofList cs := by
  rw [asciiString]
  congr 1
  induction cs with
  | nil => rfl
  | cons c cs ih =>
    rw [List.all_cons, Bool.and_eq_true] at continues
    obtain ⟨encoded, -, -, same, -⟩ := encoded_name continues.1
    rw [ofChars_cons, encoded, List.singleton_append, List.map_cons, same, ih continues.2]

/-- A word is one token, whatever follows apart from it. -/
theorem lexes_word {s : String} {c : Char} {cs : List Char} (chars : s.toList = c :: cs)
    (starts : Lua.startsName c = true) (continues : cs.all Lua.continuesName = true) :
    Lexes Parted (ofString s) [if keywords.contains s then .keyword s else .name s] := by
  have first : Lua.continuesName c = true := by
    simp only [Lua.startsName, Lua.continuesName, Char.isAlphanum, Bool.or_eq_true] at starts ⊢
    tauto
  have all : ∀ b ∈ ofChars cs, continuesName b = true := by
    intro b there
    obtain ⟨d, inside, there⟩ := List.mem_flatMap.1 there
    obtain ⟨encoded, goes, -⟩ := encoded_name (List.all_eq_true.1 continues d inside)
    rw [encoded, List.mem_singleton] at there
    exact there ▸ goes
  obtain ⟨encoded, goes, solid, -, starts'⟩ := encoded_name first
  have text : asciiString (ofString s) = s := by
    rw [ofString, chars, asciiString_ofChars (by rw [List.all_cons, first, continues]; rfl), ← chars,
      String.ofList_toList]
  have spelled : word (ofString s) = if keywords.contains s then .keyword s else .name s := by
    rw [word, text]
  rw [← spelled, ofString, chars, ofChars_cons, encoded, List.singleton_append]
  refine .token solid ?_ fun rest parted => ⟨?_, ?_⟩
  · unfold word
    dsimp only
    split <;> rfl
  · intro r is_
    rw [is_] at starts'
    exact absurd (starts' starts) (by decide)
  · obtain ⟨taken, left⟩ := parted_stops parted
    have every : ∀ b ∈ byte c :: ofChars cs, continuesName b = true :=
      List.forall_mem_cons.2 ⟨goes, all⟩
    unfold readToken
    dsimp only
    rw [if_pos (starts' starts), ← List.cons_append, List.takeWhile_append_of_pos every,
      List.dropWhile_append_of_pos every, taken, left, List.append_nil]

theorem lexes_name {name : String} (valid : isIdentifier name = true) :
    Lexes Parted (ofString name) [.name name] := by
  obtain ⟨c, cs, chars, starts, continues, free⟩ := isIdentifier_iff.1 valid
  have lexes := lexes_word chars starts continues
  rwa [if_neg (by rwa [List.contains_iff_mem])] at lexes

end Token

end Tasklang.Lua
