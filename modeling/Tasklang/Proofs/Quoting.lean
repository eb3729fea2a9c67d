import Tasklang.Proofs.Closing
import Tasklang.Proofs.Slices

/-! # Quoted literals

A quoted text is one token, whose bytes are those of the text, and reading goes on after it on the
same line.
-/

namespace Tasklang.Lua.Token

open Bytes

/-- Whether a byte stands for itself in a string between double quotes. -/
def Bare (b : UInt8) : Prop := b ≠ 0x22 ∧ b ≠ 0x5C ∧ b ≠ 0x0A ∧ b ≠ 0x0D

instance : DecidablePred Bare := fun _ => inferInstanceAs (Decidable (_ ∧ _))

theorem isTail_bare {b : UInt8} (high : isTail b = true) : Bare b := by
  refine ⟨?_, ?_, ?_, ?_⟩ <;> rintro rfl <;> cases high

theorem readShort_bare {bs : Bytes} (bare : ∀ b ∈ bs, Bare b) (rest : Bytes) :
    readShort 0x22 .plain (bs ++ rest) = emit bs (readShort 0x22 .plain rest) := by
  induction bs with
  | nil => cases h : readShort 0x22 .plain rest <;> simp [emit, h]
  | cons b bs ih =>
    obtain ⟨⟨quote, backslash, feed, back⟩, others⟩ := List.forall_mem_cons.1 bare
    rw [List.cons_append, readShort.eq_def]
    simp only [quote, backslash, feed, back, ne_eq, not_false_eq_true, or_self, if_true, if_false,
      Bool.false_eq_true, false_and, ih others]
    cases readShort 0x22 .plain rest <;> rfl

/-- The bytes of a decimal escape. -/
theorem decimal_bytes : ∀ n < 128, ofChars (Number.padZeros 3 (Number.digitChars n)) =
    [UInt8.ofNat (48 + n / 100), UInt8.ofNat (48 + n / 10 % 10), UInt8.ofNat (48 + n % 10)] := by
  decide +kernel

theorem encoded_bare {c : Char} (quote : c ≠ '"') (backslash : c ≠ '\\') (feed : c ≠ '\n')
    (back : c ≠ '\r') : ∀ b ∈ String.utf8EncodeChar c, Bare b := by
  obtain ⟨b, tails, encoded, -, high, apart⟩ := encoded_head c
  rw [encoded]
  refine List.forall_mem_cons.2 ⟨⟨?_, ?_, ?_, ?_⟩, fun d there => isTail_bare (high d there)⟩
  · exact fun is_ => quote ((apart '"' (by decide)).1 is_)
  · exact fun is_ => backslash ((apart '\\' (by decide)).1 is_)
  · exact fun is_ => feed ((apart '\n' (by decide)).1 is_)
  · exact fun is_ => back ((apart '\r' (by decide)).1 is_)

/-- A character of a literal is read back. -/
theorem readShort_quoteChar (c : Char) (rest : Bytes) :
    readShort 0x22 .plain (ofChars (quoteChar c) ++ rest) =
      emit (String.utf8EncodeChar c) (readShort 0x22 .plain rest) := by
  unfold quoteChar
  split
  · next is_ => subst is_; rfl
  split
  · next is_ => subst is_; rfl
  split
  · next is_ => subst is_; rfl
  split
  · next is_ => subst is_; rfl
  split
  · next is_ => subst is_; rfl
  split
  · next control =>
    have low : c.toNat < 128 := by
      simp only [isControl, Bool.or_eq_true, decide_eq_true_eq, beq_iff_eq] at control
      omega
    have digit : ∀ k < 10, isDigit (UInt8.ofNat (48 + k)) = true ∧
        digitValue (UInt8.ofNat (48 + k)) = k := by
      decide
    obtain ⟨digit₁, value₁⟩ := digit (c.toNat / 100) (by omega)
    obtain ⟨digit₂, value₂⟩ := digit (c.toNat / 10 % 10) (by omega)
    obtain ⟨digit₃, value₃⟩ := digit (c.toNat % 10) (by omega)
    have value : (c.toNat / 100 * 10 + c.toNat / 10 % 10) * 10 + c.toNat % 10 = c.toNat := by omega
    rw [ofChars_cons, show String.utf8EncodeChar '\\' = [0x5C] from rfl, decimal_bytes _ low]
    simp only [List.cons_append, List.nil_append]
    rw [readShort_digit (.inl rfl) digit₁, if_neg (by rw [digit₂]; decide), if_neg nofun,
      List.headD_cons, if_neg (by rw [digit₃]; decide), value₁, value₂, value₃, value,
      if_pos (by omega), List.tail_cons, encoded_ascii low]
    rfl
  · next quote backslash feed back _ _ =>
    rw [ofChars_cons, ofChars_nil, List.append_nil,
      readShort_bare (encoded_bare quote backslash feed back)]

theorem readShort_quoted (cs : List Char) (rest : Bytes) :
    readShort 0x22 .plain (ofChars (cs.flatMap quoteChar) ++ 0x22 :: rest) =
      some (ofChars cs, rest) := by
  induction cs with
  | nil =>
    rw [List.flatMap_nil, ofChars_nil, List.nil_append, readShort.eq_def]
    simp
  | cons c cs ih =>
    rw [List.flatMap_cons, ofChars_append, List.append_assoc, readShort_quoteChar, ih, ofChars_cons]
    rfl

/-- The bytes of a literal. -/
theorem quote_bytes (s : String) : ofString (quote s) =
    0x22 :: (ofChars (s.toList.flatMap quoteChar) ++ [0x22]) := by
  rw [ofString, quote, String.toList_ofList, List.cons_append, ofChars_cons, ofChars_append]
  rfl

/-- Whether a byte ends no line. -/
def Inline (b : UInt8) : Prop := b ≠ 0x0A ∧ b ≠ 0x0D

instance : DecidablePred Inline := fun _ => inferInstanceAs (Decidable (_ ∧ _))

theorem Bare.inline {b : UInt8} (h : Bare b) : Inline b := h.2.2

/-- A line does not end inside a literal. -/
theorem quoteChar_inline (c : Char) : ∀ b ∈ ofChars (quoteChar c), Inline b := by
  unfold quoteChar
  split
  · decide +kernel
  split
  · decide +kernel
  split
  · decide +kernel
  split
  · decide +kernel
  split
  · decide +kernel
  split
  · next control =>
    have low : c.toNat < 128 := by
      simp only [isControl, Bool.or_eq_true, decide_eq_true_eq, beq_iff_eq] at control
      omega
    have digit : ∀ k < 10, Inline (UInt8.ofNat (48 + k)) := by decide
    rw [ofChars_cons, decimal_bytes _ low]
    simp only [show String.utf8EncodeChar '\\' = [0x5C] from rfl, List.cons_append, List.nil_append,
      List.forall_mem_cons]
    exact ⟨by decide, digit _ (by omega), digit _ (by omega), digit _ (by omega), nofun⟩
  · next quote backslash feed back _ _ =>
    rw [ofChars_cons, ofChars_nil, List.append_nil]
    exact fun b there => (encoded_bare quote backslash feed back b there).inline

theorem lineEnds_inline {bs : Bytes} (inline : ∀ b ∈ bs, Inline b) : lineEnds bs = 0 := by
  induction bs with
  | nil => rfl
  | cons b bs ih =>
    obtain ⟨⟨feed, back⟩, others⟩ := List.forall_mem_cons.1 inline
    rw [lineEnds]
    · exact ih others
    · exact fun _ is_ _ => feed is_
    · exact fun _ is_ _ => back is_
    · exact feed
    · exact back

theorem passedEnds_piece (piece rest : Bytes) :
    passedEnds (piece ++ rest) rest = lineEnds piece := by
  rw [passedEnds, List.length_append, Nat.add_sub_cancel, List.take_left]

/-- No line ends in the bytes of a literal. -/
theorem quoted_inline (s : String) :
    ∀ b ∈ ofChars (s.toList.flatMap quoteChar) ++ [0x22], Inline b := by
  intro b there
  rcases List.mem_append.1 there with inside | last
  · obtain ⟨c, -, inside⟩ := List.mem_flatMap.1 (by rwa [ofChars, List.flatMap_assoc] at inside)
    exact quoteChar_inline c b inside
  · obtain rfl := List.mem_singleton.1 last
    decide

theorem readToken_quoted (s : String) (rest : Bytes) :
    readToken 0x22 (ofChars (s.toList.flatMap quoteChar) ++ 0x22 :: rest) =
      some (.str (ofString s), rest) := by
  show (readShort 0x22 .plain _).map _ = _
  rw [readShort_quoted]
  rfl

/-- A literal is one token, after which reading goes on. -/
theorem lexFrom_quote (n before line : Nat) (s : String) (rest : Bytes) :
    lexFrom (n + 1) before line (ofString (quote s) ++ rest) =
      ⟨.str (ofString s), line, before⟩ :: lexFrom n line line rest := by
  have flat : endLine (.str (ofString s)) line
      (ofChars (s.toList.flatMap quoteChar) ++ 0x22 :: rest) rest = line := by
    rw [endLine, if_pos (show mayCrossLines (.str (ofString s)) = true from rfl), List.append_cons,
      passedEnds_piece, lineEnds_inline (quoted_inline s), Nat.add_zero]
  rw [quote_bytes, List.cons_append, List.append_assoc, List.singleton_append,
    lexFrom_token rfl (fun _ is_ _ => absurd is_ (by decide)) (readToken_quoted s rest), flat]

/-- A character of a text without line ends is none of them. -/
theorem no_breaks {s : String} (inline : ∀ b ∈ ofString s, Inline b) :
    ∀ c ∈ s.toList, c ≠ '\n' ∧ c ≠ '\r' := by
  intro c there
  have within : ∀ b ∈ String.utf8EncodeChar c, Inline b := fun b inside =>
    inline b (List.mem_flatMap.2 ⟨c, there, inside⟩)
  constructor
  · rintro rfl
    exact (within 0x0A (by decide)).1 rfl
  · rintro rfl
    exact (within 0x0D (by decide)).2 rfl

/-- A literal breaks no line. -/
theorem quote_unbroken (s : String) : ∀ c ∈ (quote s).toList, c ≠ '\n' ∧ c ≠ '\r' := by
  refine no_breaks ?_
  rw [quote_bytes]
  exact List.forall_mem_cons.2 ⟨by decide, quoted_inline s⟩

/-- A literal takes up its own bytes and no others of those that follow, gives back the bytes of its
text and breaks no line; two texts never share one. -/
theorem quote_decodes :
    (∀ s, ∃ body, ofString (quote s) = 0x22 :: body ∧
      ∀ rest, readToken 0x22 (body ++ rest) = some (.str (ofString s), rest)) ∧
    (∀ s, ∀ c ∈ (quote s).toList, c ≠ '\n' ∧ c ≠ '\r') ∧
    Function.Injective quote := by
  have read (s : String) (rest : Bytes) :
      readToken 0x22 (ofChars (s.toList.flatMap quoteChar) ++ [0x22] ++ rest) =
        some (.str (ofString s), rest) := by
    rw [List.append_assoc, List.singleton_append, readToken_quoted]
  refine ⟨fun s => ⟨_, quote_bytes s, read s⟩, quote_unbroken, fun s t same => ?_⟩
  -- One literal is read in one way, so that it has the bytes of both texts.
  have bodies := (quote_bytes s).symm.trans ((congrArg ofString same).trans (quote_bytes t))
  have both := (read s []).symm.trans ((List.cons.inj bodies).2 ▸ read t [])
  exact ofString_injective (by simpa using both)

end Tasklang.Lua.Token
