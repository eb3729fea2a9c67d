import Tasklang.Proofs.Lexing

/-! # Source in front of a parenthesis

Source that leaves nothing open, no comment and no string, is read the same in front of a closing
parenthesis, whatever follows there and on whatever line it stands.
-/

namespace Tasklang.Lua

/-- A token further down in its source. -/
def Lexeme.down (d : Nat) (t : Lexeme) : Lexeme :=
  { t with line := t.line + d, before := t.before + d }

namespace Token

theorem emit_append {bs s rest z : Bytes} {r r' : Option (Bytes × Bytes)}
    (h : emit bs r = some (s, rest))
    (goes : ∀ {s rest}, r = some (s, rest) → r' = some (s, rest ++ z)) :
    emit bs r' = some (s, rest ++ z) := by
  obtain ⟨⟨s', rest'⟩, found, same⟩ := Option.map_eq_some_iff.1 h
  cases same
  rw [goes found]
  rfl

/-- Where nothing is skipped, a short string is read as between characters. -/
theorem readShort_plain {quote : UInt8} {place : Place} {b : UInt8} (bs : Bytes)
    (stays : ¬(place matches .skip ∧ Bytes.isSpace b)) (other : ∀ v, place = .code v → False) :
    readShort quote place (b :: bs) = readShort quote .plain (b :: bs) := by
  cases place with
  | plain => rfl
  | skip =>
    rw [readShort.eq_def, readShort.eq_def quote .plain]
    exact (if_neg stays).trans (if_neg fun never => Bool.false_ne_true never.1).symm
  | code v => exact (other v rfl).elim

theorem letterEscape?_digit {e : UInt8} (digit : Bytes.isDigit e = true) :
    letterEscape? e = none := by
  have apart (c : UInt8) (other : Bytes.isDigit c = false) : e ≠ c := by
    rintro rfl
    rw [digit] at other
    cases other
  simp only [letterEscape?, apart _ (show Bytes.isDigit 0x61 = false from rfl),
    apart _ (show Bytes.isDigit 0x62 = false from rfl),
    apart _ (show Bytes.isDigit 0x66 = false from rfl),
    apart _ (show Bytes.isDigit 0x6E = false from rfl),
    apart _ (show Bytes.isDigit 0x72 = false from rfl),
    apart _ (show Bytes.isDigit 0x74 = false from rfl),
    apart _ (show Bytes.isDigit 0x76 = false from rfl),
    apart _ (show Bytes.isDigit 0x5C = false from rfl),
    apart _ (show Bytes.isDigit 0x22 = false from rfl),
    apart _ (show Bytes.isDigit 0x27 = false from rfl), if_false, or_false]

section Short

variable {quote : UInt8} (quotes : IsQuote quote)

include quotes

/-- A letter after a backslash. -/
theorem readShort_letter {e c : UInt8} (escape : letterEscape? e = some c) (bs : Bytes) :
    readShort quote .plain (0x5C :: e :: bs) = emit [c] (readShort quote .plain bs) := by
  unfold letterEscape? at escape
  rcases quotes with rfl | rfl <;> split_ifs at escape with a b f n r t v own <;> cases escape <;>
    first
    | (subst_vars; rfl)
    | (rcases own with rfl | rfl | rfl <;> rfl)

/-- A digit after a backslash, and the byte after it. -/
theorem readShort_digit {e : UInt8} (digit : Bytes.isDigit e = true) (d : UInt8) (ds : Bytes) :
    readShort quote .plain (0x5C :: e :: d :: ds) =
      if !Bytes.isDigit d then emit [UInt8.ofNat (digitValue e)] (readShort quote .plain (d :: ds))
      else if ds = [] then none
      else if !Bytes.isDigit (ds.headD 0) then
        emit [UInt8.ofNat (digitValue e * 10 + digitValue d)] (readShort quote .plain ds)
      else if (digitValue e * 10 + digitValue d) * 10 + digitValue (ds.headD 0) ≤ 255 then
        emit [UInt8.ofNat ((digitValue e * 10 + digitValue d) * 10 + digitValue (ds.headD 0))]
          (readShort quote .plain ds.tail)
      else none := by
  have bare : (0x5C : UInt8) ≠ quote := by rcases quotes with rfl | rfl <;> decide
  rw [readShort.eq_def]
  simp only [bare, ne_eq, not_true, if_false, Bool.false_eq_true, false_and]
  rw [if_neg (by decide)]
  split <;> rename_i same
  case h_1 => cases same
  case h_9 =>
    cases same
    simp only [letterEscape?_digit digit, digit, Bool.not_true, Bool.false_eq_true, if_false]
    cases ds <;> rfl
  all_goals exact absurd ((List.cons.inj same).1 ▸ digit) (by decide)

/-- A short string is read by its own bytes. -/
theorem readShort_append {place : Place} {bs s rest : Bytes} (z : Bytes)
    (h : readShort quote place bs = some (s, rest)) :
    readShort quote place (bs ++ z) = some (s, rest ++ z) := by
  have bare : (0x5C : UInt8) ≠ quote := by rcases quotes with rfl | rfl <;> decide
  fun_induction readShort quote place bs generalizing s rest with
  | case2 value bs ih => exact emit_append h ih
  | case3 value b bs inside d digit small ih =>
    rw [List.cons_append, readShort]
    simp only [inside, digit, if_false, if_pos small]
    exact ih h
  | case6 place b bs other blank ih =>
    cases place with
    | skip =>
      rw [List.cons_append, readShort.eq_def]
      exact (if_pos blank).trans (ih h)
    | _ => cases blank.1
  | case7 place bs other stays =>
    cases h
    rw [List.cons_append, readShort_plain _ stays other, readShort.eq_def]
    simp only [if_true]
    rfl
  | case9 place b bs other stays inside line bare ih =>
    rw [List.cons_append, readShort_plain _ stays other, readShort.eq_def]
    simp only [inside, line, if_pos bare, if_false, Bool.false_eq_true, false_and]
    exact emit_append h ih
  | case11 place b other stays _ _ backslash bs ih
  | case12 place b other stays _ _ backslash bs ih =>
    obtain rfl := not_not.1 backslash
    rw [List.cons_append, readShort_plain _ stays other]
    rcases quotes with rfl | rfl <;> exact emit_append h ih
  | case13 place b other stays inside line backslash bs single ih
  | case14 place b other stays inside line backslash bs single ih =>
    obtain rfl := not_not.1 backslash
    rw [List.cons_append, readShort_plain _ stays other, readShort.eq_def]
    simp only [inside, line, ne_eq, not_true, if_false, Bool.false_eq_true, false_and]
    cases bs with
    | nil => cases h
    | cons c bs =>
    rw [List.cons_append, List.cons_append]
    split
    all_goals first | simp_all; done | skip
    next same =>
      cases same
      exact emit_append h ih
  | case15 place b other stays _ _ backslash bs ih =>
    obtain rfl := not_not.1 backslash
    rw [List.cons_append, readShort_plain _ stays other]
    rcases quotes with rfl | rfl <;> exact ih h
  | case16 place b other stays inside line backslash h' l' bs h1 l1 d1 d2 ih =>
    obtain rfl := not_not.1 backslash
    rw [List.cons_append, readShort_plain _ stays other, readShort.eq_def]
    simp only [inside, line, ne_eq, not_true, if_false, Bool.false_eq_true, false_and,
      List.cons_append, d1, d2]
    exact emit_append h ih
  | case18 place b other stays inside line backslash d bs v digit ih =>
    obtain rfl := not_not.1 backslash
    rw [List.cons_append, readShort_plain _ stays other, readShort.eq_def]
    simp only [inside, line, ne_eq, not_true, if_false, Bool.false_eq_true, false_and,
      List.cons_append, digit]
    exact ih h
  | case20 place b other stays _ _ backslash e bs _ _ _ _ _ _ _ c escape ih =>
    obtain rfl := not_not.1 backslash
    rw [List.cons_append, readShort_plain _ stays other, List.cons_append,
      readShort_letter quotes escape]
    exact emit_append h ih
  | case23 place b other stays _ _ backslash e _ _ _ _ digit d ds last =>
    rename_i ih
    obtain rfl := not_not.1 backslash
    rw [List.cons_append, readShort_plain _ stays other, List.cons_append, List.cons_append,
      readShort_digit quotes (by simpa using digit), if_pos last]
    exact emit_append h ih
  | case25 place b other stays _ _ backslash e _ _ _ _ digit d digit' c cs last =>
    rename_i ih
    obtain rfl := not_not.1 backslash
    rw [List.cons_append, readShort_plain _ stays other, List.cons_append, List.cons_append,
      readShort_digit quotes (by simpa using digit), if_neg digit',
      if_neg (show c :: cs ++ z ≠ [] from List.cons_ne_nil c (cs ++ z))]
    exact (if_pos last).trans (emit_append h ih)
  | case26 place b other stays _ _ backslash e _ _ _ _ digit d digit' c cs digit'' n small =>
    rename_i ih
    obtain rfl := not_not.1 backslash
    rw [List.cons_append, readShort_plain _ stays other, List.cons_append, List.cons_append,
      readShort_digit quotes (by simpa using digit), if_neg digit',
      if_neg (show c :: cs ++ z ≠ [] from List.cons_ne_nil c (cs ++ z))]
    exact (if_neg digit'').trans ((if_pos small).trans (emit_append h ih))
  | _ => cases h

end Short

/-! ## Words and numerals -/

theorem takeWhile_before {p : UInt8 → Bool} {x : UInt8} (stops : p x = false) (bs more : Bytes) :
    (bs ++ x :: more).takeWhile p = bs.takeWhile p := by
  induction bs with
  | nil => simp [stops]
  | cons b bs ih => by_cases h : p b <;> simp [h, ih]

theorem dropWhile_before {p : UInt8 → Bool} {x : UInt8} (stops : p x = false) (bs more : Bytes) :
    (bs ++ x :: more).dropWhile p = bs.dropWhile p ++ x :: more := by
  induction bs with
  | nil => simp [stops]
  | cons b bs ih => by_cases h : p b <;> simp [h, ih]

/-- What is taken is the same when more is left. -/
def leaving (z : Bytes) (taken : Bytes × Bytes) : Bytes × Bytes := (taken.1, taken.2 ++ z)

theorem numeralRun_stops (hex : Bool) (more : Bytes) :
    numeralRun hex (0x29 :: more) = ([], 0x29 :: more) := by
  cases more <;> cases hex <;> rfl

/-- A numeral ends before a parenthesis. -/
theorem numeralRun_before (hex : Bool) (more : Bytes) : ∀ bs : Bytes,
    numeralRun hex (bs ++ 0x29 :: more) = leaving (0x29 :: more) (numeralRun hex bs)
  | [] => numeralRun_stops hex more
  | [b] => by
    have unsigned : ¬((0x29 : UInt8) = 0x2B ∨ (0x29 : UInt8) = 0x2D) := by decide
    rw [List.singleton_append, numeralRun_cons_cons, numeralRun_singleton, numeralRun_stops,
      if_neg unsigned]
    split
    · rfl
    split <;> rfl
  | b :: c :: cs => by
    have ih := numeralRun_before hex more cs
    have ih' := numeralRun_before hex more (c :: cs)
    rw [List.cons_append] at ih'
    rw [List.cons_append, List.cons_append, numeralRun_cons_cons, numeralRun_cons_cons, ih, ih']
    split
    · split <;> rfl
    split <;> rfl

/-- The bytes of a numeral that starts with these, and what is left of them. -/
theorem readNumeral_hex {x : UInt8} (letter : x = 0x78 ∨ x = 0x58) (bs : Bytes) :
    readNumeral (0x30 :: x :: bs) =
      (Numeral.unsigned? (0x30 :: x :: (numeralRun true bs).1)).map fun n =>
        (.number n, (numeralRun true bs).2) := by
  rcases letter with rfl | rfl <;> rfl

theorem readNumeral_decimal {bs : Bytes}
    (plain : ¬∃ x r, bs = 0x30 :: x :: r ∧ (x = 0x78 ∨ x = 0x58)) :
    readNumeral bs =
      (Numeral.unsigned? (numeralRun false bs).1).map fun n =>
        (.number n, (numeralRun false bs).2) := by
  unfold readNumeral
  dsimp only
  split
  · next marked =>
    split at marked
    · next is_ => exact absurd ⟨_, _, is_, .inl rfl⟩ plain
    · next is_ => exact absurd ⟨_, _, is_, .inr rfl⟩ plain
    · cases marked
  · rfl

theorem readNumeral_before (more bs : Bytes) : readNumeral (bs ++ 0x29 :: more) =
    (readNumeral bs).map fun read => (read.1, read.2 ++ 0x29 :: more) := by
  by_cases hex : ∃ x r, bs = 0x30 :: x :: r ∧ (x = 0x78 ∨ x = 0x58)
  · obtain ⟨x, r, rfl, letter⟩ := hex
    rw [List.cons_append, List.cons_append, readNumeral_hex letter, readNumeral_hex letter,
      numeralRun_before, Option.map_map]
    rfl
  · have plain : ¬∃ x r, bs ++ 0x29 :: more = 0x30 :: x :: r ∧ (x = 0x78 ∨ x = 0x58) := by
      rintro ⟨x, r, same, letter⟩
      match bs with
      | [] => cases same
      | [b] =>
        cases same
        rcases letter with is_ | is_ <;> cases is_
      | b :: c :: cs =>
        cases same
        exact hex ⟨x, cs, rfl, letter⟩
    rw [readNumeral_decimal plain, readNumeral_decimal hex, numeralRun_before, Option.map_map]
    rfl

/-! ## Long brackets -/

theorem openLong_before (level : Nat) (more bs : Bytes) :
    openLong level (bs ++ 0x29 :: more) =
      (openLong level bs).map fun read => (read.1, read.2 ++ 0x29 :: more) := by
  fun_induction openLong level bs with
  | case1 level bs ih => exact ih
  | case2 => rfl
  | case3 bs level deeper opens =>
    match bs with
    | [] => rfl
    | b :: bs =>
      rw [List.cons_append, openLong.eq_def]
      split <;> rename_i same
      · cases same
        exact (deeper _ rfl).elim
      · cases same
        exact (opens _ rfl).elim
      · rfl

theorem closeLong_append {level : Nat} {bs rest : Bytes} (z : Bytes)
    (h : closeLong level bs = some rest) : closeLong level (bs ++ z) = some (rest ++ z) := by
  fun_induction closeLong level bs with
  | case1 => cases h; rfl
  | case2 level bs ih => exact ih h
  | case3 => cases h

/-- A bracket that does not close a long string does not do so either when more follows, as long as
another one closes it. -/
theorem closeLong_none {level : Nat} {bs : Bytes} (z : Bytes) (h : closeLong level bs = none)
    (closes : ∃ b ∈ bs, b ≠ 0x3D) : closeLong level (bs ++ z) = none := by
  fun_induction closeLong level bs with
  | case1 => cases h
  | case2 level bs ih =>
    refine ih h ?_
    obtain ⟨b, there, other⟩ := closes
    rcases List.mem_cons.1 there with rfl | there
    · exact absurd rfl other
    · exact ⟨b, there, other⟩
  | case3 level bs here deeper =>
    match bs with
    | [] => exact absurd closes (by simp)
    | b :: bs =>
      rw [List.cons_append, closeLong.eq_def]
      split <;> rename_i same
      · cases same
        exact (here _ rfl rfl).elim
      · cases same
        exact (deeper _ _ rfl rfl).elim
      · rfl

theorem readLong_closes {level : Nat} {bs s rest : Bytes}
    (h : readLong level bs = some (s, rest)) : ∃ b ∈ bs, b ≠ 0x3D := by
  fun_induction readLong level bs generalizing s with
  | case1 => cases h
  | case2 | case3 | case4 => exact ⟨_, .head _, by decide⟩
  | case5 | case6 => exact ⟨0x5D, .head _, by decide⟩
  | case7 b bs _ _ _ _ ih =>
    obtain ⟨s', found⟩ := emit_some h
    obtain ⟨c, there, other⟩ := ih found
    exact ⟨c, .tail _ there, other⟩

/-- A long string is read by its own bytes. -/
theorem readLong_append {level : Nat} {bs s rest : Bytes} (z : Bytes)
    (h : readLong level bs = some (s, rest)) :
    readLong level (bs ++ z) = some (s, rest ++ z) := by
  fun_induction readLong level bs generalizing s rest with
  | case1 => cases h
  | case2 bs ih | case3 bs ih => exact emit_append h ih
  | case4 bs single ih =>
    match bs with
    | [] => cases h
    | c :: bs =>
      rw [List.cons_append, readLong]
      · exact emit_append h ih
      · rintro bs' same
        cases same
        exact single _ rfl
  | case5 bs rest' closes =>
    cases h
    rw [List.cons_append, readLong, closeLong_append z closes]
  | case6 bs open_ ih =>
    obtain ⟨s', found⟩ := emit_some h
    rw [List.cons_append, readLong, closeLong_none z open_ (readLong_closes found)]
    exact emit_append h ih
  | case7 b bs first second third fourth ih =>
    obtain ⟨s', found⟩ := emit_some h
    match bs with
    | [] => cases found
    | c :: bs =>
      rw [List.cons_append, readLong]
      · exact emit_append h ih
      · rintro bs' rfl same
        cases same
        exact first _ rfl rfl
      · rintro bs' rfl same
        cases same
        exact second _ rfl rfl
      · exact third
      · exact fourth

/-! ## Symbols -/

theorem isPrefixOf_before {s bs : Bytes} (more : Bytes) (some_ : bs ≠ [])
    (apart : s.length ≤ 1 ∨ 0x29 ∉ s) : s.isPrefixOf (bs ++ 0x29 :: more) = s.isPrefixOf bs := by
  rw [Bool.eq_iff_iff, List.isPrefixOf_iff_prefix, List.isPrefixOf_iff_prefix]
  constructor
  · intro begins
    by_cases short : s.length ≤ bs.length
    · exact List.prefix_of_prefix_length_le begins (List.prefix_append _ _) short
    · have long : 1 < s.length := by
        have := List.length_pos_iff.2 some_
        omega
      obtain ⟨back, rfl⟩ := List.prefix_of_prefix_length_le (List.prefix_append bs (0x29 :: more))
        begins (by omega)
      match back with
      | [] => simp at short
      | c :: back =>
        have same : c = 0x29 := by
          have := (List.prefix_append_right_inj bs).1 begins
          exact (List.cons_prefix_cons.1 this).1
        simp only [same, List.length_append, List.length_cons, List.mem_append, List.mem_cons,
          true_or, or_true, not_true, or_false] at apart long
        omega
  · exact fun begins => begins.trans (List.prefix_append _ _)

theorem readSymbol_before {ss : List String} {bs : Bytes} (more : Bytes) (some_ : bs ≠ [])
    (apart : ∀ s ∈ ss, (Bytes.ofString s).length ≤ 1 ∨ 0x29 ∉ Bytes.ofString s) :
    readSymbol ss (bs ++ 0x29 :: more) =
      (readSymbol ss bs).map fun read => (read.1, read.2 ++ 0x29 :: more) := by
  induction ss with
  | nil => rfl
  | cons s ss ih =>
    have first := apart s (.head _)
    unfold readSymbol
    dsimp only
    rw [isPrefixOf_before more some_ first, ih fun s there => apart s (.tail _ there)]
    split
    · next begins =>
      have short := (List.isPrefixOf_iff_prefix.1 begins).length_le
      rw [Option.map_some, List.drop_append_of_le_length short]
    · rfl

theorem dropLineEnd_before (more : Bytes) : ∀ bs : Bytes,
    dropLineEnd (bs ++ 0x29 :: more) = dropLineEnd bs ++ 0x29 :: more
  | [] => rfl
  | [b] => by
    by_cases feed : b = 0x0A
    · subst feed; rfl
    by_cases back : b = 0x0D
    · subst back; rfl
    simp [dropLineEnd, feed, back]
  | b :: c :: bs => by
    by_cases feed : b = 0x0A
    · subst feed
      by_cases pair : c = 0x0D
      · subst pair; rfl
      simp [dropLineEnd, pair]
    by_cases back : b = 0x0D
    · subst back
      by_cases pair : c = 0x0A
      · subst pair; rfl
      simp [dropLineEnd, pair]
    simp [dropLineEnd, feed, back]

/-! ## Tokens -/

/-- Reading a token goes on the same before a parenthesis. -/
theorem readToken_before {b : UInt8} {bs rest : Bytes} {t : Token} (more : Bytes)
    (h : readToken b bs = some (t, rest)) :
    readToken b (bs ++ 0x29 :: more) = some (t, rest ++ 0x29 :: more) := by
  have symbols_short : ∀ s ∈ symbols, (Bytes.ofString s).length ≤ 1 ∨ 0x29 ∉ Bytes.ofString s := by
    decide +kernel
  have digits : (bs ++ 0x29 :: more).head?.any Bytes.isDigit = bs.head?.any Bytes.isDigit := by
    cases bs <;> rfl
  have equals : (bs ++ 0x29 :: more).head? = some 0x3D ↔ bs.head? = some 0x3D := by
    cases bs <;> simp
  unfold readToken at h ⊢
  dsimp only at h ⊢
  rw [← List.cons_append, takeWhile_before rfl, dropWhile_before rfl, readNumeral_before, digits,
    openLong_before, readSymbol_before more (List.cons_ne_nil b bs) symbols_short]
  split at h
  · next starts =>
    rw [if_pos starts]
    cases h
    rfl
  next starts =>
  rw [if_neg starts]
  split at h
  · next digit =>
    rw [if_pos digit, h]
    rfl
  next digit =>
  rw [if_neg digit]
  split at h
  · next quotes =>
    rw [if_pos quotes]
    obtain ⟨⟨s, rest'⟩, found, same⟩ := Option.map_eq_some_iff.1 h
    cases same
    rw [readShort_append quotes _ found]
    rfl
  next plain =>
  rw [if_neg plain]
  split at h
  · next point =>
    rw [if_pos point, h]
    rfl
  next point =>
  rw [if_neg point]
  by_cases long : ∃ opened, (if b = 0x5B then openLong 0 bs else none) = some opened
  · obtain ⟨⟨level, r⟩, opened⟩ := long
    simp only [opened] at h
    obtain ⟨⟨s, rest'⟩, found, same⟩ := Option.map_eq_some_iff.1 h
    cases same
    split at opened
    · next bracket =>
      simp only [if_pos bracket, opened, Option.map_some, dropLineEnd_before,
        readLong_append _ found]
    · cases opened
  · have short : (if b = 0x5B then openLong 0 bs else none) = none := by
      simpa [Option.eq_none_iff_forall_ne_some] using long
    simp only [short] at h
    have short' : (if b = 0x5B then (openLong 0 bs).map fun read =>
        (read.1, read.2 ++ 0x29 :: more) else none) = none := by
      split at short
      · next bracket => rw [if_pos bracket, short, Option.map_none]
      · next bracket => rw [if_neg bracket]
    simp only [short']
    split at h
    · cases h
    next level =>
    rw [if_neg (by rwa [equals])]
    cases found : readSymbol symbols (b :: bs) with
    | some read =>
      rw [found] at h
      cases h
      rfl
    | none =>
      rw [found] at h
      cases h
      rfl

theorem lineComment_before {bs : Bytes} (more : Bytes)
    (ends : (bs ++ [0x29]).dropWhile (fun b => b != 0x0A && b != 0x0D) ≠ []) :
    (bs ++ 0x29 :: more).dropWhile (fun b => b != 0x0A && b != 0x0D) =
      bs.dropWhile (fun b => b != 0x0A && b != 0x0D) ++ 0x29 :: more := by
  rw [List.dropWhile_append] at ends ⊢
  split at ends
  · exact absurd rfl ends
  · next some_ => rw [if_neg some_]

/-- A comment that does not go on up to the end is passed in the same way before a parenthesis. -/
theorem skipComment_before {bs rest : Bytes} (more : Bytes) (h : skipComment bs = some rest)
    (ends : skipComment (bs ++ [0x29]) ≠ some []) :
    skipComment (bs ++ 0x29 :: more) = some (rest ++ 0x29 :: more) := by
  match bs with
  | [] => exact absurd rfl ends
  | b :: r =>
    by_cases bracket : b = 0x5B
    · subst bracket
      simp only [skipComment, List.cons_append] at h ends ⊢
      rw [openLong_before] at ends ⊢
      cases opened : openLong 0 r with
      | some read =>
        obtain ⟨level, inside⟩ := read
        simp only [opened, Option.map_some] at h ⊢
        obtain ⟨⟨s, left⟩, found, same⟩ := Option.map_eq_some_iff.1 h
        cases same
        rw [readLong_append _ found]
        rfl
      | none =>
        simp only [opened, Option.map_none, Option.some.injEq] at h ends ⊢
        rw [← h]
        have some_ : (0x5B :: r ++ [0x29]).dropWhile (fun b => b != 0x0A && b != 0x0D) ≠ [] :=
          fun empty => ends (congrArg some empty)
        exact lineComment_before more some_
    · have line (r : Bytes) : skipComment (b :: r) =
          some ((b :: r).dropWhile fun b => b != 0x0A && b != 0x0D) := by
        rw [skipComment.eq_def]
        split
        · next same => cases same; exact absurd rfl bracket
        · rfl
      rw [List.cons_append, line, ← List.cons_append] at ends ⊢
      rw [line] at h
      cases h
      exact congrArg some (lineComment_before more fun empty => ends (congrArg some empty))

/-! ## Source -/

section Equations

variable {n before line : Nat} {b : UInt8} {bs rest : Bytes} {t : Token}

theorem lexFrom_lineEnd (ends : b = 0x0A ∨ b = 0x0D) :
    lexFrom (n + 1) before line (b :: bs) =
      lexFrom n before (line + 1) (dropLineEnd (b :: bs)) := by
  rw [lexFrom, if_pos ends]
  rintro r rfl
  rcases ends with is_ | is_ <;> cases is_

theorem lexFrom_space (inline : ¬(b = 0x0A ∨ b = 0x0D)) (blank : Bytes.isSpace b = true) :
    lexFrom (n + 1) before line (b :: bs) = lexFrom n before line bs := by
  rw [lexFrom, if_neg inline, if_pos blank]
  rintro r rfl
  cases blank

theorem lexFrom_comment {r : Bytes} (skipped : skipComment r = some rest) :
    lexFrom (n + 1) before line (0x2D :: 0x2D :: r) =
      lexFrom n before (line + passedEnds r rest) rest := by
  rw [lexFrom, skipped]
  rfl

/-- The line on which a token ends that starts on a line. -/
def endLine (t : Token) (line : Nat) (bs rest : Bytes) : Nat :=
  if mayCrossLines t then line + passedEnds bs rest else line

theorem lexFrom_token (solid : Bytes.isSpace b = false)
    (apart : ∀ r, b = 0x2D → bs = 0x2D :: r → False) (read : readToken b bs = some (t, rest)) :
    lexFrom (n + 1) before line (b :: bs) =
      ⟨t, endLine t line bs rest, before⟩ ::
        lexFrom n (endLine t line bs rest) (endLine t line bs rest) rest := by
  have inline : ¬(b = 0x0A ∨ b = 0x0D) := by rintro (rfl | rfl) <;> cases solid
  rw [lexFrom, if_neg inline, if_neg (by rw [solid]; exact Bool.false_ne_true), read]
  · rfl
  · exact apart

end Equations

/-- Where source stands only matters for the lines of its tokens. -/
theorem lexFrom_down (d n before line : Nat) (bs : Bytes) :
    lexFrom n (before + d) (line + d) bs = (lexFrom n before line bs).map (Lexeme.down d) := by
  fun_induction lexFrom n before line bs with
  | case1 => rfl
  | case2 => rfl
  | case3 before line n b bs ends ih =>
    rw [lexFrom_lineEnd ends, Nat.add_right_comm]
    exact ih
  | case4 n before line b bs inline blank ih =>
    rw [lexFrom_space inline blank]
    exact ih
  | case5 n before line r rest skipped _ _ ih =>
    rw [lexFrom_comment skipped, Nat.add_right_comm]
    exact ih
  | case6 n before line r skipped =>
    rw [lexFrom, skipped]
    rfl
  | case7 n before line b bs inline solid t rest read l apart ih =>
    rw [lexFrom_token (by simpa using solid) apart read, read]
    have ends : endLine t (line + d) bs rest = endLine t line bs rest + d := by
      unfold endLine
      split <;> omega
    rw [ends]
    exact congrArg _ ih
  | case8 n before line b bs inline solid read apart =>
    rw [lexFrom, if_neg inline, if_neg solid, read]
    · rfl
    · exact apart

theorem passedEnds_append (bs rest z : Bytes) :
    passedEnds (bs ++ z) (rest ++ z) = passedEnds bs rest := by
  rw [passedEnds, passedEnds, List.length_append, List.length_append, Nat.add_sub_add_right,
    List.take_append_of_le_length (Nat.sub_le _ _)]

theorem endLine_append (t : Token) (line : Nat) (bs rest z : Bytes) :
    endLine t line (bs ++ z) (rest ++ z) = endLine t line bs rest := by
  rw [endLine, endLine, passedEnds_append]

theorem lexFrom_ne_nil (n before line : Nat) (bs : Bytes) : lexFrom n before line bs ≠ [] := by
  fun_induction lexFrom n before line bs with
  | case7 n before line b bs _ _ t rest found =>
    rw [found]
    nofun
  | case8 n before line b bs _ _ found =>
    rw [found]
    nofun
  | _ => first | assumption | nofun

/-- Whether source leaves nothing open: a parenthesis after it is a token of its own. -/
def Closed (bs : Bytes) : Prop :=
  ∃ ts, (lex bs).map (·.token) = ts ++ [.done] ∧
    (lex (bs ++ [0x29])).map (·.token) = ts ++ [.symbol ")", .done]

/-- Source that leaves nothing open is read the same in front of a parenthesis, after which the
rest is read. -/
theorem lexFrom_closed {n before line : Nat} {bs more : Bytes} {ts : List Token}
    (read : (lexFrom n before line bs).map (·.token) = ts ++ [.done])
    (closed : (lexFrom (n + 1) before line (bs ++ [0x29])).map (·.token) =
      ts ++ [.symbol ")", .done]) (k : Nat) :
    ∃ us l b j, k ≤ j ∧ lexFrom n before line bs = us ++ [⟨.done, l, b⟩] ∧
      lexFrom (n + k) before line (bs ++ 0x29 :: more) =
        us ++ ⟨.symbol ")", l, b⟩ :: lexFrom j l l more := by
  fun_induction lexFrom n before line bs generalizing ts with
  | case1 before line bs =>
    match ts with
    | [] => cases read
    | _ :: ts => cases ts <;> cases read
  | case2 n before line =>
    match ts with
    | [] => exact ⟨[], line, before, n + k, by omega, rfl, by rw [Nat.succ_add]; rfl⟩
    | _ :: ts => cases ts <;> cases read
  | case3 before line n b bs ends ih =>
    rw [List.cons_append, lexFrom_lineEnd ends, ← List.cons_append, dropLineEnd_before] at closed
    obtain ⟨us, l, b', j, more_left, first, second⟩ := ih read closed
    refine ⟨us, l, b', j, more_left, first, ?_⟩
    rw [List.cons_append, Nat.succ_add, lexFrom_lineEnd ends, ← List.cons_append,
      dropLineEnd_before, second]
  | case4 n before line b bs inline blank ih =>
    rw [List.cons_append, lexFrom_space inline blank] at closed
    obtain ⟨us, l, b', j, more_left, first, second⟩ := ih read closed
    refine ⟨us, l, b', j, more_left, first, ?_⟩
    rw [List.cons_append, Nat.succ_add, lexFrom_space inline blank, second]
  | case5 n before line r rest skipped _ _ ih =>
    have ends : skipComment (r ++ [0x29]) ≠ some [] := by
      intro ends
      rw [List.cons_append, List.cons_append, lexFrom_comment ends] at closed
      cases ts with
      | nil => cases closed
      | cons _ ts => cases ts <;> cases closed
    rw [List.cons_append, List.cons_append,
      lexFrom_comment (skipComment_before [] skipped ends), passedEnds_append] at closed
    obtain ⟨us, l, b', j, more_left, first, second⟩ := ih read closed
    refine ⟨us, l, b', j, more_left, first, ?_⟩
    rw [List.cons_append, List.cons_append, Nat.succ_add,
      lexFrom_comment (skipComment_before more skipped ends), passedEnds_append, second]
  | case6 n before line r skipped =>
    match ts with
    | [] => cases read
    | _ :: ts => cases ts <;> cases read
  | case7 n before line b bs inline solid t rest found l apart =>
    rename_i ih
    have solid : Bytes.isSpace b = false := by simpa using solid
    have apart' (z : Bytes) : ∀ r, b = 0x2D → bs ++ 0x29 :: z = 0x2D :: r → False := by
      rintro r rfl same
      cases bs with
      | nil => cases same
      | cons c bs =>
        cases same
        exact apart _ rfl rfl
    simp only [found, List.map_cons] at read
    rw [List.cons_append, lexFrom_token solid (apart' []) (readToken_before [] found),
      endLine_append, List.map_cons] at closed
    match ts with
    | [] => exact absurd (List.map_eq_nil_iff.1 (List.cons.inj read).2) (lexFrom_ne_nil _ _ _ _)
    | t' :: ts =>
      obtain ⟨-, read⟩ := List.cons.inj read
      obtain ⟨-, closed⟩ := List.cons.inj closed
      obtain ⟨us, l', b', j, more_left, first, second⟩ := ih read closed
      refine ⟨⟨t, endLine t line bs rest, before⟩ :: us, l', b', j, more_left, ?_, ?_⟩
      · simp only [found]
        exact congrArg _ first
      · rw [List.cons_append, Nat.succ_add, lexFrom_token solid (apart' more)
          (readToken_before more found), endLine_append]
        exact congrArg _ second
  | case8 n before line b bs inline solid found apart =>
    simp only [found] at read
    match ts with
    | [] => cases read
    | _ :: ts => cases ts <;> cases read

end Token

end Tasklang.Lua
