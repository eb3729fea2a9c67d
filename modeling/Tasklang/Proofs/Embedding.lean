import Tasklang.Proofs.Lexing
import Tasklang.Proofs.Slices

/-! # Expressions in templates

The scan for the closing brace of a placeholder knows quotes, backslashes and braces, and nothing
else of the language. It goes through a token as the lexer does, so that an expression with balanced
braces is what its placeholder holds.
-/

namespace Tasklang.Template

open Bytes Lua.Token

section Scan

variable {depth i : Nat} {piece bs : Bytes} {t : Lua.Token} {ts : List Lua.Token}

theorem findClosing_inert (inert : ∀ b ∈ piece, Inert b) :
    findClosing none depth i (piece ++ bs) = findClosing none depth (i + piece.length) bs := by
  induction piece generalizing i with
  | nil => rfl
  | cons b piece ih =>
    obtain ⟨⟨quotes, opens, closes⟩, others⟩ := List.forall_mem_cons.1 inert
    have skips : findClosing none depth i (b :: (piece ++ bs)) =
        findClosing none depth (i + 1) (piece ++ bs) := by
      rw [findClosing.eq_def]
      simp only [if_neg quotes, if_neg opens, if_neg closes]
    rw [List.cons_append, skips, ih others, List.length_cons, Nat.add_assoc, Nat.add_comm 1]

/-- The scan leaves a string where the lexer does. -/
theorem findClosing_quoted {quote : UInt8} (quotes : IsQuote quote) (h : Quoted quote piece) :
    findClosing (some quote) depth i (piece ++ bs) =
      findClosing none depth (i + piece.length) bs := by
  have bare : quote ≠ 0x5C := by rcases quotes with rfl | rfl <;> decide
  induction h generalizing i with
  | close =>
    rw [List.singleton_append, findClosing.eq_def]
    simp only [if_neg bare, if_true]
    rfl
  | plain other backslash _ ih =>
    rw [List.cons_append, findClosing.eq_def]
    simp only [if_neg backslash, if_neg other, ih, List.length_cons, Nat.add_assoc, Nat.add_comm 1]
  | escape _ ih =>
    rw [List.cons_append, List.cons_append, findClosing.eq_def]
    simp only [if_true, ih, List.length_cons, Nat.add_assoc, Nat.add_comm 2]

/-- The scan goes through a token, and counts its brace if it is one. -/
theorem findClosing_spells (h : Spells piece t) {open_ : Nat}
    (within : braces depth (t :: ts) = some open_) : ∃ depth', braces depth' ts = some open_ ∧
    findClosing none depth i (piece ++ bs) = findClosing none depth' (i + piece.length) bs := by
  cases h with
  | inert _ inert opens closes =>
    rw [braces_cons opens closes] at within
    exact ⟨depth, within, findClosing_inert inert⟩
  | @str quote piece s quotes quoted =>
    refine ⟨depth, within, ?_⟩
    rw [List.cons_append, findClosing.eq_def]
    simp only [if_pos quotes, findClosing_quoted quotes quoted, List.length_cons, Nat.add_assoc,
      Nat.add_comm 1]
  | opening => exact ⟨depth + 1, within, rfl⟩
  | closing =>
    cases depth with
    | zero => cases within
    | succ depth => exact ⟨depth, within, rfl⟩

/-- The scan goes through source with its braces balanced. -/
theorem findClosing_splits (h : Splits piece ts) {open_ : Nat}
    (within : braces depth ts = some open_) :
    findClosing none depth i (piece ++ bs) = findClosing none open_ (i + piece.length) bs := by
  induction h generalizing depth i with
  | done =>
    cases within
    rfl
  | @blank b piece ts blank _ ih =>
    have inert : ∀ c ∈ [b], Inert c := by
      intro c there
      obtain rfl := List.mem_singleton.1 there
      by_contra bad
      rcases not_inert bad with rfl | rfl | rfl | rfl <;> cases blank
    rw [← List.singleton_append, List.append_assoc, findClosing_inert inert, ih within,
      List.length_append, Nat.add_assoc]
  | token _ _ short read _ ih =>
    obtain ⟨front, split, spells⟩ := readToken_spells short read
    obtain ⟨depth', later, passes⟩ := findClosing_spells spells within
    rw [split, List.append_assoc, passes, ih later, List.length_append, Nat.add_assoc]

end Scan

/-- Two beginnings of a text that take as many bytes are the same. -/
theorem eq_of_size {as bs cs ds : List Char} (same : as ++ cs = bs ++ ds)
    (long : size as = size bs) : as = bs := by
  have short {front back : List Char} (h : size (front ++ back) = size front) : back = [] := by
    rw [size_append] at h
    cases back with
    | nil => rfl
    | cons c back =>
      obtain ⟨b, tails, encoded, -⟩ := encoded_head c
      rw [size, size, ofChars_cons, encoded] at h
      simp at h
  rcases List.append_eq_append_iff.1 same with ⟨back, rfl, -⟩ | ⟨back, rfl, -⟩
  · rw [short long.symm, List.append_nil]
  · rw [short long, List.append_nil]

/-- The placeholder of an expression with balanced braces ends right after it. -/
theorem splitClosing_expression {e rest : List Char} {ts : List Lua.Token}
    (h : Splits (ofChars e) ts) (balanced : braces 0 ts = some 0) :
    splitClosing none 0 (e ++ '\x7d' :: rest) = some (e, rest) := by
  have closing : ofChars (e ++ '\x7d' :: rest) = ofChars e ++ 0x7D :: ofChars rest := by
    rw [ofChars_append]
    rfl
  have scan : findClosing none 0 0 (ofChars (e ++ '\x7d' :: rest)) = some (size e) := by
    rw [closing, findClosing_splits h balanced, Nat.zero_add]
    rfl
  have scan := (@findClosing_ofChars 0 0 none _ nofun).symm.trans scan
  obtain ⟨⟨inside, back⟩, found, long⟩ := Option.map_eq_some_iff.1 scan
  have long : size inside = size e := (Nat.zero_add _).symm.trans long
  have split := (splitClosing_eq_some.1 found).split
  obtain rfl : e = inside := eq_of_size split long.symm
  obtain ⟨-, rfl⟩ := List.cons.inj (List.append_cancel_left split)
  exact found

/-! ## Text around an expression -/

/-- Text in which no marker opens and that no backslash ends has none before a placeholder. -/
theorem clear_before {pre rest : List Char} (plain : ¬Marker.active.chars <:+: pre)
    (bare : pre.getLast? ≠ some '\\') : Clear pre (Marker.active.chars ++ rest) := by
  have apart (back : List Char) : ¬ '$' :: '\x7b' :: back <:+ pre := fun suffix =>
    plain ((List.prefix_append Marker.active.chars back).isInfix.trans suffix.isInfix)
  rintro back suffix some_ ⟨kind, after, is_⟩
  -- A marker that begins before the placeholder takes at most three characters of it all.
  cases kind with
  | active =>
    match back with
    | [c] => cases is_
    | c :: d :: back =>
      cases is_
      exact apart _ suffix
  | escaped =>
    match back with
    | [c] =>
      cases is_
      obtain ⟨front, rfl⟩ := suffix
      exact bare (by simp)
    | [c, d] => cases is_
    | c :: d :: f :: back =>
      cases is_
      exact apart _ ((List.suffix_cons _ _).trans suffix)

/-- Any expression survives being put in a template: when its tokens have their braces balanced, its
strings are short ones, and it has neither comments nor long brackets, then the placeholder in which
it stands is read as this expression, between the text before it and the segments after it. -/
theorem parse_embedded {pre e post : String} {ts : List Lua.Token} {segments : List Segment}
    (tokens : Splits (ofString e) ts) (balanced : braces 0 ts = some 0) (visible : ¬Blank e.toList)
    (plain : ¬Marker.active.chars <:+: pre.toList) (bare : pre.toList.getLast? ≠ some '\\')
    (others : parse post = .ok segments) :
    parse (pre ++ "$\x7b" ++ e ++ "\x7d" ++ post) =
      .ok (consText pre.toList (.expr (Text.trim e) :: segments)) := by
  have source : (pre ++ "$\x7b" ++ e ++ "\x7d" ++ post).toList =
      pre.toList ++ (Marker.active.chars ++ (e.toList ++ '\x7d' :: post.toList)) := by
    simp [Marker.chars]
  have clear : Clear pre.toList (Marker.active.chars ++ (e.toList ++ '\x7d' :: post.toList)) :=
    clear_before plain bare
  have some_ : Text.trimChars e.toList ≠ [] := fun empty => visible (trimChars_eq_nil.1 empty)
  obtain ⟨c, kept, trimmed⟩ := List.exists_cons_of_ne_nil some_
  rw [parse, source, parseFrom_clear clear (.inr ⟨.active, _, rfl⟩),
    parseFrom_some (nextMarker_here .active _), splitClosing_expression tokens balanced,
    parseMarker, trimmed]
  rw [parse] at others
  simp only [others, List.nil_append, List.append_nil, Text.trim, trimmed]

/-- An expression with nested braces, a brace and an escaped quote in a string, and a character of
two bytes. -/
theorem parse_embedded_table :
    parse ("a" ++ "$\x7b" ++ " \x7bb = \x7b'\\'\x7dé'\x7d\x7d " ++ "\x7d" ++ "c") =
      .ok [.text "a", .expr "\x7bb = \x7b'\\'\x7dé'\x7d\x7d", .text "c"] := by
  have bytes : ofString " \x7bb = \x7b'\\'\x7dé'\x7d\x7d " = [0x20, 0x7B, 0x62, 0x20, 0x3D, 0x20,
      0x7B, 0x27, 0x5C, 0x27, 0x7D, 0xC3, 0xA9, 0x27, 0x7D, 0x7D, 0x20] := by
    decide +kernel
  have tokens : Splits (ofString " \x7bb = \x7b'\\'\x7dé'\x7d\x7d ") [.symbol "\x7b", .name "b",
      .symbol "=", .symbol "\x7b", .str [0x27, 0x7D, 0xC3, 0xA9], .symbol "\x7d",
      .symbol "\x7d"] := by
    rw [bytes]
    exact .blank rfl <| .token rfl (by decide) (by decide) rfl <|
      .token rfl (by decide) (by decide) rfl <| .blank rfl <|
      .token rfl (by decide) (by decide) rfl <| .blank rfl <|
      .token rfl (by decide) (by decide) rfl <| .token rfl (by decide) (by decide) rfl <|
      .token rfl (by decide) (by decide) rfl <| .token rfl (by decide) (by decide) rfl <|
      .blank rfl .done
  have segments : consText "a".toList
      [.expr (Text.trim " \x7bb = \x7b'\\'\x7dé'\x7d\x7d "), .text "c"] =
      [.text "a", .expr "\x7bb = \x7b'\\'\x7dé'\x7d\x7d", .text "c"] := by
    decide +kernel
  have visible : ¬Blank " \x7bb = \x7b'\\'\x7dé'\x7d\x7d ".toList := fun blank =>
    absurd (blank 'b' (by simp)) (by decide)
  have plain : ¬Marker.active.chars <:+: "a".toList := by decide +kernel
  have post : parse "c" = .ok [.text "c"] := by cbv
  rw [parse_embedded tokens rfl visible plain (by decide +kernel) post, segments]

end Tasklang.Template
