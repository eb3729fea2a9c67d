import Tasklang.Program.Literal
import Tasklang.Proofs.Notation
import Tasklang.Proofs.Pieces
import Tasklang.Proofs.Rendering

/-! # Constants in source

A known value is written as source: numbers and texts as literals, sequences and mappings as table
constructors. That source is read as one expression, which depends on the value alone, as long as it
nests no deeper and takes no more places than a chunk may.
-/

namespace Tasklang.Lua

open Token

namespace Parser

variable {room n : Nat} {c : Context} {ts : List Token} {us : List Lexeme} {e : Expr}

/-- Whether what stands there goes on with no operand. -/
def Stops (us : List Lexeme) : Prop := ∃ t ts, us = ⟨t, 1, 1⟩ :: ts ∧ infix? t = none

theorem operators_stops (stops : Stops us) (c : Context) (limit : Nat) (left : Expr) :
    operators (n + 1) c limit left us = .ok (left, us) := by
  obtain ⟨t, ts, rfl, none_⟩ := stops
  rw [operators]
  simp only [none_]

/-- Whether tokens are read as an expression that nests so many levels deep. -/
def Reads (room : Nat) (ts : List Token) (e : Expr) : Prop :=
  ∀ n c limit us, 8 * ts.length ≤ n → room ≤ c.room → Stops us →
    expr n c limit (Token.firstLine ts ++ us) = .ok (e, us)

theorem Reads.mono {more : Nat} (read : Reads room ts e) (le : room ≤ more) : Reads more ts e :=
  fun n c limit us enough levels => read n c limit us enough (Nat.le_trans le levels)

theorem Reads.operand {t : Token} (regular : t ≠ .malformed) (apart : unary? t = none)
    (read : ∀ n c us, 8 * ts.length ≤ n → room ≤ c.room → Stops us →
      simple (n + 6) c (⟨t, 1, 1⟩ :: Token.firstLine ts ++ us) = .ok (e, us)) :
    Reads (room + 1) (t :: ts) e := by
  intro n c limit us enough levels stops
  rw [List.length_cons] at enough
  obtain ⟨n, rfl⟩ := Nat.exists_eq_add_of_le' (show 8 ≤ n by omega)
  obtain ⟨r, some_⟩ := Nat.exists_eq_add_of_le' (Nat.le_trans (Nat.le_add_left 1 room) levels)
  have inside := read (n + 1) { c with room := r } us (by omega) (by simp only; omega) stops
  exact (expr_operand regular apart some_ inside).trans (operators_stops stops _ _ _)

theorem Reads.single {t : Token} (regular : t ≠ .malformed) (apart : unary? t = none)
    (read : ∀ n c us, simple (n + 1) c (⟨t, 1, 1⟩ :: us) = .ok (e, us)) : Reads 1 [t] e :=
  .operand regular apart fun n c us _ _ _ => read (n + 5) c us

/-- A number as an expression. -/
def numberExpr : Number → Expr
  | .int n => .int n
  | .float x => .float x

theorem reads_number (x : Number) : Reads 1 [.number x] (numberExpr x) :=
  .single nofun rfl fun n c us => by cases x <;> rfl

/-- A minus in front of an expression. -/
theorem Reads.negative (read : Reads room ts e) :
    Reads (room + 1) (.symbol "-" :: ts) (.unary 1 .neg e) := by
  intro n c limit us enough levels stops
  rw [List.length_cons] at enough
  obtain ⟨n, rfl⟩ := Nat.exists_eq_add_of_le' (show 8 ≤ n by omega)
  obtain ⟨r, some_⟩ := Nat.exists_eq_add_of_le' (Nat.le_trans (Nat.le_add_left 1 room) levels)
  have inside := read (n + 7) { c with room := r } unaryPower us (by omega) (by simp only; omega)
    stops
  have enters : c.enter (Token.firstLine (.symbol "-" :: ts) ++ us) = .ok { c with room := r } := by
    obtain ⟨_, _, _⟩ := c
    obtain rfl := some_
    rfl
  rw [expr, enters]
  show (expr (n + 7) { c with room := r } unaryPower (Token.firstLine ts ++ us) >>= _) = _
  rw [inside]
  exact operators_stops stops _ _ _

/-! ## Tables -/

/-- Whether tokens are read as a part of a table. -/
structure ReadsField (room : Nat) (ts : List Token) (f : Field) : Prop where
  read : ∀ n c us, 8 * ts.length + 1 ≤ n → room ≤ c.room → Stops us →
    field n c (Token.firstLine ts ++ us) = .ok (f, us)
  opens : ts.head? ≠ some (.symbol "\x7d")
  some_ : ts ≠ []

/-- Whether a token starts the expression of a constant. -/
def startsConstant : Token → Bool
  | .number _ | .str _ | .keyword _ => true
  | .symbol s => s == "-" || s == "\x7b"
  | _ => false

theorem ReadsField.item (read : Reads room ts e) (starts : ts.head?.any startsConstant) :
    ReadsField room ts (.item e) := by
  match ts with
  | [] => cases starts
  | t :: ts =>
    replace starts : startsConstant t = true := starts
    refine ⟨fun n c us enough levels stops => ?_, ?_, nofun⟩
    · obtain ⟨n, rfl⟩ := Nat.exists_eq_add_of_le' (show 1 ≤ n by omega)
      have inside := read n c 0 us (by omega) levels stops
      rw [field, inside]
      · rfl
      · intro x l b l' b' us' same
        obtain rfl := (Lexeme.mk.inj (List.cons.inj same).1).1
        cases starts
      · intro l b us' same
        obtain rfl := (Lexeme.mk.inj (List.cons.inj same).1).1
        exact absurd starts (by decide)
    · intro same
      obtain rfl := Option.some.inj same
      exact absurd starts (by decide)

/-- A key as tokens. -/
def keyTokens (key : String) : List Token :=
  if isIdentifier key then [.name key] else [.symbol "[", .str (Bytes.ofString key), .symbol "]"]

theorem ReadsField.entry (read : Reads room ts e) (some_ : 0 < room) (key : String) :
    ReadsField room (keyTokens key ++ .symbol "=" :: ts) (.entry (nameKey key) e) := by
  unfold keyTokens
  split
  · refine ⟨fun n c us enough levels stops => ?_, nofun, nofun⟩
    simp only [List.length_append, List.length_cons, List.length_nil] at enough
    obtain ⟨n, rfl⟩ := Nat.exists_eq_add_of_le' (show 1 ≤ n by omega)
    show (expr n c 0 (Token.firstLine ts ++ us) >>= _) = _
    rw [read n c 0 us (by omega) levels stops]
    rfl
  · refine ⟨fun n c us enough levels stops => ?_, fun same => ?_, nofun⟩
    swap
    · exact absurd (Token.symbol.inj (Option.some.inj same)) (by decide)
    simp only [List.length_append, List.length_cons, List.length_nil] at enough
    obtain ⟨n, rfl⟩ := Nat.exists_eq_add_of_le' (show 1 ≤ n by omega)
    have quoted : Reads 1 [.str (Bytes.ofString key)] (nameKey key) :=
      .single nofun rfl fun n c us => rfl
    have inside := quoted n c 0 (Token.firstLine (.symbol "]" :: .symbol "=" :: ts) ++ us)
      (by simp only [List.length_singleton]; omega) (by omega) ⟨.symbol "]", _, rfl, rfl⟩
    show (expr n c 0 (Token.firstLine [.str (Bytes.ofString key)] ++
      (Token.firstLine (.symbol "]" :: .symbol "=" :: ts) ++ us)) >>= _) = _
    rw [inside]
    show (expr n c 0 (Token.firstLine ts ++ us) >>= _) = _
    rw [read n c 0 us (by omega) levels stops]
    rfl

/-- Tokens of parts between commas. -/
def separated : List (List Token) → List Token
  | [] => []
  | [p] => p
  | p :: ps => p ++ .symbol "," :: separated ps

theorem separated_cons (p q : List Token) (ps : List (List Token)) :
    separated (p :: q :: ps) = p ++ .symbol "," :: separated (q :: ps) := rfl

/-- The tokens of a table. -/
def tableTokens (parts : List (List Token)) : List Token :=
  .symbol "\x7b" :: (separated parts ++ [.symbol "\x7d"])

theorem fields_separated {parts : List (List Token)} {fs : List Field}
    (read : List.Forall₂ (ReadsField room) parts fs)
    (enough : 8 * (separated parts).length + 2 ≤ n) (levels : room ≤ c.room) :
    fields n c (Token.firstLine (separated parts) ++ ⟨.symbol "\x7d", 1, 1⟩ :: us) =
      .ok (fs, us) := by
  induction read generalizing n with
  | nil =>
    obtain ⟨n, rfl⟩ := Nat.exists_eq_add_of_le' (show 1 ≤ n by omega)
    rfl
  | @cons p f ps fs part others ih =>
    obtain ⟨n, rfl⟩ := Nat.exists_eq_add_of_le' (show 1 ≤ n by omega)
    have apart (ts : List Lexeme) : ∀ l b us',
        Token.firstLine p ++ ts = ⟨.symbol "\x7d", l, b⟩ :: us' → False := by
      intro l b us' same
      cases p with
      | nil => exact part.some_ rfl
      | cons t p =>
        exact part.opens (congrArg some (Lexeme.mk.inj (List.cons.inj same).1).1)
    cases others with
    | nil =>
      rw [separated] at enough ⊢
      rw [fields, part.read n c _ (by omega) levels ⟨_, _, rfl, rfl⟩]
      · rfl
      · exact apart _
    | @cons p' f' ps fs part' others =>
      rw [separated_cons, List.length_append, List.length_cons] at enough
      have here := part.read n c (⟨.symbol ",", 1, 1⟩ ::
        (Token.firstLine (separated (p' :: ps)) ++ ⟨.symbol "\x7d", 1, 1⟩ :: us)) (by omega) levels
        ⟨_, _, rfl, rfl⟩
      rw [separated_cons, Token.firstLine_append, List.append_assoc]
      show fields (n + 1) c (Token.firstLine p ++ (⟨.symbol ",", 1, 1⟩ ::
        (Token.firstLine (separated (p' :: ps)) ++ ⟨.symbol "\x7d", 1, 1⟩ :: us))) = _
      rw [fields, here]
      · show (fields n c _ >>= _) = _
        rw [ih (by omega)]
        rfl
      · exact apart _

theorem reads_table {parts : List (List Token)} {fs : List Field}
    (read : List.Forall₂ (ReadsField room) parts fs) :
    Reads (room + 1) (tableTokens parts) (.table 1 fs) := by
  refine .operand nofun rfl fun n c us enough levels stops => ?_
  rw [List.length_append, List.length_singleton] at enough
  have inside : fields (n + 4) c _ = .ok (fs, us) := fields_separated read (by omega) levels
  obtain ⟨t, ts, rfl, -⟩ := stops
  show (fields (n + 4) c (Token.firstLine (separated parts ++ [.symbol "\x7d"]) ++ _) >>= _) = _
  rw [Token.firstLine_append, List.append_assoc]
  show (fields (n + 4) c (Token.firstLine (separated parts) ++ 
    (⟨.symbol "\x7d", 1, 1⟩ :: ⟨t, 1, 1⟩ :: ts)) >>= _) = _
  rw [inside]
  rfl
end Parser

end Tasklang.Lua

namespace Tasklang

open Lua Lua.Token Lua.Parser

namespace Lua.Numeral

/-- The number that digits of an integer are read as: one that fits is an integer. -/
def whole (n : Nat) : Number :=
  if n < Nat.pow 2 63 then .int (Int64.ofNat n) else double n 0

theorem decimal?_digits (n : Nat) :
    decimal? (Bytes.ofChars (Tasklang.Number.digitChars n)) = some (whole n) := by
  have digits := Json.digitChars_digit n
  have read := decimal?_whole (ofChars_digits digits).1
    (ofChars_ne_nil digits Nat.toDigits_ne_nil)
  rw [read, decimalValue_ofChars digits, ofDigitChars_digitChars, whole]
  split <;> rfl

end Lua.Numeral

namespace Json

/-- Whether a value is one that data can hold: integers fit a signed or an unsigned machine integer,
doubles are finite, sequences are no longer than positions go, and no mapping has a key twice. -/
def Constant : Json → Prop
  | .int n => leastInt ≤ n ∧ n ≤ greatestNat
  | .float x => Number.isFinite x
  | .arr items => items.length < 2 ^ 63
  | .obj entries => (entries.map (·.1)).Nodup
  | _ => True

end Json

namespace Literal

/-- A number with its sign as tokens. -/
def signedTokens (negative : Bool) (n : Lua.Number) : List Token :=
  if negative then [.symbol "-", .number n] else [.number n]

/-- A number with its sign as an expression. -/
def signedExpr (negative : Bool) (n : Lua.Number) : Expr :=
  if negative then .unary 1 .neg (numberExpr n) else numberExpr n

mutual

/-- The tokens of a known value. -/
def valueTokens : Json → List Token
  | .null => [.keyword "nil"]
  | .bool b => [.keyword (if b then "true" else "false")]
  | .int n => signedTokens (n < 0) (Numeral.whole n.natAbs)
  | .float x => signedTokens (Number.isNegative x) (.float (Double.ofFloat x).abs)
  | .str s => [.str (Bytes.ofString s)]
  | .arr items => tableTokens (itemTokens items)
  | .obj entries => tableTokens (entryTokens entries)

/-- The tokens of known values. -/
def itemTokens : List Json → List (List Token)
  | [] => []
  | v :: vs => valueTokens v :: itemTokens vs

/-- The tokens of known entries. -/
def entryTokens : List (String × Json) → List (List Token)
  | [] => []
  | (k, v) :: es => (keyTokens k ++ .symbol "=" :: valueTokens v) :: entryTokens es

end

mutual

/-- The expression of a known value. -/
def valueExpr : Json → Expr
  | .null => .nil
  | .bool b => .bool b
  | .int n => signedExpr (n < 0) (Numeral.whole n.natAbs)
  | .float x => signedExpr (Number.isNegative x) (.float (Double.ofFloat x).abs)
  | .str s => .str (Bytes.ofString s)
  | .arr items => .table 1 (itemFields items)
  | .obj entries => .table 1 (entryFields entries)

/-- Known values as the parts of a table. -/
def itemFields : List Json → List Field
  | [] => []
  | v :: vs => .item (valueExpr v) :: itemFields vs

/-- Known entries as the parts of a table. -/
def entryFields : List (String × Json) → List Field
  | [] => []
  | (k, v) :: es => .entry (nameKey k) (valueExpr v) :: entryFields es

end

mutual

/-- How many levels deep the source of a value nests. -/
def levels : Json → Nat
  | .int n => if n < 0 then 2 else 1
  | .float x => if Number.isNegative x then 2 else 1
  | .arr items => itemLevels items + 1
  | .obj entries => entryLevels entries + 1
  | _ => 1

/-- How many levels deep the sources of values nest. -/
def itemLevels : List Json → Nat
  | [] => 0
  | v :: vs => max (levels v) (itemLevels vs)

/-- How many levels deep the sources of entries nest. -/
def entryLevels : List (String × Json) → Nat
  | [] => 0
  | (_, v) :: es => max (levels v) (entryLevels es)

end

mutual

/-- How many places it takes to bring a value to one of them. -/
def places : Json → Nat
  | .arr items => itemPlaces 0 items + 1
  | .obj entries => entryPlaces entries + 1
  | _ => 1

/-- How many places the items of a table take, with so many that wait to be stored. -/
def itemPlaces (waiting : Nat) : List Json → Nat
  | [] => 0
  | v :: vs =>
    let waiting := if waiting = Binding.storeTogether then 0 else waiting
    max (waiting + places v) (itemPlaces (waiting + 1) vs)

/-- How many places the entries of a table take. -/
def entryPlaces : List (String × Json) → Nat
  | [] => 0
  | (_, v) :: es => max (places v + 1) (entryPlaces es)

end

/-! ## Tokens of constants -/

theorem lexes_separated {sources : List String} {parts : List (List Token)}
    (lexes : List.Forall₂ (fun s ts => Lexes Parted (Bytes.ofString s) ts) sources parts) :
    Lexes Parted (Bytes.ofString (", ".intercalate sources)) (separated parts) := by
  induction lexes with
  | nil => exact lexes_nil
  | @cons s p sources parts first others ih =>
    cases others with
    | nil =>
      rw [String.intercalate_singleton]
      exact first
    | cons second others =>
      rw [String.intercalate_cons_cons, Bytes.ofString_append, Bytes.ofString_append,
        List.append_assoc, separated_cons]
      exact first.append (lexes_comma.append ih fun _ _ => trivial) fun _ _ => .comma _

theorem lexes_tableSource {sources : List String} {parts : List (List Token)}
    (lexes : List.Forall₂ (fun s ts => Lexes Parted (Bytes.ofString s) ts) sources parts) :
    Lexes Parted (Bytes.ofString (tableSource sources)) (tableTokens parts) := by
  rw [tableSource, Bytes.ofString_append, Bytes.ofString_append]
  have inside := lexes_open.append (lexes_separated lexes) fun _ _ => trivial
  exact (inside.append lexes_close fun _ _ => .closing _).mono fun _ _ => trivial

theorem lexes_signed {negative : Bool} {bs : Bytes} {n : Lua.Number} (figures : Figures bs)
    (read : Numeral.decimal? bs = some n) :
    Lexes Parted ((if negative then [0x2D] else []) ++ bs) (signedTokens negative n) := by
  cases negative with
  | false => exact lexes_figures figures read
  | true => exact lexes_negative figures read

theorem ofString_ofList (cs : List Char) : Bytes.ofString (String.ofList cs) = Bytes.ofChars cs := by
  rw [Bytes.ofString, String.toList_ofList]

/-- The source of a number is its digits with a sign in front. -/
theorem valueSource_int (n : Int) : Bytes.ofString (valueSource (.int n)) =
    (if decide (n < 0) then [0x2D] else []) ++ Bytes.ofChars (Number.digitChars n.natAbs) := by
  show Bytes.ofString (String.ofList (Number.integerChars n)) = _
  rw [ofString_ofList, Number.integerChars]
  by_cases below : n < 0 <;> simp only [below, if_true, if_false, decide_true, decide_false] <;> rfl

theorem valueSource_float {x : Float} (finite : Number.isFinite x = true) :
    Bytes.ofString (valueSource (.float x)) = (if Number.isNegative x then [0x2D] else []) ++
      Bytes.ofChars (Numeral.magnitude x) := by
  show Bytes.ofString (String.ofList (Json.printFloat x)) = _
  rw [ofString_ofList, Json.printFloat, if_pos finite, Numeral.dataChars_eq, Bytes.ofChars_append]
  split <;> rfl

theorem lexes_keySource (key : String) (bs : Bytes) (ts : List Token)
    (lexes : Lexes Parted bs ts) :
    Lexes Parted (Bytes.ofString (keySource key) ++ (Bytes.ofString " = " ++ bs))
      (keyTokens key ++ .symbol "=" :: ts) := by
  have value := lexes_equals.append lexes fun _ _ => trivial
  unfold keySource keyTokens
  split
  next valid => exact (lexes_name valid).append value fun _ _ => .blank _
  next =>
    rw [Bytes.ofString_append, Bytes.ofString_append]
    exact (lexes_bracketed key).append value fun _ _ => trivial

mutual

theorem lexes_value {v : Json} (constant : v.Every Json.Constant) :
    Lexes Parted (Bytes.ofString (valueSource v)) (valueTokens v) := by
  cases v with
  | null => exact lexes_word (by rfl) (by decide) (by decide)
  | bool b => cases b <;> exact lexes_word (by rfl) (by decide) (by decide)
  | int n =>
    rw [valueSource_int]
    exact lexes_signed (figures_digits (Json.digitChars_digit n.natAbs) Nat.toDigits_ne_nil)
      (Numeral.decimal?_digits n.natAbs)
  | float x =>
    rw [valueSource_float constant]
    exact lexes_signed (figures_magnitude x) (Numeral.decimal?_magnitude constant)
  | str s => exact (lexes_quote s).mono fun _ _ => trivial
  | arr items => exact lexes_tableSource (lexes_items constant.2)
  | obj entries => exact lexes_tableSource (lexes_entries constant.2)

theorem lexes_items {items : List Json} (constant : Json.EveryItem Json.Constant items) :
    List.Forall₂ (fun s ts => Lexes Parted (Bytes.ofString s) ts) (valueSources items)
      (itemTokens items) := by
  cases items with
  | nil => exact .nil
  | cons v vs => exact .cons (lexes_value constant.1) (lexes_items constant.2)

theorem lexes_entries {entries : List (String × Json)}
    (constant : Json.EveryEntry Json.Constant entries) :
    List.Forall₂ (fun s ts => Lexes Parted (Bytes.ofString s) ts) (entrySources entries)
      (entryTokens entries) := by
  match entries with
  | [] => exact .nil
  | (k, v) :: es =>
    refine .cons ?_ (lexes_entries constant.2)
    rw [Bytes.ofString_append, Bytes.ofString_append, List.append_assoc]
    exact lexes_keySource k _ _ (lexes_value constant.1)

end

/-! ## No NUL in constants -/

section Clean

open Template

theorem nonzero_runs {bs : Bytes} (runs : Runs bs) : 0 ∉ bs := by
  induction runs with
  | nil => nofun
  | plain is_ _ ih =>
    rw [List.mem_cons, not_or]
    refine ⟨?_, ih⟩
    rintro rfl
    rcases is_ with digit | is_
    · cases digit
    · cases is_
  | power sign _ ih =>
    rw [List.mem_cons, List.mem_cons, not_or, not_or]
    refine ⟨by decide, ?_, ih⟩
    rintro rfl
    rcases sign with is_ | is_ <;> cases is_

/-- A NUL in a text is one in its bytes. -/
theorem has_of_bytes {s : String} (nonzero : 0 ∉ Bytes.ofString s) :
    Text.has '\x00' s = false := by
  rw [Text.has, ← Bool.not_eq_true, List.contains_iff_mem]
  exact fun there => nonzero (List.mem_flatMap.2 ⟨_, there, .head _⟩)

theorem has_figures {s : String} {negative : Bool} {bs : Bytes} (figures : Figures bs)
    (spelled : Bytes.ofString s = (if negative then [0x2D] else []) ++ bs) :
    Text.has '\x00' s = false := by
  refine has_of_bytes ?_
  rw [spelled, List.mem_append, not_or]
  refine ⟨?_, nonzero_runs figures.runs⟩
  cases negative <;> decide

theorem has_keySource (key : String) : Text.has '\x00' (keySource key) = false := by
  unfold keySource
  split
  next valid =>
    obtain ⟨c, cs, chars, starts, continues, -⟩ := isIdentifier_iff.1 valid
    rw [Text.has, chars, ← Bool.not_eq_true, List.contains_iff_mem, List.mem_cons, not_or]
    constructor
    · rintro rfl
      exact absurd starts (by decide)
    · exact fun there => absurd (List.all_eq_true.1 continues _ there) (by decide)
  next =>
    rw [has_append, has_append, has_quote]
    rfl

theorem has_tableSource {sources : List String}
    (each : ∀ s ∈ sources, Text.has '\x00' s = false) :
    Text.has '\x00' (tableSource sources) = false := by
  rw [tableSource, has_append, has_append, has_intercalate rfl each]
  rfl

mutual

theorem has_value {v : Json} (constant : v.Every Json.Constant) :
    Text.has '\x00' (valueSource v) = false := by
  cases v with
  | null => rfl
  | bool b => cases b <;> rfl
  | int n =>
    exact has_figures (figures_digits (Json.digitChars_digit _) Nat.toDigits_ne_nil)
      (valueSource_int n)
  | float x => exact has_figures (figures_magnitude x) (valueSource_float constant)
  | str s => exact has_quote s
  | arr items => exact has_tableSource (has_items constant.2)
  | obj entries => exact has_tableSource (has_entries constant.2)

theorem has_items {items : List Json} (constant : Json.EveryItem Json.Constant items) :
    ∀ s ∈ valueSources items, Text.has '\x00' s = false := by
  cases items with
  | nil => nofun
  | cons v vs => exact List.forall_mem_cons.2 ⟨has_value constant.1, has_items constant.2⟩

theorem has_entries {entries : List (String × Json)}
    (constant : Json.EveryEntry Json.Constant entries) :
    ∀ s ∈ entrySources entries, Text.has '\x00' s = false := by
  match entries with
  | [] => nofun
  | (k, v) :: es =>
    refine List.forall_mem_cons.2 ⟨?_, has_entries constant.2⟩
    rw [has_append, has_append, has_keySource, has_value constant.1]
    rfl

end

end Clean

/-! ## Constants as expressions -/

theorem reads_signed (negative : Bool) (n : Lua.Number) :
    Parser.Reads (if negative then 2 else 1) (signedTokens negative n) (signedExpr negative n) := by
  cases negative with
  | false => exact reads_number n
  | true => exact (reads_number n).negative

theorem startsConstant_value (v : Json) : (valueTokens v).head?.any startsConstant := by
  cases v with
  | int n | float x =>
    simp only [valueTokens, signedTokens]
    split <;> rfl
  | _ => rfl

theorem levels_pos (v : Json) : 0 < levels v := by
  unfold levels
  split <;> (try split) <;> omega

mutual

theorem reads_value (v : Json) : Parser.Reads (levels v) (valueTokens v) (valueExpr v) := by
  cases v with
  | null => exact .single nofun rfl fun n c us => rfl
  | bool b => cases b <;> exact .single nofun rfl fun n c us => rfl
  | int n =>
    have read := reads_signed (n < 0) (Numeral.whole n.natAbs)
    simp only [decide_eq_true_eq] at read
    exact read
  | float x => exact reads_signed _ _
  | str s => exact .single nofun rfl fun n c us => rfl
  | arr items => exact reads_table (reads_items (Nat.le_refl _))
  | obj entries => exact reads_table (reads_entries (Nat.le_refl _))

theorem reads_items {items : List Json} {room : Nat} (le : itemLevels items ≤ room) :
    List.Forall₂ (ReadsField room) (itemTokens items) (itemFields items) := by
  cases items with
  | nil => exact .nil
  | cons v vs =>
    rw [itemLevels, Nat.max_le] at le
    exact .cons (.item ((reads_value v).mono le.1) (startsConstant_value v)) (reads_items le.2)

theorem reads_entries {entries : List (String × Json)} {room : Nat}
    (le : entryLevels entries ≤ room) :
    List.Forall₂ (ReadsField room) (entryTokens entries) (entryFields entries) := by
  match entries with
  | [] => exact .nil
  | (k, v) :: es =>
    rw [entryLevels, Nat.max_le] at le
    exact .cons (.entry ((reads_value v).mono le.1) (Nat.lt_of_lt_of_le (levels_pos v) le.1) k)
      (reads_entries le.2)

end

/-! ## Places of constants -/

open Binding

theorem needs_signed (negative : Bool) (n : Lua.Number) (k : Nat) :
    Binding.expr chunkScopes k (signedExpr negative n) = .ok ⟨k + 1, []⟩ := by
  cases negative <;> cases n <;> rfl

mutual

theorem needs_value (v : Json) (k : Nat) : ∃ needs,
    Binding.expr chunkScopes k (valueExpr v) = .ok needs ∧ needs.Fits (k + places v) := by
  cases v with
  | arr items =>
    obtain ⟨needs, found, fits⟩ := needs_items items (k + 1) 0
    refine ⟨_, ?_, Needs.Fits.join (a := ⟨k + 1, []⟩) ⟨?_, .head _⟩ (fits.mono ?_)⟩
    · show (Binding.fields chunkScopes (k + 1) 0 (itemFields items) >>= _) = _
      rw [found]
      rfl
    · simp only [places]
      omega
    · simp only [places]
      omega
  | obj entries =>
    obtain ⟨needs, found, fits⟩ := needs_entries entries (k + 1)
    refine ⟨_, ?_, Needs.Fits.join (a := ⟨k + 1, []⟩) ⟨?_, .head _⟩ (fits.mono ?_)⟩
    · show (Binding.fields chunkScopes (k + 1) 0 (entryFields entries) >>= _) = _
      rw [found]
      rfl
    · simp only [places]
      omega
    · simp only [places]
      omega
  | int n | float x =>
    refine ⟨⟨k + 1, []⟩, ?_, Nat.le_refl _, .head _⟩
    exact needs_signed _ _ k
  | _ => exact ⟨⟨k + 1, []⟩, rfl, Nat.le_refl _, .head _⟩

theorem needs_items (items : List Json) (k waiting : Nat) : ∃ needs,
    Binding.fields chunkScopes k waiting (itemFields items) = .ok needs ∧
      needs.Fits (k + itemPlaces waiting items) := by
  cases items with
  | nil => exact ⟨{}, rfl, Nat.zero_le _, .head _⟩
  | cons v vs =>
    rw [itemPlaces]
    generalize waits : (if waiting = storeTogether then 0 else waiting) = now
    obtain ⟨needs, found, fits⟩ := needs_value v (k + now)
    obtain ⟨needs', found', fits'⟩ := needs_items vs k (now + 1)
    refine ⟨needs.join needs', ?_, (fits.mono ?_).join (fits'.mono ?_)⟩
    · rw [itemFields, Binding.fields]
      simp only [waits, found, found']
      rfl
    · omega
    · omega

theorem needs_entries (entries : List (String × Json)) (k : Nat) : ∃ needs,
    Binding.fields chunkScopes k 0 (entryFields entries) = .ok needs ∧
      needs.Fits (k + entryPlaces entries) := by
  match entries with
  | [] => exact ⟨{}, rfl, Nat.zero_le _, .head _⟩
  | (x, v) :: es =>
    obtain ⟨needs, found, fits⟩ := needs_value v (k + 1)
    obtain ⟨needs', found', fits'⟩ := needs_entries es k
    rw [entryPlaces]
    refine ⟨(Needs.join ⟨k + 1, []⟩ needs).join needs', ?_,
      (Needs.Fits.join ⟨?_, .head _⟩ (fits.mono ?_)).join (fits'.mono ?_)⟩
    · show (Binding.expr chunkScopes (k + 1) (valueExpr v) >>= _) = _
      rw [found]
      show (Binding.fields chunkScopes k 0 (entryFields es) >>= _) = _
      rw [found']
      rfl
    · simp only
      omega
    · omega
    · omega

end

/-- The source of a known value is compiled to its expression, when that nests no deeper and takes no
more places than it may. -/
theorem parse_value {v : Json} (constant : v.Every Json.Constant)
    (nests : levels v < Site.levelLimit - 1) (fits : places v ≤ placeLimit) :
    Chunk.parse 0 (returning (Bytes.ofString (valueSource v))) = .ok [.ret [valueExpr v]] := by
  obtain ⟨k, few, lexes⟩ := lexes_value constant
  generalize Bytes.ofString (valueSource v) = bs at few lexes ⊢
  obtain ⟨n, more⟩ := Nat.exists_eq_add_of_le (Nat.le_trans few (Nat.le_add_right bs.length 5))
  have tokens := lexes (n + 1) [] .nothing
  rw [List.append_nil, show n + 1 + k = bs.length + 6 by omega, lexFrom] at tokens
  obtain ⟨needs, found, fits'⟩ := needs_value v 0
  obtain ⟨goes, value⟩ : endsBlock (Token.firstLine (valueTokens v) ++ [⟨.done, 1, 1⟩]) = false ∧
      startsWith ";" (Token.firstLine (valueTokens v) ++ [⟨.done, 1, 1⟩]) = false := by
    cases v with
    | int n | float x =>
      simp only [valueTokens, signedTokens]
      split <;> exact ⟨rfl, rfl⟩
    | bool b => cases b <;> exact ⟨rfl, rfl⟩
    | _ => exact ⟨rfl, rfl⟩
  refine Template.parse_returning tokens goes value (l := 1) (b := 1) ?_
    ⟨needs, found, fits'.mono (by omega)⟩
  refine reads_value v _ _ 0 _ ?_ ?_ ⟨.done, [], rfl, rfl⟩
  · simp only [List.length_append, Token.firstLine, List.length_map, List.length_singleton]
    omega
  · simp only
    omega

end Literal

end Tasklang
