import Tasklang.Proofs.Quoting
import Tasklang.Proofs.Numerals
import Tasklang.Proofs.Shortest

/-! # Numbers in source

A double in data is written with the fewest digits that read back, with a point or an exponent or
both. Source reads numerals on its own: digits, an optional fraction and an optional exponent give
a double, digits alone an integer while they fit. What is written for a double is one numeral of
source, whatever follows apart from it, and it is read as that double without its sign.
-/

namespace Tasklang.Lua

open Bytes

namespace Numeral

/-- Whether bytes are decimal digits. -/
def Digits (bs : Bytes) : Prop := ∀ b ∈ bs, isDigit b = true

/-- The double of digits and a power of ten. -/
def double (digits : Nat) (e : Int) : Number :=
  .float (.ofFloat (Tasklang.Number.ofDecimal digits e))

section Reading

variable {ds fs tail : Bytes}

theorem spanDigits_append (digits : Digits ds) (rest : Bytes)
    (stops : ∀ b ∈ rest.head?, isDigit b = false) : spanDigits (ds ++ rest) = (ds, rest) := by
  induction ds with
  | nil =>
    cases rest with
    | nil => rfl
    | cons b rest => simp [spanDigits, stops b rfl]
  | cons d ds ih =>
    obtain ⟨digit, others⟩ := List.forall_mem_cons.1 digits
    have := ih others
    simp only [spanDigits, Prod.mk.injEq] at this
    simp [spanDigits, digit, this]

variable (digits : Digits ds) (some_ : ds ≠ [])

include digits some_

/-- Digits alone are an integer while they fit. -/
theorem decimal?_whole : decimal? ds =
    if decimalValue ds < Nat.pow 2 63 then some (.int (Int64.ofNat (decimalValue ds)))
    else some (double (decimalValue ds) 0) := by
  have split := spanDigits_append digits [] nofun
  rw [List.append_nil] at split
  unfold decimal?
  simp only [split]
  simp [some_, double]

/-- Digits with a fraction. -/
theorem decimal?_fraction (fraction : Digits fs) : decimal? (ds ++ 0x2E :: fs) =
    some (double (decimalValue (ds ++ fs)) (-fs.length)) := by
  have split := spanDigits_append digits (0x2E :: fs) (by simp; decide)
  have split' := spanDigits_append fraction [] nofun
  rw [List.append_nil] at split'
  unfold decimal?
  simp only [split, split']
  simp [some_, double]

/-- Digits with an exponent. -/
theorem decimal?_power {e : Int} (power : exponent? tail = some (e, [])) :
    decimal? (ds ++ 0x65 :: tail) = some (double (decimalValue ds) e) := by
  have split := spanDigits_append digits (0x65 :: tail) (by simp; decide)
  unfold decimal?
  simp only [split]
  simp [some_, double, power]

/-- Digits with a fraction and an exponent. -/
theorem decimal?_both (fraction : Digits fs) {e : Int} (power : exponent? tail = some (e, [])) :
    decimal? (ds ++ 0x2E :: (fs ++ 0x65 :: tail)) =
      some (double (decimalValue (ds ++ fs)) (e - fs.length)) := by
  have split := spanDigits_append digits (0x2E :: (fs ++ 0x65 :: tail)) (by simp; decide)
  have split' := spanDigits_append fraction (0x65 :: tail) (by simp; decide)
  unfold decimal?
  simp only [split, split']
  simp [some_, double, power]

end Reading

/-! ## Digits as characters -/

section Characters

variable {cs : List Char}

theorem digit_bounds {c : Char} (digit : c.isDigit = true) : 48 ≤ c.toNat ∧ c.toNat ≤ 57 := by
  rwa [Char.isDigit, Bool.and_eq_true, decide_eq_true_iff, decide_eq_true_iff, ge_iff_le,
    UInt32.le_iff_toNat_le, UInt32.le_iff_toNat_le] at digit

theorem encoded_digit {c : Char} (digit : c.isDigit = true) :
    String.utf8EncodeChar c = [byte c] ∧ isDigit (byte c) = true ∧
      (byte c).toNat - 48 = c.toNat - '0'.toNat := by
  obtain ⟨low, high⟩ := digit_bounds digit
  have value : (byte c).toNat = c.toNat := toNat_ofNat (by omega)
  refine ⟨encoded_ascii (by omega), ?_, by rw [value]; rfl⟩
  simp only [isDigit, UInt8.le_iff_toNat_le, value]
  simp [low, high]

theorem ofChars_digits (digits : ∀ c ∈ cs, c.isDigit = true) : Digits (ofChars cs) ∧
    (ofChars cs).length = cs.length := by
  induction cs with
  | nil => exact ⟨nofun, rfl⟩
  | cons c cs ih =>
    obtain ⟨digit, others⟩ := List.forall_mem_cons.1 digits
    obtain ⟨encoded, is_, -⟩ := encoded_digit digit
    obtain ⟨rest, length⟩ := ih others
    rw [ofChars_cons, encoded]
    exact ⟨List.forall_mem_cons.2 ⟨is_, rest⟩, by simp [length]⟩

theorem decimalValue_ofChars (digits : ∀ c ∈ cs, c.isDigit = true) :
    decimalValue (ofChars cs) = Nat.ofDigitChars 10 cs 0 := by
  unfold decimalValue
  generalize 0 = acc
  induction cs generalizing acc with
  | nil => rfl
  | cons c cs ih =>
    obtain ⟨digit, others⟩ := List.forall_mem_cons.1 digits
    obtain ⟨encoded, -, value⟩ := encoded_digit digit
    rw [ofChars_cons, encoded, List.singleton_append, List.foldl_cons, value, ih others,
      Nat.ofDigitChars_cons, Nat.mul_comm]

theorem ofDigitChars_lt (digits : ∀ c ∈ cs, c.isDigit = true) :
    Nat.ofDigitChars 10 cs 0 < 10 ^ cs.length := by
  induction cs with
  | nil => simp
  | cons c cs ih =>
    obtain ⟨digit, others⟩ := List.forall_mem_cons.1 digits
    have small : 10 * 0 + (c.toNat - '0'.toNat) ≤ 9 := by
      have := (digit_bounds digit).2
      simp only [Char.reduceToNat]
      omega
    rw [Nat.ofDigitChars_cons, Nat.ofDigitChars_eq_ofDigitChars_zero, List.length_cons, pow_succ]
    have := ih others
    have := Nat.mul_le_mul_left (10 ^ cs.length) small
    omega

end Characters

theorem foldl_capped (ds : Bytes) (acc : Nat) :
    ds.foldl (fun acc d => min (acc * 10 + (d.toNat - 48)) 1000000) (min acc 1000000) =
      min (ds.foldl (fun acc d => acc * 10 + (d.toNat - 48)) acc) 1000000 := by
  induction ds generalizing acc with
  | nil => rfl
  | cons d ds ih =>
    have capped : min (min acc 1000000 * 10 + (d.toNat - 48)) 1000000 =
        min (acc * 10 + (d.toNat - 48)) 1000000 := by omega
    rw [List.foldl_cons, List.foldl_cons, capped, ih]

/-- An exponent is read after its letter. -/
theorem exponent?_text (e : Int) (small : e.natAbs < 1000000) :
    exponent? (ofChars (Tasklang.Number.exponentText e 1)) = some (e, []) := by
  let ds := ofChars (Tasklang.Number.digitChars e.natAbs)
  have digits := Json.digitChars_digit e.natAbs
  have some_ : Tasklang.Number.digitChars e.natAbs ≠ [] := Nat.toDigits_ne_nil
  obtain ⟨are, length⟩ := ofChars_digits digits
  have nonempty : ds.isEmpty = false := by
    rw [List.isEmpty_eq_false_iff, ← List.length_pos_iff, length]
    exact List.length_pos_iff.2 some_
  have padded : Tasklang.Number.padZeros 1 (Tasklang.Number.digitChars e.natAbs) =
      Tasklang.Number.digitChars e.natAbs := by
    have long : 1 - (Tasklang.Number.digitChars e.natAbs).length = 0 := by
      have := List.length_pos_iff.2 some_
      omega
    rw [Tasklang.Number.padZeros, long]
    rfl
  have value : ds.foldl (fun acc d => min (acc * 10 + (d.toNat - 48)) 1000000) 0 = e.natAbs := by
    have capped := foldl_capped ds 0
    have plain : decimalValue ds = e.natAbs :=
      (decimalValue_ofChars digits).trans Nat.ofDigitChars_ten_toDigits
    rw [decimalValue] at plain
    rw [plain] at capped
    exact capped.trans (by omega)
  have span : spanDigits ds = (ds, []) := by
    have := spanDigits_append are [] nofun
    rwa [List.append_nil] at this
  rw [Tasklang.Number.exponentText, padded, ofChars_cons]
  by_cases below : e < 0
  · rw [if_pos below]
    show exponent? (0x2D :: ds) = _
    simp only [exponent?, span, nonempty, value, Bool.false_eq_true, if_false, if_true,
      show -(e.natAbs : Int) = e by omega]
  · rw [if_neg below]
    show exponent? (0x2B :: ds) = _
    simp only [exponent?, span, nonempty, value, Bool.false_eq_true, if_false,
      show (e.natAbs : Int) = e by omega]

/-! ## The layouts of a double -/

open Tasklang.Number (digitChars padZeros pointed exponentText Decimal Readable)

/-- The digits of a decimal in data. -/
def layout (d : Decimal) : List Char :=
  let digits := digitChars d.digits
  let point := d.exponent + digits.length
  if 0 ≤ d.exponent ∧ point ≤ 16 then
    digits ++ List.replicate d.exponent.toNat '0' ++ ['.', '0']
  else if 0 < point ∧ point ≤ 16 then
    digits.take point.toNat ++ '.' :: digits.drop point.toNat
  else if -5 < point ∧ point ≤ 0 then
    '0' :: '.' :: List.replicate (-point).toNat '0' ++ digits
  else pointed digits ++ 'e' :: exponentText (point - 1) 1

/-- What is written for a double in data, without its sign. -/
def magnitude (x : Float) : List Char :=
  if x == 0.0 then ['0', '.', '0'] else layout (Tasklang.Number.shortest x)

theorem dataChars_eq (x : Float) : Tasklang.Number.dataChars x =
    (if Tasklang.Number.isNegative x then ['-'] else []) ++ magnitude x := by
  unfold Tasklang.Number.dataChars magnitude layout
  dsimp only
  split <;> rfl

/-- Whether the digits of a decimal are read as some decimal of the same value. -/
def ReadsAs (cs : List Char) (d : Decimal) : Prop :=
  ∃ d' : Decimal, d'.value = d.value ∧ d'.digits < 2 ^ 80 ∧
    decimal? (ofChars cs) = some (double d'.digits d'.exponent)

theorem ofChars_ne_nil {cs : List Char} (digits : ∀ c ∈ cs, c.isDigit = true) (some_ : cs ≠ []) :
    ofChars cs ≠ [] := by
  rw [← List.length_pos_iff, (ofChars_digits digits).2]
  exact List.length_pos_iff.2 some_

section Shapes

variable {whole fraction : List Char} (digits : ∀ c ∈ whole, c.isDigit = true) (some_ : whole ≠ [])
  (digits' : ∀ c ∈ fraction, c.isDigit = true)

include digits some_ digits'

theorem decimal?_pointed : decimal? (ofChars (whole ++ '.' :: fraction)) =
    some (double (Nat.ofDigitChars 10 (whole ++ fraction) 0) (-fraction.length)) := by
  have all : ∀ c ∈ whole ++ fraction, c.isDigit = true :=
    List.forall_mem_append.2 ⟨digits, digits'⟩
  have read := decimal?_fraction (ofChars_digits digits).1 (ofChars_ne_nil digits some_)
    (ofChars_digits digits').1
  rw [← ofChars_append, decimalValue_ofChars all, (ofChars_digits digits').2] at read
  rwa [ofChars_append, ofChars_cons]

theorem decimal?_scientific {e : Int} (small : e.natAbs < 1000000) :
    decimal? (ofChars (whole ++ '.' :: fraction ++ 'e' :: exponentText e 1)) =
      some (double (Nat.ofDigitChars 10 (whole ++ fraction) 0) (e - fraction.length)) := by
  have all : ∀ c ∈ whole ++ fraction, c.isDigit = true :=
    List.forall_mem_append.2 ⟨digits, digits'⟩
  have read := decimal?_both (ofChars_digits digits).1 (ofChars_ne_nil digits some_)
    (ofChars_digits digits').1 (exponent?_text e small)
  rw [← ofChars_append, decimalValue_ofChars all, (ofChars_digits digits').2] at read
  rw [List.append_assoc, List.cons_append, ofChars_append, ofChars_cons, ofChars_append,
    ofChars_cons]
  exact read

omit digits' in
theorem decimal?_powered {e : Int} (small : e.natAbs < 1000000) :
    decimal? (ofChars (whole ++ 'e' :: exponentText e 1)) =
      some (double (Nat.ofDigitChars 10 whole 0) e) := by
  have read := decimal?_power (ofChars_digits digits).1 (ofChars_ne_nil digits some_)
    (exponent?_text e small)
  rw [decimalValue_ofChars digits] at read
  rwa [ofChars_append, ofChars_cons]

end Shapes

theorem zeros_digits (n : Nat) : ∀ c ∈ List.replicate n '0', c.isDigit = true := by
  intro c there
  rw [List.eq_of_mem_replicate there]
  rfl

theorem ofDigitChars_digitChars (n : Nat) : Nat.ofDigitChars 10 (digitChars n) 0 = n :=
  Nat.ofDigitChars_ten_toDigits

/-- How many digits a number has tells its size. -/
theorem digits_length {n : Nat} (positive : 0 < n) :
    10 ^ ((digitChars n).length - 1) ≤ n ∧ n < 10 ^ (digitChars n).length := by
  have digits := Json.digitChars_digit n
  have value := ofDigitChars_digitChars n
  refine ⟨?_, ?_⟩
  · obtain ⟨c, cs, first, other⟩ := Json.head_digitChars positive
    have leading : 1 ≤ 10 * 0 + (c.toNat - '0'.toNat) := by
      have bounds := digit_bounds (digits c (by rw [first]; exact .head _))
      have : c.toNat ≠ '0'.toNat := fun same => other (Char.toNat_inj.1 same)
      simp only [Char.reduceToNat] at this ⊢
      omega
    rw [first, Nat.ofDigitChars_cons, Nat.ofDigitChars_eq_ofDigitChars_zero] at value
    rw [first, List.length_cons, Nat.add_sub_cancel]
    exact (Nat.le_mul_of_pos_right _ leading).trans ((Nat.le_add_right ..).trans_eq value)
  · have := ofDigitChars_lt digits
    rwa [value] at this

section Layouts

variable {x : Float} {d : Decimal} (readable : Readable x d)

include readable

/-- The decimal point of a double is not far away. -/
theorem point_bounds (proper : Tasklang.Number.Proper x) :
    -324 < d.exponent + (digitChars d.digits).length ∧
      d.exponent + (digitChars d.digits).length < 310 := by
  obtain ⟨low, high⟩ := digits_length (Nat.pos_of_ne_zero readable.some_)
  obtain ⟨above, below⟩ := readable.near.pos proper.canonical
  have some_ : 0 < (digitChars d.digits).length := List.length_pos_iff.2 Nat.toDigits_ne_nil
  have place : (0 : ℚ) < 10 ^ d.exponent := by positivity
  constructor
  · have : (10 : ℚ) ^ (-324 : ℤ) < 10 ^ (d.exponent + (digitChars d.digits).length) := by
      rw [zpow_add₀ (by norm_num), zpow_natCast, mul_comm]
      refine (Tasklang.Number.lt_least.trans_le above).trans ?_
      exact mul_lt_mul_of_pos_right (by exact_mod_cast high) place
    exact (zpow_lt_zpow_iff_right₀ (by norm_num)).mp this
  · have : (10 : ℚ) ^ (d.exponent + ((digitChars d.digits).length - 1 : ℕ)) < 10 ^ (309 : ℤ) := by
      rw [zpow_add₀ (by norm_num), zpow_natCast, mul_comm]
      refine (mul_le_mul_of_nonneg_right ?_ place.le).trans_lt
        (below.trans Tasklang.Number.greatest_lt)
      exact_mod_cast low
    have := (zpow_lt_zpow_iff_right₀ (by norm_num)).mp this
    omega

omit readable in
/-- A whole double is written with a zero after its point. -/
theorem reads_whole (whole : 0 ≤ d.exponent)
    (point : d.exponent + (digitChars d.digits).length ≤ 16) :
    ReadsAs (digitChars d.digits ++ List.replicate d.exponent.toNat '0' ++ ['.', '0']) d := by
  have digits := Json.digitChars_digit d.digits
  have all : ∀ c ∈ digitChars d.digits ++ List.replicate d.exponent.toNat '0', c.isDigit = true :=
    List.forall_mem_append.2 ⟨digits, zeros_digits _⟩
  have tail : ∀ c ∈ ['0'], c.isDigit = true := by simp
  have read := decimal?_pointed all (List.append_ne_nil_of_left_ne_nil Nat.toDigits_ne_nil _) tail
  have small := ofDigitChars_lt (List.forall_mem_append.2 ⟨all, tail⟩)
  have value : Nat.ofDigitChars 10
      (digitChars d.digits ++ List.replicate d.exponent.toNat '0' ++ ['0']) 0 =
        10 * (10 ^ d.exponent.toNat * d.digits) := by
    rw [Nat.ofDigitChars_append, Nat.ofDigitChars_append, ofDigitChars_digitChars,
      Nat.ofDigitChars_replicate_zero]
    rfl
  rw [value] at read small
  refine ⟨⟨_, -1⟩, ?_, lt_of_lt_of_le small ?_, read⟩
  · have power : (10 : ℚ) ^ d.exponent.toNat = 10 ^ d.exponent := by
      rw [← zpow_natCast, Int.toNat_of_nonneg whole]
    rw [Decimal.value, Decimal.value]
    push_cast
    rw [power, zpow_neg_one]
    ring
  · refine (Nat.pow_le_pow_right (by norm_num) (?_ : _ ≤ 17)).trans (by norm_num)
    simp only [List.length_append, List.length_replicate, List.length_singleton]
    omega

/-- A double with digits on both sides of its point. -/
theorem reads_inside (inside : 0 < d.exponent + (digitChars d.digits).length)
    (fraction : d.exponent < 0) :
    ReadsAs ((digitChars d.digits).take (d.exponent + (digitChars d.digits).length).toNat ++ '.' ::
      (digitChars d.digits).drop (d.exponent + (digitChars d.digits).length).toNat) d := by
  have digits := Json.digitChars_digit d.digits
  have some_ : 0 < (digitChars d.digits).length := List.length_pos_iff.2 Nat.toDigits_ne_nil
  refine ⟨d, rfl, readable.short, ?_⟩
  rw [decimal?_pointed (fun c there => digits c (List.mem_of_mem_take there)) ?_
    (fun c there => digits c (List.mem_of_mem_drop there)), List.take_append_drop,
    List.length_drop, ofDigitChars_digitChars]
  · congr 2
    omega
  · rw [← List.length_pos_iff, List.length_take]
    omega

/-- A double below one, with zeros after its point. -/
theorem reads_small (small : d.exponent + (digitChars d.digits).length ≤ 0) :
    ReadsAs ('0' :: '.' ::
      List.replicate (-(d.exponent + (digitChars d.digits).length)).toNat '0' ++
      digitChars d.digits) d := by
  have digits := Json.digitChars_digit d.digits
  have zero : ∀ c ∈ ['0'], c.isDigit = true := by simp
  have all := List.forall_mem_append.2
    ⟨zeros_digits (-(d.exponent + (digitChars d.digits).length)).toNat, digits⟩
  have read := decimal?_pointed zero nofun all
  have value : Nat.ofDigitChars 10 (['0'] ++ (List.replicate
      (-(d.exponent + (digitChars d.digits).length)).toNat '0' ++ digitChars d.digits)) 0 =
        d.digits := by
    rw [List.singleton_append, Nat.ofDigitChars_cons, Nat.ofDigitChars_append,
      Nat.ofDigitChars_replicate_zero]
    exact ofDigitChars_digitChars _
  refine ⟨d, rfl, readable.short, read.trans ?_⟩
  rw [value, List.length_append, List.length_replicate]
  congr 2
  omega

/-- A double that is written with an exponent. -/
theorem reads_power (proper : Tasklang.Number.Proper x) :
    ReadsAs (pointed (digitChars d.digits) ++ 'e' ::
      exponentText (d.exponent + (digitChars d.digits).length - 1) 1) d := by
  have digits := Json.digitChars_digit d.digits
  have value := ofDigitChars_digitChars d.digits
  have some_ : digitChars d.digits ≠ [] := Nat.toDigits_ne_nil
  obtain ⟨low, high⟩ := point_bounds readable proper
  have size : (d.exponent + (digitChars d.digits).length - 1).natAbs < 1000000 := by omega
  refine ⟨d, rfl, readable.short, ?_⟩
  generalize digitChars d.digits = cs at *
  match cs with
  | [] => exact absurd rfl some_
  | [c] =>
    refine (decimal?_powered digits nofun size).trans ?_
    rw [value]
    congr 2
    simp
  | c :: c' :: cs =>
    obtain ⟨digit, others⟩ := List.forall_mem_cons.1 digits
    refine (decimal?_scientific (List.forall_mem_singleton.2 digit) nofun others size).trans ?_
    rw [List.singleton_append, value]
    congr 2
    simp only [List.length_cons]
    omega

theorem layout_reads (proper : Tasklang.Number.Proper x) : ReadsAs (layout d) d := by
  unfold layout
  dsimp only
  split
  next whole => exact reads_whole whole.1 whole.2
  split
  next fraction inside => exact reads_inside readable inside.1 (by omega)
  split
  next small => exact reads_small readable small.2
  next power => exact reads_power readable proper

end Layouts

/-- What is written for a double in data is read as the double without its sign. -/
theorem decimal?_magnitude {x : Float} (finite : Tasklang.Number.isFinite x = true) :
    decimal? (ofChars (magnitude x)) = some (.float (Double.ofFloat x).abs) := by
  unfold magnitude
  rcases Tasklang.Number.proper_or_zero finite with proper | ⟨zero, plain, -⟩
  · have readable := Tasklang.Number.shortest_readable proper
    obtain ⟨d, same, short, read⟩ := layout_reads readable proper
    have readable' := readable.of_value same short
    rw [proper.ne_zero, if_neg Bool.false_ne_true, read, double,
      Tasklang.Number.ofDecimal_near proper.canonical readable'.some_ short readable'.near,
      Tasklang.Number.ofFloat_stored proper]
  · rw [zero, if_pos rfl, plain]
    rfl

end Numeral

namespace Token

open Numeral (Digits)

/-- Bytes that a decimal numeral takes: digits, points and exponents with a sign. -/
inductive Runs : Bytes → Prop
  | nil : Runs []
  | plain {b : UInt8} {bs : Bytes} : isDigit b = true ∨ b = 0x2E → Runs bs → Runs (b :: bs)
  | power {c : UInt8} {bs : Bytes} : c = 0x2B ∨ c = 0x2D → Runs bs → Runs (0x65 :: c :: bs)

namespace Runs

variable {bs bs' : Bytes}

theorem append (h : Runs bs) (h' : Runs bs') : Runs (bs ++ bs') := by
  induction h with
  | nil => exact h'
  | plain is_ _ ih => exact .plain is_ ih
  | power sign _ ih => exact .power sign ih

theorem digits (digits : Digits bs) : Runs bs := by
  induction bs with
  | nil => exact .nil
  | cons b bs ih =>
    obtain ⟨digit, others⟩ := List.forall_mem_cons.1 digits
    exact .plain (.inl digit) (ih others)

end Runs

/-- Whether what follows a number or a word does not go on with it. -/
def Parted (rest : Bytes) : Prop :=
  ∀ b ∈ rest.head?, b = 0x2C ∨ b = 0x7D ∨ b = 0x20 ∨ b = 0x5D

namespace Parted

theorem nothing : Parted [] := nofun

theorem comma (rest : Bytes) : Parted (0x2C :: rest) := by rintro b ⟨⟩; exact .inl rfl

theorem closing (rest : Bytes) : Parted (0x7D :: rest) := by rintro b ⟨⟩; exact .inr (.inl rfl)

theorem blank (rest : Bytes) : Parted (0x20 :: rest) := by
  rintro b ⟨⟩
  exact .inr (.inr (.inl rfl))

end Parted

theorem numeralRun_plain {b : UInt8} (plain : isDigit b = true ∨ b = 0x2E) (bs : Bytes) :
    numeralRun false (b :: bs) = also b (numeralRun false bs) := by
  have goes : continuesNumeral b = true := by
    rcases plain with digit | rfl
    · simp [continuesNumeral, continuesName, digit]
    · rfl
  have apart : ¬StartsExponent false b := by
    rintro (rfl | rfl) <;> rcases plain with digit | is_ <;> first | cases digit | cases is_
  cases bs with
  | nil => rw [numeralRun_singleton, if_neg apart, if_pos goes]; rfl
  | cons c cs => rw [numeralRun_cons_cons, if_neg apart, if_pos goes]

/-- A numeral takes its own bytes. -/
theorem numeralRun_runs {bs rest : Bytes} (runs : Runs bs) (parted : Parted rest) :
    numeralRun false (bs ++ rest) = (bs, rest) := by
  induction runs with
  | nil =>
    cases rest with
    | nil => rfl
    | cons b rest =>
      rcases parted b rfl with rfl | rfl | rfl | rfl <;> cases rest <;> rfl
  | plain is_ _ ih => rw [List.cons_append, numeralRun_plain is_, ih]; rfl
  | power sign _ ih =>
    rw [List.cons_append, List.cons_append, numeralRun_cons_cons, if_pos (.inl rfl), if_pos sign,
      ih]
    rfl

/-- Such bytes start with no mark of a hexadecimal numeral. -/
theorem Runs.unmarked {bs : Bytes} (runs : Runs bs) (some_ : bs ≠ []) (rest : Bytes)
    (parted : Parted rest) : ∀ x r, bs ++ rest = 0x30 :: x :: r → x ≠ 0x78 ∧ x ≠ 0x58 := by
  intro x r same
  cases runs with
  | nil => exact absurd rfl some_
  | plain _ others =>
    have same := (List.cons.inj same).2
    cases others with
    | nil =>
      replace same : rest = x :: r := same
      rcases parted x (by rw [same]; rfl) with rfl | rfl | rfl | rfl <;> decide
    | plain is_ _ =>
      obtain rfl := (List.cons.inj same).1
      constructor <;> rintro rfl <;> rcases is_ with digit | is_ <;> first | cases digit | cases is_
    | power _ _ =>
      obtain rfl := (List.cons.inj same).1
      decide
  | power _ _ => cases same

/-- A numeral is one token, whatever follows apart from it. -/
theorem readNumeral_runs {bs rest : Bytes} (runs : Runs bs) (some_ : bs ≠ []) (parted : Parted rest)
    {n : Number} (read : Numeral.decimal? bs = some n) :
    readNumeral (bs ++ rest) = some (.number n, rest) := by
  have unmarked := runs.unmarked some_ rest parted
  have unmarked' := runs.unmarked some_ [] nofun
  rw [List.append_nil] at unmarked'
  have decimal : Numeral.unsigned? bs = some n := by
    rw [← read]
    unfold Numeral.unsigned?
    split
    · exact absurd rfl (unmarked' _ _ rfl).1
    · exact absurd rfl (unmarked' _ _ rfl).2
    · rfl
  unfold readNumeral
  dsimp only
  split
  next marked _ =>
    split at marked
    · next is_ => exact absurd rfl (unmarked _ _ is_).1
    · next is_ => exact absurd rfl (unmarked _ _ is_).2
    · cases marked
  next =>
    rw [numeralRun_runs runs parted]
    simp only [decimal]
    rfl

/-- Whether bytes are taken by a decimal numeral that starts with a digit. -/
structure Figures (bs : Bytes) : Prop where
  runs : Runs bs
  starts : ∃ b r, bs = b :: r ∧ isDigit b = true

theorem figures_digits {cs : List Char} (digits : ∀ c ∈ cs, c.isDigit = true) (some_ : cs ≠ []) :
    Figures (ofChars cs) := by
  have are := (Numeral.ofChars_digits digits).1
  obtain ⟨b, r, same⟩ := List.exists_cons_of_ne_nil (Numeral.ofChars_ne_nil digits some_)
  exact ⟨.digits are, b, r, same, are b (same ▸ .head _)⟩

theorem Figures.append {bs bs' : Bytes} (h : Figures bs) (runs : Runs bs') :
    Figures (bs ++ bs') := by
  obtain ⟨b, r, rfl, digit⟩ := h.starts
  exact ⟨h.runs.append runs, b, r ++ bs', rfl, digit⟩

theorem runs_fraction {cs : List Char} (digits : ∀ c ∈ cs, c.isDigit = true) :
    Runs (ofChars ('.' :: cs)) := by
  rw [ofChars_cons]
  exact .plain (.inr rfl) (.digits (Numeral.ofChars_digits digits).1)

theorem runs_power (e : Int) : Runs (ofChars ('e' :: Tasklang.Number.exponentText e 1)) := by
  have digits : ∀ c ∈ Tasklang.Number.padZeros 1 (Tasklang.Number.digitChars e.natAbs),
      c.isDigit = true :=
    List.forall_mem_append.2 ⟨Numeral.zeros_digits _, Json.digitChars_digit _⟩
  have figures := Runs.digits (Numeral.ofChars_digits digits).1
  rw [Tasklang.Number.exponentText, ofChars_cons, ofChars_cons]
  by_cases below : e < 0
  · rw [if_pos below]
    exact .power (.inr rfl) figures
  · rw [if_neg below]
    exact .power (.inl rfl) figures

theorem figures_layout (d : Tasklang.Number.Decimal) : Figures (ofChars (Numeral.layout d)) := by
  have digits := Json.digitChars_digit d.digits
  have some_ : Tasklang.Number.digitChars d.digits ≠ [] := Nat.toDigits_ne_nil
  have positive := List.length_pos_iff.2 some_
  unfold Numeral.layout
  dsimp only
  split
  · rw [ofChars_append, ofChars_append]
    have zero : ∀ c ∈ ['0'], c.isDigit = true := by simp
    refine ((figures_digits digits some_).append ?_).append (runs_fraction zero)
    exact .digits (Numeral.ofChars_digits (Numeral.zeros_digits _)).1
  split
  next inside =>
    rw [ofChars_append]
    refine (figures_digits (fun c there => digits c (List.mem_of_mem_take there)) ?_).append
      (runs_fraction fun c there => digits c (List.mem_of_mem_drop there))
    rw [← List.length_pos_iff, List.length_take]
    omega
  split
  · have all := List.forall_mem_append.2 ⟨Numeral.zeros_digits
      (-(d.exponent + (Tasklang.Number.digitChars d.digits).length)).toNat, digits⟩
    rw [List.cons_append, List.cons_append, ← List.singleton_append, ofChars_append]
    have zero : ∀ c ∈ ['0'], c.isDigit = true := by simp
    exact (figures_digits zero nofun).append (runs_fraction all)
  · rw [ofChars_append]
    refine Figures.append ?_ (runs_power _)
    generalize Tasklang.Number.digitChars d.digits = cs at *
    match cs with
    | [] => exact absurd rfl some_
    | [c] => exact figures_digits digits some_
    | c :: c' :: cs =>
      obtain ⟨digit, others⟩ := List.forall_mem_cons.1 digits
      rw [Tasklang.Number.pointed, ← List.singleton_append, ofChars_append]
      · exact (figures_digits (List.forall_mem_singleton.2 digit) nofun).append
          (runs_fraction others)
      · nofun

theorem figures_magnitude (x : Float) : Figures (ofChars (Numeral.magnitude x)) := by
  unfold Numeral.magnitude
  split
  · have zero : ∀ c ∈ ['0'], c.isDigit = true := by simp
    exact (figures_digits zero nofun).append (runs_fraction zero)
  · exact figures_layout _

/-- A digit starts neither a name nor a blank. -/
theorem digit_solid {b : UInt8} (digit : isDigit b = true) :
    isSpace b = false ∧ startsName b = false := by
  simp only [isDigit, Bool.and_eq_true, decide_eq_true_iff, UInt8.le_iff_toNat_le] at digit
  replace digit : 48 ≤ b.toNat ∧ b.toNat ≤ 57 := digit
  simp only [isSpace, startsName, isLetter, Bool.or_eq_false_iff, Bool.and_eq_false_iff,
    beq_eq_false_iff_ne, decide_eq_false_iff_not, UInt8.le_iff_toNat_le, ne_eq,
    ← UInt8.toNat_inj]
  simp only [UInt8.reduceToNat]
  omega

/-- A numeral is one token, after which reading goes on. -/
theorem lexFrom_figures {bs rest : Bytes} (figures : Figures bs) (parted : Parted rest) {n : Number}
    (read : Numeral.decimal? bs = some n) (k before line : Nat) :
    lexFrom (k + 1) before line (bs ++ rest) =
      ⟨.number n, line, before⟩ :: lexFrom k line line rest := by
  obtain ⟨runs, b, r, rfl, digit⟩ := figures
  have token := readNumeral_runs runs nofun parted read
  obtain ⟨solid, other⟩ := digit_solid digit
  rw [List.cons_append] at token ⊢
  rw [lexFrom_token solid (fun _ is_ _ => absurd (is_ ▸ digit) (by decide))
    (by rw [readToken, if_neg (by simp [other]), if_pos digit, token])]
  rfl

end Token

end Tasklang.Lua
