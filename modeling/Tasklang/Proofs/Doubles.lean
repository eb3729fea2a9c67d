import Tasklang.Number.Double
import Tasklang.Proofs.Nearest

/-! # Doubles and their parts

A finite double that is not zero is stored as its sign, its mantissa and its exponent. A decimal
that is near to such a double is read as the double without its sign.
-/

namespace Tasklang.Number

open Float.Model Float.Model.UnpackedFloat

/-! ## Doubles as they are stored -/

section Stored

variable {m : ℕ} {e : ℤ} (canonical : Canonical m e) (s : Sign)

/-- The exponent bits of a double. -/
def storedExponent (m : ℕ) (e : ℤ) : ℕ := if 2 ^ 52 ≤ m then (e + 1075).toNat else 0

include canonical

theorem storedExponent_lt : storedExponent m e < 2047 := by
  have := canonical.greatest
  unfold storedExponent
  split <;> omega

theorem pack_canonical : UnpackedFloat.pack .binary64 (.finite s m e canonical.positive) =
    packComponents .binary64 s (BitVec.ofNat _ (storedExponent m e)) (BitVec.ofNat _ m) := by
  have top : e + (Format.binary64.exponentBias : ℤ) + (52 : ℕ) = e + 1075 := by
    rw [show Format.binary64.exponentBias = 1023 from rfl]
    push_cast
    ring
  have within : ¬2 ^ 11 ≤ (e + 1075).toNat + 1 := by
    have := canonical.greatest
    omega
  unfold UnpackedFloat.pack storedExponent
  dsimp only
  rw [top, if_neg within, show Format.binary64.mantissaBits = 53 from rfl]
  by_cases normal : 2 ^ 52 ≤ m
  · have : m.log2 = 52 := by
      rw [Nat.log2_eq_iff canonical.positive.ne']
      exact ⟨normal, canonical.fits⟩
    rw [if_pos (by omega), if_pos normal]
  · have : m.log2 < 52 := (Nat.log2_lt canonical.positive.ne').mpr (by omega)
    rw [if_neg (by omega), if_neg normal]

theorem unpack_pack : UnpackedFloat.unpack .binary64
    (UnpackedFloat.pack .binary64 (.finite s m e canonical.positive)) =
      .finite s m e canonical.positive := by
  rw [pack_canonical canonical]
  have positive := canonical.positive
  have fits := canonical.fits
  have least := canonical.least
  have within := storedExponent_lt canonical
  have expected : (BitVec.ofNat 11 (storedExponent m e)).toNat = storedExponent m e := by
    rw [BitVec.toNat_ofNat, Nat.mod_eq_of_lt (by omega)]
  have finite_ : ¬BitVec.ofNat 11 (storedExponent m e) = -1#11 := by
    rw [← BitVec.toNat_inj, expected]
    exact within.ne
  have bias : (Format.binary64.exponentBias : ℤ) + (52 : ℕ) = 1075 := rfl
  simp only [UnpackedFloat.unpack, unpackExponent_packComponents, unpackMantissa_packComponents,
    unpackSign_packComponents, Sign.ofBitVec_toBitVec, if_neg finite_, expected, bias]
  by_cases normal : 2 ^ 52 ≤ m
  · have stored : storedExponent m e = (e + 1075).toNat := if_pos normal
    have nonzero : ¬BitVec.ofNat 11 (storedExponent m e) = 0#11 := by
      rw [← BitVec.toNat_inj, expected]
      change ¬_ = 0
      omega
    have mantissa : (1#1 ++ BitVec.ofNat 52 m).toNat = m := by
      have rest : (BitVec.ofNat 52 m).toNat = m - 2 ^ 52 := by
        rw [BitVec.toNat_ofNat]
        omega
      rw [BitVec.toNat_append, rest, BitVec.toNat_ofNat, Nat.shiftLeft_eq, Nat.mul_comm,
        ← Nat.two_pow_add_eq_or_of_lt (by omega)]
      omega
    simp only [if_neg nonzero, mantissa, UnpackedFloat.finite.injEq, true_and]
    omega
  · have stored : storedExponent m e = 0 := if_neg normal
    have mantissa : (BitVec.ofNat 52 m).toNat = m := by
      rw [BitVec.toNat_ofNat, Nat.mod_eq_of_lt (by omega)]
    have nonzero : ¬BitVec.ofNat 52 m = 0#52 := by
      rw [← BitVec.toNat_inj, mantissa]
      exact positive.ne'
    have : e = -1074 := canonical.normal.resolve_left normal
    simp only [stored, if_true, dif_neg nonzero, mantissa, UnpackedFloat.finite.injEq, true_and]
    omega

end Stored

/-! ## The parts of a double -/

/-- Whether a double is finite and not zero. -/
structure Proper (x : Float) : Prop where
  finite : isFinite x = true
  nonzero : (parts x).mantissa ≠ 0

section Parts

variable (x : Float)

/-- The stored bits of a double. -/
abbrev word (x : Float) : BitVec Format.binary64.numBits := x.toModel.toBits.toBitVec

/-- The sign of a double. -/
def signOf (x : Float) : Sign := .ofBitVec (unpackSign (word x))

theorem unpackExponent_word : (unpackExponent (word x)).toNat = exponentBits x := by
  rw [unpackExponent_def, BitVec.extractLsb'_toNat]
  simp [exponentBits, Float.toBits]

theorem unpackMantissa_word : (unpackMantissa (word x)).toNat = fractionBits x := by
  rw [unpackMantissa_def, BitVec.extractLsb'_toNat]
  simp [fractionBits, Float.toBits]

theorem fractionBits_lt : fractionBits x < 2 ^ 52 := Nat.mod_lt _ (by decide)

theorem exponentBits_lt : exponentBits x < 2048 := Nat.mod_lt _ (by decide)

variable {x} (proper : Proper x)

include proper

theorem Proper.canonical : Canonical (parts x).mantissa (parts x).exponent := by
  have short := fractionBits_lt x
  have small := exponentBits_lt x
  have finite := proper.finite
  have nonzero := proper.nonzero
  simp only [isFinite, bne_iff_ne] at finite
  unfold parts at nonzero ⊢
  dsimp only at nonzero ⊢
  split at nonzero
  next least =>
    rw [if_pos least]
    exact ⟨Nat.pos_of_ne_zero nonzero, by dsimp only; omega, le_refl _, by norm_num, .inr rfl⟩
  next normal =>
    rw [if_neg normal]
    constructor <;> dsimp only [Nat.pow_eq] <;> omega

theorem Proper.unpack : x.toModel.unpack =
    .finite (signOf x) (parts x).mantissa (parts x).exponent proper.canonical.positive := by
  have finite := proper.finite
  have nonzero := proper.nonzero
  simp only [isFinite, bne_iff_ne] at finite
  have ordinary : ¬unpackExponent (word x) = -1#11 := by
    rw [← BitVec.toNat_inj, unpackExponent_word]
    exact finite
  have bias : (Format.binary64.exponentBias : ℤ) + (52 : ℕ) = 1075 := rfl
  simp only [Float.Model.unpack, UnpackedFloat.unpack, if_neg ordinary, bias,
    unpackExponent_word]
  by_cases least : exponentBits x = 0
  · have lowest : unpackExponent (word x) = 0#11 := by
      rw [← BitVec.toNat_inj, unpackExponent_word]
      exact least
    have some_ : ¬unpackMantissa (word x) = 0#52 := by
      rw [← BitVec.toNat_inj, unpackMantissa_word]
      simpa [parts, least] using nonzero
    simp only [if_pos lowest, dif_neg some_, unpackMantissa_word, parts, least]
    rfl
  · have normal : ¬unpackExponent (word x) = 0#11 := by
      rw [← BitVec.toNat_inj, unpackExponent_word]
      exact least
    have leading : (1#1 ++ unpackMantissa (word x)).toNat = fractionBits x + 2 ^ 52 := by
      rw [BitVec.toNat_append, unpackMantissa_word, BitVec.toNat_ofNat, Nat.shiftLeft_eq,
        Nat.mul_comm, ← Nat.two_pow_add_eq_or_of_lt (fractionBits_lt x)]
      omega
    simp only [if_neg normal, leading, parts, if_neg least]
    rfl

/-- A proper double is what its parts are stored as. -/
theorem Proper.word_eq : word x = packComponents .binary64 (signOf x)
    (BitVec.ofNat _ (storedExponent (parts x).mantissa (parts x).exponent))
    (BitVec.ofNat _ (parts x).mantissa) := by
  rw [← pack_canonical proper.canonical, ← proper.unpack]
  exact (pack_unpack_of_valid x.toModel.valid).symm

end Parts

/-! ## Decimals as doubles -/

/-- The double that a mantissa and an exponent are stored as. -/
def stored {m : ℕ} {e : ℤ} (canonical : Canonical m e) : Float :=
  .ofModel (.pack (.finite .positive m e canonical.positive))

theorem reach_pos (m : ℕ) (e : ℤ) : 0 < reach m e := by
  unfold reach
  split <;> norm_num

theorem Near.refl (m : ℕ) (e : ℤ) : Near m e (m * 2 ^ e) := by
  have unit : (0 : ℚ) < 2 ^ e := by positivity
  have below := mul_lt_mul_of_pos_right (sub_lt_self (m : ℚ) (reach_pos m e)) unit
  have above := mul_lt_mul_of_pos_right (lt_add_of_pos_right (m : ℚ) one_half_pos) unit
  exact ⟨below.le, above.le, .inr ⟨below, above⟩⟩

/-- A natural number of at most fifty-three bits, moved up to all of them. -/
theorem canonical_shifted {d : ℕ} (some_ : d ≠ 0) (small : d < 2 ^ 53) :
    2 ^ 52 ≤ d <<< (52 - d.log2) ∧ Canonical (d <<< (52 - d.log2)) (-((52 - d.log2 : ℕ) : ℤ)) := by
  have bits : d.log2 < 53 := (Nat.log2_lt some_).mpr small
  have lower : 2 ^ 52 ≤ d <<< (52 - d.log2) := by
    rw [Nat.shiftLeft_eq]
    calc 2 ^ 52 = 2 ^ d.log2 * 2 ^ (52 - d.log2) := by rw [← pow_add]; congr 1; omega
      _ ≤ d * 2 ^ (52 - d.log2) := Nat.mul_le_mul_right _ (Nat.log2_self_le some_)
  have upper : d <<< (52 - d.log2) < 2 ^ 53 := by
    rw [Nat.shiftLeft_eq]
    calc d * 2 ^ (52 - d.log2) < 2 ^ (d.log2 + 1) * 2 ^ (52 - d.log2) :=
          Nat.mul_lt_mul_of_pos_right Nat.lt_log2_self (by positivity)
      _ = 2 ^ 53 := by rw [← pow_add]; congr 1; omega
  exact ⟨lower, by omega, upper, by omega, by omega, .inl lower⟩

theorem ofNat_small {d : ℕ} (some_ : d ≠ 0) (small : d < 2 ^ 53) :
    UnpackedFloat.ofNat .binary64 d =
      .finite .positive _ (-((52 - d.log2 : ℕ) : ℤ)) (canonical_shifted some_ small).2.positive := by
  obtain ⟨wide, canonical⟩ := canonical_shifted some_ small
  have bits : d.log2 < 53 := (Nat.log2_lt some_).mpr small
  have greater : compare (d : ℤ) 0 = .gt := by
    rw [compare_gt_iff_gt]
    omega
  have aim : target d 0 = -((52 - d.log2 : ℕ) : ℤ) := by
    rw [target_eq]
    omega
  have moved : decreaseExponent d 0 (target d 0) =
      (d <<< (52 - d.log2), -((52 - d.log2 : ℕ) : ℤ)) := by
    rw [aim, decreaseExponent]
    simp only [sub_neg_eq_add, zero_add, Int.toNat_natCast, zero_sub]
  have room : -((52 - d.log2 : ℕ) : ℤ) ≤ target (d <<< (52 - d.log2)) (-((52 - d.log2 : ℕ) : ℤ)) := by
    have := (Nat.le_log2 (canonical.positive.ne')).mpr wide
    rw [target_eq]
    omega
  simp only [UnpackedFloat.ofNat, UnpackedFloat.ofInt, UnpackedFloat.normalize, greater,
    UnpackedFloat.round, Int.toNat_natCast, moved]
  exact round_near (.whole _) room canonical (.refl _ _) .positive

/-- Such a number is exact as a double. -/
theorem toFloat_small {d : ℕ} (some_ : d ≠ 0) (small : d < 2 ^ 53) :
    ∃ (m : ℕ) (e : ℤ) (positive : 0 < m), 2 ^ 52 ≤ m ∧ (m : ℚ) * 2 ^ e = d ∧
      d.toUInt64.toFloat.toModel.unpack = .finite .positive m e positive := by
  obtain ⟨wide, canonical⟩ := canonical_shifted some_ small
  refine ⟨_, -((52 - d.log2 : ℕ) : ℤ), canonical.positive, wide, ?_, ?_⟩
  · rw [Nat.shiftLeft_eq, zpow_neg, zpow_natCast]
    push_cast
    field_simp
  have same : d.toUInt64.toNat = d := by
    simp
    omega
  change UnpackedFloat.unpack _ (UnpackedFloat.pack .binary64
    (UnpackedFloat.ofNat .binary64 d.toUInt64.toNat)) = _
  rw [same, ofNat_small some_ small]
  exact unpack_pack canonical .positive

/-- A power of ten that is exact as a double. -/
def exactPower (k : Fin 23) : Float :=
  have size : k.val < Float.exactlyRepresentablePowersOfTen.size := by
    simp [Float.exactlyRepresentablePowersOfTen]
  Float.exactlyRepresentablePowersOfTen[k.val]

theorem exactPower_unpack (k : Fin 23) : ∃ (m : ℕ) (e : ℤ) (positive : 0 < m),
    (m : ℚ) * 2 ^ e = 10 ^ k.val ∧
      (exactPower k).toModel.unpack = .finite .positive m e positive := by
  have table : ∀ k : Fin 23, isFinite (exactPower k) = true ∧
      (signOf (exactPower k) == .positive) = true ∧ -52 ≤ (parts (exactPower k)).exponent ∧
      (parts (exactPower k)).mantissa * 2 ^ ((parts (exactPower k)).exponent + 52).toNat =
        10 ^ k.val * 2 ^ 52 := by
    decide +kernel
  obtain ⟨finite, sign, least, value⟩ := table k
  have proper : Proper (exactPower k) := by
    refine ⟨finite, fun none_ => ?_⟩
    rw [none_, Nat.zero_mul] at value
    exact absurd value.symm (by positivity)
  refine ⟨_, (parts (exactPower k)).exponent, proper.canonical.positive, ?_, ?_⟩
  · have exact_ : ((parts (exactPower k)).mantissa : ℚ) *
        2 ^ ((parts (exactPower k)).exponent + 52) = 10 ^ k.val * 2 ^ 52 := by
      rw [← Int.toNat_of_nonneg (by omega : 0 ≤ (parts (exactPower k)).exponent + 52),
        zpow_natCast]
      exact_mod_cast value
    rw [zpow_add₀ two_ne_zero, ← mul_assoc] at exact_
    exact mul_right_cancel₀ (by positivity) exact_
  · rw [proper.unpack, eq_of_beq sign]

/-- A decimal is read as the double that it is near to. -/
theorem readDecimal_near {m : ℕ} {e : ℤ} (canonical : Canonical m e) {d : ℕ} {k : ℤ} (some_ : d ≠ 0)
    (small : k ≤ 2048) (large : -(2048 + d.log2) ≤ k) (near : Near m e (d * 10 ^ k)) (down : Bool)
    (size : ℕ) (exponent : k = if down then -(size : ℤ) else size) :
    Float.ofScientific d down size = stored canonical := by
  unfold Float.ofScientific
  split
  next fast =>
    obtain ⟨m₁, e₁, some₁, wide, value₁, unpack₁⟩ := toFloat_small some_ fast.1
    obtain ⟨m₂, e₂, some₂, value₂, unpack₂⟩ := exactPower_unpack ⟨size, by omega⟩
    cases down with
    | false =>
      change Float.ofModel (.pack (mul .binary64 d.toUInt64.toFloat.toModel.unpack (exactPower ⟨size, by omega⟩).toModel.unpack)) = _
      rw [unpack₁, unpack₂, mul_near _ _ canonical wide]
      · rfl
      · rw [value₁, value₂]
        simpa [exponent] using near
    | true =>
      change Float.ofModel (.pack (div .binary64 d.toUInt64.toFloat.toModel.unpack (exactPower ⟨size, by omega⟩).toModel.unpack)) = _
      rw [unpack₁, unpack₂, div_near _ _ canonical]
      · rfl
      · rw [value₁, value₂, div_eq_mul_inv]
        simpa [exponent] using near
  next slow =>
    have : (if down then Int.negOfNat size else Int.ofNat size) = k := by
      rw [exponent]
      cases down
      · rfl
      · exact Int.negOfNat_eq
    change Float.ofModel (.pack (UnpackedFloat.ofScientific .binary64 d (if down then Int.negOfNat size else Int.ofNat size))) = _
    rw [this, ofScientific_near canonical some_ small large near]
    rfl

theorem Near.pos {m : ℕ} {e : ℤ} (canonical : Canonical m e) {v : ℚ} (near : Near m e v) :
    2 ^ (-1075 : ℤ) ≤ v ∧ v < 2 ^ (1024 : ℤ) := by
  have one : (1 : ℚ) ≤ m := by exact_mod_cast canonical.positive
  have size : (m : ℚ) + 1 ≤ 2 ^ 53 := by exact_mod_cast canonical.fits
  constructor
  · refine le_trans ?_ near.low
    have : (1 / 2 : ℚ) ≤ m - reach m e := by
      unfold reach
      split <;> linarith
    calc (2 : ℚ) ^ (-1075 : ℤ) = 1 / 2 * 2 ^ (-1074 : ℤ) := by
          rw [show (-1075 : ℤ) = -1074 - 1 from rfl, zpow_sub_one₀ two_ne_zero]
          ring
      _ ≤ 1 / 2 * 2 ^ e := by
        exact mul_le_mul_of_nonneg_left (zpow_le_zpow_right₀ one_le_two canonical.least) (by norm_num)
      _ ≤ _ := mul_le_mul_of_nonneg_right this (by positivity)
  · refine near.high.trans_lt ?_
    calc ((m : ℚ) + 1 / 2) * 2 ^ e < 2 ^ 53 * 2 ^ e :=
          mul_lt_mul_of_pos_right (by linarith) (by positivity)
      _ ≤ 2 ^ 53 * 2 ^ (971 : ℤ) := by
        exact mul_le_mul_of_nonneg_left (zpow_le_zpow_right₀ one_le_two canonical.greatest) (by norm_num)
      _ = 2 ^ (1024 : ℤ) := by
        rw [show (1024 : ℤ) = (53 : ℕ) + 971 from rfl, zpow_add₀ two_ne_zero, zpow_natCast]

theorem greatest_lt : (2 : ℚ) ^ (1024 : ℤ) < 10 ^ (309 : ℤ) := by
  have : 2 ^ 1024 < 10 ^ 309 := by
    rw [show 1024 = 256 * 4 from rfl, show 309 = 103 * 3 from rfl, pow_mul, pow_mul]
    norm_num
  exact_mod_cast this

theorem lt_least : (10 : ℚ) ^ (-324 : ℤ) < 2 ^ (-1075 : ℤ) := by
  have : 2 ^ 1075 < 10 ^ 324 := by
    rw [show 1075 = 215 * 5 from rfl, show 324 = 108 * 3 from rfl, pow_mul, pow_mul]
    norm_num
  rw [zpow_neg, zpow_neg, inv_lt_inv₀ (by positivity) (by positivity)]
  exact_mod_cast this

/-- How many digits a number has, estimated from its bits. -/
theorem digits_estimate {d : ℕ} (some_ : d ≠ 0) (short : d < 2 ^ 80) :
    10 ^ (d.log2 * 30103 / 100000) ≤ d ∧ d < 10 ^ (d.log2 * 30103 / 100000 + 2) := by
  have bits : d.log2 < 80 := (Nat.log2_lt some_).mpr short
  have table : ∀ n : Fin 80, 10 ^ (n.val * 30103 / 100000) ≤ 2 ^ n.val ∧
      2 ^ (n.val + 1) ≤ 10 ^ (n.val * 30103 / 100000 + 2) := by decide
  obtain ⟨lower, upper⟩ := table ⟨d.log2, bits⟩
  exact ⟨lower.trans (Nat.log2_self_le some_), Nat.lt_log2_self.trans_le upper⟩

/-- A decimal with few digits is read as the double that it is near to. -/
theorem ofDecimal_near {m : ℕ} {e : ℤ} (canonical : Canonical m e) {d : ℕ} {k : ℤ}
    (some_ : d ≠ 0) (short : d < 2 ^ 80) (near : Near m e (d * 10 ^ k)) :
    ofDecimal d k = stored canonical := by
  obtain ⟨lower, upper⟩ := digits_estimate some_ short
  obtain ⟨above, below⟩ := near.pos canonical
  have high : ((d.log2 * 30103 / 100000 : ℕ) : ℤ) + k < 309 := by
    have : (10 : ℚ) ^ (((d.log2 * 30103 / 100000 : ℕ) : ℤ) + k) < 10 ^ (309 : ℤ) := by
      rw [zpow_add₀ (by norm_num), zpow_natCast]
      calc _ ≤ (d : ℚ) * 10 ^ k :=
            mul_le_mul_of_nonneg_right (by exact_mod_cast lower) (by positivity)
        _ < 2 ^ (1024 : ℤ) := below
        _ < 10 ^ (309 : ℤ) := greatest_lt
    exact (zpow_lt_zpow_iff_right₀ (by norm_num)).mp this
  have low : -326 < ((d.log2 * 30103 / 100000 : ℕ) : ℤ) + k := by
    have : (10 : ℚ) ^ (-324 : ℤ) < 10 ^ (((d.log2 * 30103 / 100000 + 2 : ℕ) : ℤ) + k) := by
      rw [zpow_add₀ (by norm_num), zpow_natCast]
      calc (10 : ℚ) ^ (-324 : ℤ) < 2 ^ (-1075 : ℤ) := lt_least
        _ ≤ d * 10 ^ k := above
        _ < _ := mul_lt_mul_of_pos_right (by exact_mod_cast upper) (by positivity)
    have := (zpow_lt_zpow_iff_right₀ (by norm_num)).mp this
    omega
  unfold ofDecimal
  dsimp only
  rw [if_neg some_, if_neg (by omega), if_neg (by omega)]
  cases k with
  | ofNat size => exact readDecimal_near canonical some_ (by omega) (by omega) near false size rfl
  | negSucc size =>
    exact readDecimal_near canonical some_ (by omega) (by omega) near true (size + 1) rfl

/-! ## Signs -/

section Signs

variable (s : Sign) (exponent : BitVec 11) (mantissa : BitVec 52)

theorem packComponents_and : packComponents .binary64 s exponent mantissa &&&
    (0#1 ++ BitVec.allOnes 11 ++ BitVec.allOnes 52) =
      packComponents .binary64 .positive exponent mantissa := by
  unfold packComponents
  rw [BitVec.and_append, BitVec.and_append, BitVec.and_allOnes, BitVec.and_allOnes]
  cases s <;> rfl

theorem packComponents_xor : packComponents .binary64 .positive exponent mantissa ^^^
    (1#1 ++ 0#11 ++ 0#52) = packComponents .binary64 .negative exponent mantissa := by
  unfold packComponents
  rw [BitVec.xor_append, BitVec.xor_append, BitVec.xor_zero, BitVec.xor_zero]
  rfl

end Signs

theorem unpackSign_word (x : Float) : (unpackSign (word x)).toNat = (x.toBits >>> 63).toNat := by
  have := x.toBits.toNat_lt
  rw [unpackSign_def, BitVec.extractLsb'_toNat, UInt64.toNat_shiftRight, Nat.mod_eq_of_lt]
  · rfl
  · simp only [Nat.shiftRight_eq_div_pow]
    change x.toBits.toNat / 2 ^ 63 < 2 ^ 1
    omega

theorem isNegative_iff (x : Float) : isNegative x = true ↔ signOf x = .negative := by
  rw [isNegative, beq_iff_eq, ← UInt64.toNat_inj, ← unpackSign_word, signOf]
  rcases (by decide : ∀ b : BitVec 1, b = 0#1 ∨ b = 1#1) (unpackSign (word x)) with bit | bit <;>
    rw [bit] <;> simp [Sign.ofBitVec]

theorem ofFloat_finite {x : Float} (finite : isFinite x = true) :
    Double.ofFloat x = ⟨x.toBits⟩ := by
  rw [isFinite, bne_iff_ne] at finite
  simp [Double.ofFloat, isNaN, finite]

section

variable {x : Float} (proper : Proper x)

theorem word_stored {m : ℕ} {e : ℤ} (canonical : Canonical m e) : word (stored canonical) =
    packComponents .binary64 .positive (BitVec.ofNat _ (storedExponent m e)) (BitVec.ofNat _ m) :=
  pack_canonical canonical .positive

theorem stored_finite {m : ℕ} {e : ℤ} (canonical : Canonical m e) :
    isFinite (stored canonical) = true := by
  have within := storedExponent_lt canonical
  rw [isFinite, bne_iff_ne, ← unpackExponent_word, word_stored canonical,
    unpackExponent_packComponents, BitVec.toNat_ofNat,
    Nat.mod_eq_of_lt (within.trans (by decide))]
  exact within.ne

/-- The double of a decimal near to `x` is `x` without its sign. -/
theorem ofFloat_stored (proper : Proper x) :
    Double.ofFloat (stored proper.canonical) = (Double.ofFloat x).abs := by
  rw [ofFloat_finite (stored_finite _), ofFloat_finite proper.finite, Double.abs]
  congr 1
  apply UInt64.toBitVec_inj.mp
  refine (word_stored proper.canonical).trans ?_
  rw [← packComponents_and (signOf x), ← proper.word_eq]
  rfl

theorem Proper.ofFloat_signed (proper : Proper x) : Double.ofFloat x =
    if isNegative x then (Double.ofFloat x).abs.neg else (Double.ofFloat x).abs := by
  rw [← ofFloat_stored proper, ofFloat_finite (stored_finite _), ofFloat_finite proper.finite]
  split
  next negative =>
    rw [Double.neg]
    congr 1
    apply UInt64.toBitVec_inj.mp
    refine proper.word_eq.trans ?_
    rw [(isNegative_iff x).mp negative, ← packComponents_xor]
    exact congrArg (· ^^^ _) (word_stored proper.canonical).symm
  next positive =>
    have sign : signOf x = .positive := by
      cases given : signOf x with
      | positive => rfl
      | negative => exact absurd ((isNegative_iff x).mpr given) positive
    congr 1
    apply UInt64.toBitVec_inj.mp
    refine proper.word_eq.trans ?_
    rw [sign]
    exact (word_stored proper.canonical).symm

end

/-! ## Zeros -/

theorem unpack_zero : (0.0 : Float).toModel.unpack = .zero .positive := rfl

theorem Proper.ne_zero {x : Float} (proper : Proper x) : (x == 0.0) = false := by
  show (x.toModel.unpack.compare (0.0 : Float).toModel.unpack == some Ordering.eq) = false
  rw [proper.unpack, unpack_zero]
  cases signOf x <;> rfl

/-- Without a mantissa there is a sign only. -/
theorem toBits_of_zero {x : Float} (zero : (parts x).mantissa = 0) :
    x.toBits = if isNegative x then 0x8000000000000000 else 0 := by
  have ⟨least, none_⟩ : exponentBits x = 0 ∧ fractionBits x = 0 := by
    unfold parts at zero
    dsimp only at zero
    split at zero
    next least => exact ⟨least, zero⟩
    next =>
      have : 0 < Nat.pow 2 52 := by decide
      dsimp only at zero
      omega
  have top := x.toBits.toNat_lt
  simp only [exponentBits, fractionBits, UInt64.toNat_shiftRight, Nat.shiftRight_eq_div_pow]
    at least none_
  replace least : x.toBits.toNat / 2 ^ 52 % 2048 = 0 := least
  replace none_ : x.toBits.toNat % 2 ^ 52 = 0 := none_
  have sign : isNegative x = decide (x.toBits.toNat / 2 ^ 63 = 1) := by
    rw [isNegative, Bool.eq_iff_iff, beq_iff_eq, ← UInt64.toNat_inj, UInt64.toNat_shiftRight,
      Nat.shiftRight_eq_div_pow, decide_eq_true_iff]
    rfl
  rw [sign, ← UInt64.toNat_inj]
  by_cases half : x.toBits.toNat / 2 ^ 63 = 1
  · rw [if_pos (decide_eq_true half)]
    show _ = 2 ^ 63
    omega
  · rw [if_neg (by simpa using half)]
    show _ = 0
    omega

/-- A finite double is proper or one of the two zeros. -/
theorem proper_or_zero {x : Float} (finite : isFinite x = true) :
    Proper x ∨ (x == 0.0) = true ∧ (Double.ofFloat x).abs = Double.ofFloat 0.0 ∧
      Double.ofFloat x = if isNegative x then (Double.ofFloat 0.0).neg else Double.ofFloat 0.0 := by
  by_cases zero : (parts x).mantissa = 0
  · have bits := toBits_of_zero zero
    have same : x = Float.ofBits (if isNegative x then 0x8000000000000000 else 0) := by
      rw [← bits, Float.ofBits_toBits]
    rw [ofFloat_finite finite, bits]
    refine .inr ⟨?_, ?_⟩
    · rw [same]
      split <;> decide +kernel
    · split <;> decide +kernel
  · exact .inl ⟨finite, zero⟩

/-- A finite double is its absolute value with its sign. -/
theorem ofFloat_signed {x : Float} (finite : isFinite x = true) : Double.ofFloat x =
    if isNegative x then (Double.ofFloat x).abs.neg else (Double.ofFloat x).abs := by
  rcases proper_or_zero finite with proper | ⟨-, zero, signed⟩
  · exact proper.ofFloat_signed
  · rw [zero]
    exact signed

end Tasklang.Number
