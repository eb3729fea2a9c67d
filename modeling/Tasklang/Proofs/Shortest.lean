import Tasklang.Proofs.Doubles

/-! # The shortest decimal of a double

The fewest digits that are found for a double are a decimal that rounds to it: candidates are checked
against the interval of the double, and eighteen digits are close enough unchecked. Without the zeros
at its end the decimal keeps its value, and it is short enough to be read.
-/

namespace Tasklang.Number

/-- The value of a ratio. -/
def Ratio.value (r : Ratio) : ℚ := r.num / r.den

/-- The value of a decimal. -/
def Decimal.value (d : Decimal) : ℚ := d.digits * 10 ^ d.exponent

namespace Ratio

/-- A ratio that denotes a number. -/
def Sound (r : Ratio) : Prop := 0 < r.den

variable {r : Ratio}

theorem ofBinary_sound (m : ℕ) (e : ℤ) : (ofBinary m e).Sound := by
  cases e with
  | ofNat e => exact one_pos
  | negSucc e => exact Nat.pow_pos two_pos

@[simp]
theorem ofBinary_value (m : ℕ) (e : ℤ) : (ofBinary m e).value = m * 2 ^ e := by
  cases e with
  | ofNat e => simp [ofBinary, value]
  | negSucc e => simp [ofBinary, value, zpow_negSucc, div_eq_mul_inv]

theorem scale_sound (sound : r.Sound) (e : ℤ) : (r.scale e).Sound := by
  cases e with
  | ofNat e => exact sound
  | negSucc e => exact Nat.mul_pos sound (Nat.pow_pos (by norm_num))

@[simp]
theorem scale_value (r : Ratio) (e : ℤ) : (r.scale e).value = r.value * 10 ^ e := by
  cases e with
  | ofNat e => simp [scale, value, mul_div_right_comm]
  | negSucc e =>
    simp only [scale, value, zpow_negSucc, Nat.pow_eq]
    push_cast
    rw [← div_div, div_eq_mul_inv]

theorem le_natCast_iff (sound : r.Sound) (d : ℕ) : r.value ≤ d ↔ r.num ≤ d * r.den := by
  have : (0 : ℚ) < r.den := by exact_mod_cast sound
  rw [value, div_le_iff₀ this]
  exact_mod_cast Iff.rfl

theorem natCast_le_iff (sound : r.Sound) (d : ℕ) : (d : ℚ) ≤ r.value ↔ d * r.den ≤ r.num := by
  have : (0 : ℚ) < r.den := by exact_mod_cast sound
  rw [value, le_div_iff₀ this]
  exact_mod_cast Iff.rfl

theorem belowOne_iff (sound : r.Sound) : r.belowOne = true ↔ r.value < 1 := by
  have : (0 : ℚ) < r.den := by exact_mod_cast sound
  rw [belowOne, decide_eq_true_iff, value, div_lt_one this]
  exact_mod_cast Iff.rfl

/-- The nearest natural number is at most a half away. -/
theorem round_near (sound : r.Sound) :
    r.value - 1 / 2 ≤ r.round ∧ (r.round : ℚ) ≤ r.value + 1 / 2 := by
  have positive : (0 : ℚ) < r.den := by exact_mod_cast sound
  have split : r.value = (r.num / r.den : ℕ) + (r.num % r.den : ℕ) / r.den := by
    have : (r.num : ℚ) = (r.num / r.den : ℕ) * r.den + (r.num % r.den : ℕ) := by
      exact_mod_cast (Nat.div_add_mod' r.num r.den).symm
    rw [value, eq_comm, eq_div_iff positive.ne', add_mul, div_mul_cancel₀ _ positive.ne', ← this]
  have nonneg : (0 : ℚ) ≤ (r.num % r.den : ℕ) / r.den := by positivity
  have less : ((r.num % r.den : ℕ) / r.den : ℚ) < 1 := by
    rw [div_lt_one positive]
    exact_mod_cast Nat.mod_lt r.num sound
  have half (below : 2 * (r.num % r.den) ≤ r.den) :
      ((r.num % r.den : ℕ) / r.den : ℚ) ≤ 1 / 2 := by
    rw [div_le_div_iff₀ positive two_pos, mul_comm, one_mul]
    exact_mod_cast below
  have half' (above : r.den ≤ 2 * (r.num % r.den)) :
      (1 / 2 : ℚ) ≤ (r.num % r.den : ℕ) / r.den := by
    rw [div_le_div_iff₀ two_pos positive, mul_comm _ 2, one_mul]
    exact_mod_cast above
  unfold round
  dsimp only
  rw [split]
  split
  next below =>
    have := half below.le
    constructor <;> linarith
  split
  next above =>
    have := half' above.le
    push_cast
    constructor <;> linarith
  next notBelow notAbove =>
    have := half (not_lt.mp notAbove)
    have := half' (not_lt.mp notBelow)
    split <;> push_cast <;> constructor <;> linarith

end Ratio

/-! ## Powers of two and of ten -/

theorem ten_le_two_of_nat {a n : ℕ} (some_ : 10 * a ≤ 3 * n) : 10 ^ a ≤ 2 ^ n := by
  refine (Nat.pow_le_pow_iff_left three_ne_zero).mp ?_
  calc (10 ^ a) ^ 3 = (10 ^ 3) ^ a := by rw [← pow_mul, ← pow_mul, mul_comm]
    _ ≤ (2 ^ 10) ^ a := Nat.pow_le_pow_left (by norm_num) a
    _ = 2 ^ (10 * a) := (pow_mul ..).symm
    _ ≤ 2 ^ (3 * n) := Nat.pow_le_pow_right two_pos some_
    _ = (2 ^ n) ^ 3 := by rw [← pow_mul, mul_comm]

theorem two_le_ten_of_nat {a n : ℕ} (some_ : 28 * n ≤ 93 * a) : 2 ^ n ≤ 10 ^ a := by
  refine (Nat.pow_le_pow_iff_left (by norm_num : 93 ≠ 0)).mp ?_
  calc (2 ^ n) ^ 93 = (2 ^ 93) ^ n := by rw [← pow_mul, ← pow_mul, mul_comm]
    _ ≤ (10 ^ 28) ^ n := Nat.pow_le_pow_left (by norm_num) n
    _ = 10 ^ (28 * n) := (pow_mul ..).symm
    _ ≤ 10 ^ (93 * a) := Nat.pow_le_pow_right (by norm_num) some_
    _ = (10 ^ a) ^ 93 := by rw [← pow_mul, mul_comm]

theorem ten_le_two {a n : ℤ} (some_ : 10 * a ≤ 3 * n) (others : 93 * a ≤ 28 * n) :
    (10 : ℚ) ^ a ≤ 2 ^ n := by
  rcases le_total 0 a with up | down
  · lift a to ℕ using up
    lift n to ℕ using by omega
    rw [zpow_natCast, zpow_natCast]
    exact_mod_cast ten_le_two_of_nat (by omega)
  rcases le_total 0 n with above | under
  · exact (zpow_le_one_of_nonpos₀ (by norm_num) down).trans (one_le_zpow₀ one_le_two above)
  · have : (2 : ℚ) ^ (-n) ≤ 10 ^ (-a) := by
      lift -n to ℕ using by omega with n' same
      lift -a to ℕ using by omega with a' same'
      rw [zpow_natCast, zpow_natCast]
      exact_mod_cast two_le_ten_of_nat (by omega)
    rwa [zpow_neg, zpow_neg, inv_le_inv₀ (by positivity) (by positivity)] at this

theorem two_le_ten {a n : ℤ} (some_ : 28 * n ≤ 93 * a) (others : 3 * n ≤ 10 * a) :
    (2 : ℚ) ^ n ≤ 10 ^ a := by
  have := ten_le_two (a := -a) (n := -n) (by omega) (by omega)
  rwa [zpow_neg, zpow_neg, inv_le_inv₀ (by positivity) (by positivity)] at this

/-! ## The position of the decimal point -/

theorem Ratio.magnitudeFrom_bounds {r : Ratio} (sound : r.Sound) (n : ℕ) {k : ℤ}
    (above : 10 ^ (k - 1) ≤ r.value) :
    k ≤ r.magnitudeFrom n k ∧ 10 ^ (r.magnitudeFrom n k - 1) ≤ r.value := by
  induction n generalizing k with
  | zero => exact ⟨le_refl _, above⟩
  | succ n ih =>
    unfold magnitudeFrom
    split
    next below => exact ⟨le_refl _, above⟩
    next reached =>
      rw [belowOne_iff (scale_sound sound _), scale_value, zpow_neg, ← div_eq_mul_inv,
        div_lt_one (by positivity), not_lt] at reached
      obtain ⟨later, bound⟩ := ih (k := k + 1) (by rwa [add_sub_cancel_right])
      exact ⟨by omega, bound⟩

theorem log2_mul_two_pow {m : ℕ} (some_ : m ≠ 0) (k : ℕ) : (m * 2 ^ k).log2 = m.log2 + k := by
  rw [Nat.log2_eq_iff (by positivity)]
  constructor
  · rw [pow_add]
    exact Nat.mul_le_mul_right _ (Nat.log2_self_le some_)
  · rw [add_right_comm, pow_add]
    exact Nat.mul_lt_mul_of_pos_right Nat.lt_log2_self (by positivity)

theorem Ratio.bits_ofBinary {m : ℕ} (some_ : m ≠ 0) (e : ℤ) :
    ((ofBinary m e).num.log2 : ℤ) - (ofBinary m e).den.log2 = m.log2 + e := by
  cases e with
  | ofNat e =>
    change ((m * 2 ^ e).log2 : ℤ) - (Nat.log2 1 : ℕ) = _
    rw [log2_mul_two_pow some_, show Nat.log2 1 = 0 by decide]
    simp
  | negSucc e =>
    change (m.log2 : ℤ) - ((2 ^ (e + 1)).log2 : ℕ) = _
    rw [Nat.log2_two_pow, Int.negSucc_eq]
    push_cast
    ring

section Point

variable {m : ℕ} {e : ℤ} (canonical : Canonical m e)

include canonical

/-- The position of the decimal point is right up to a few digits. -/
theorem magnitude_bounds : 10 ^ ((Ratio.ofBinary m e).magnitude - 1) ≤ (m * 2 ^ e : ℚ) ∧
    (m * 2 ^ e : ℚ) < 10 ^ ((Ratio.ofBinary m e).magnitude + 5) := by
  have bits : m.log2 < 53 := (Nat.log2_lt canonical.positive.ne').mpr canonical.fits
  have least := canonical.least
  have greatest := canonical.greatest
  have unit : (0 : ℚ) < 2 ^ e := by positivity
  have lower : (2 : ℚ) ^ (m.log2 + e) ≤ m * 2 ^ e := by
    rw [zpow_add₀ two_ne_zero, zpow_natCast]
    exact mul_le_mul_of_nonneg_right
      (by exact_mod_cast Nat.log2_self_le canonical.positive.ne') unit.le
  have upper : (m * 2 ^ e : ℚ) < 2 ^ (m.log2 + 1 + e) := by
    rw [zpow_add₀ two_ne_zero, ← Nat.cast_succ, zpow_natCast]
    exact mul_lt_mul_of_pos_right (by exact_mod_cast Nat.lt_log2_self) unit
  unfold Ratio.magnitude
  dsimp only
  rw [Ratio.bits_ofBinary canonical.positive.ne', Int.fdiv_eq_ediv_of_nonneg _ (by norm_num)]
  obtain ⟨start, bound⟩ := Ratio.magnitudeFrom_bounds (Ratio.ofBinary_sound m e) 8
    (k := (m.log2 + e) * 30103 / 100000 - 2) (by
      rw [Ratio.ofBinary_value]
      exact (ten_le_two (by omega) (by omega)).trans lower)
  rw [Ratio.ofBinary_value] at bound
  refine ⟨bound, upper.trans_le ((two_le_ten ?_ ?_).trans
    (zpow_le_zpow_right₀ (by norm_num) (add_le_add_left start 5)))⟩ <;> omega

end Point

/-! ## Decimals that round to a double -/

theorem Ratio.contains_scaled {r : Ratio} (sound : r.Sound) (d : Decimal) :
    ((r.scale (-d.exponent)).num ≤ d.digits * (r.scale (-d.exponent)).den ↔ r.value ≤ d.value) ∧
      (d.digits * (r.scale (-d.exponent)).den ≤ (r.scale (-d.exponent)).num ↔
        d.value ≤ r.value) := by
  have unit : (0 : ℚ) < 10 ^ d.exponent := by positivity
  rw [← le_natCast_iff (scale_sound sound _), ← natCast_le_iff (scale_sound sound _), scale_value,
    zpow_neg, ← div_eq_mul_inv, div_le_iff₀ unit, le_div_iff₀ unit]
  exact ⟨Iff.rfl, Iff.rfl⟩

theorem ratio_sound (x : Float) : (ratio x).Sound := Ratio.ofBinary_sound _ _

theorem ratio_value (x : Float) :
    (ratio x).value = (parts x).mantissa * 2 ^ (parts x).exponent :=
  Ratio.ofBinary_value _ _

theorem two_zpow_eq (e : ℤ) : (2 : ℚ) ^ e = 4 * 2 ^ (e - 2) := by
  rw [zpow_sub₀ two_ne_zero]
  norm_num
  ring

section Interval

variable {x : Float} (proper : Proper x)

include proper

omit proper in
theorem narrow_iff : (parts x).mantissa = Nat.pow 2 52 ∧ 1 < exponentBits x ↔
    (parts x).mantissa = 2 ^ 52 ∧ -1074 < (parts x).exponent := by
  refine and_congr_right fun _ => ?_
  unfold parts
  dsimp only
  split
  · simp [*]
  · dsimp only
    omega

theorem interval_low : (interval x).low.value =
    ((parts x).mantissa - reach (parts x).mantissa (parts x).exponent) * 2 ^ (parts x).exponent := by
  have positive := proper.canonical.positive
  unfold interval reach
  dsimp only
  rw [Ratio.ofBinary_value, two_zpow_eq (parts x).exponent, if_congr narrow_iff rfl rfl]
  split
  · rw [Nat.cast_sub (by omega)]
    push_cast
    ring
  · rw [Nat.cast_sub (by omega)]
    push_cast
    ring

omit proper in
theorem interval_high : (interval x).high.value =
    ((parts x).mantissa + 1 / 2) * 2 ^ (parts x).exponent := by
  unfold interval
  dsimp only
  rw [Ratio.ofBinary_value, two_zpow_eq (parts x).exponent]
  push_cast
  ring

/-- A decimal in the interval of a double rounds to it. -/
theorem near_of_contains {d : Decimal} (inside : (interval x).contains d = true) :
    Near (parts x).mantissa (parts x).exponent d.value := by
  have low : (interval x).low.Sound := Ratio.ofBinary_sound _ _
  have high : (interval x).high.Sound := Ratio.ofBinary_sound _ _
  obtain ⟨above, above'⟩ := Ratio.contains_scaled low d
  obtain ⟨below', below⟩ := Ratio.contains_scaled high d
  rw [interval_low proper] at above above'
  rw [interval_high] at below below'
  unfold Interval.contains at inside
  dsimp only at inside
  split at inside
  next closed =>
    rw [Bool.and_eq_true, decide_eq_true_iff, decide_eq_true_iff, above, below] at inside
    exact ⟨inside.1, inside.2, .inl (of_decide_eq_true closed)⟩
  next =>
    rw [Bool.and_eq_true, decide_eq_true_iff, decide_eq_true_iff, ← not_le, above', ← not_le,
      below', not_le, not_le] at inside
    exact ⟨inside.1.le, inside.2.le, .inr inside⟩

/-! ## The search for the fewest digits -/

/-- A decimal that is read as a double: it rounds to it, and it is short enough to be read. -/
structure Readable (x : Float) (d : Decimal) : Prop where
  near : Near (parts x).mantissa (parts x).exponent d.value
  some_ : d.digits ≠ 0
  short : d.digits < 2 ^ 80

/-- A decimal that rounds to the double is readable when its last place is not too low. -/
theorem readable_of_near {d : Decimal}
    (near : Near (parts x).mantissa (parts x).exponent d.value)
    (place : (ratio x).magnitude - 18 ≤ d.exponent) : Readable x d := by
  have canonical := proper.canonical
  have unit : (0 : ℚ) < 10 ^ d.exponent := by positivity
  refine ⟨near, fun none_ => ?_, ?_⟩
  · have := (near.pos canonical).1
    rw [Decimal.value, none_, Nat.cast_zero, zero_mul] at this
    exact absurd this (not_le.mpr (by positivity))
  · have one : (1 : ℚ) ≤ (parts x).mantissa := by exact_mod_cast canonical.positive
    have double : d.value ≤ 2 * ((parts x).mantissa * 2 ^ (parts x).exponent) := by
      refine near.high.trans ?_
      rw [← mul_assoc]
      exact mul_le_mul_of_nonneg_right (by linarith) (by positivity)
    have point := (magnitude_bounds canonical).2
    change _ < (10 : ℚ) ^ ((ratio x).magnitude + 5) at point
    have : (d.digits : ℚ) * 10 ^ d.exponent < 2 * 10 ^ (23 : ℤ) * 10 ^ d.exponent := by
      calc (d.digits : ℚ) * 10 ^ d.exponent ≤ _ := double
        _ < 2 * 10 ^ ((ratio x).magnitude + 5) := by linarith
        _ ≤ 2 * 10 ^ (23 + d.exponent) := by
          refine mul_le_mul_of_nonneg_left (zpow_le_zpow_right₀ (by norm_num) ?_) zero_le_two
          omega
        _ = _ := by rw [zpow_add₀ (by norm_num), mul_assoc]
    have := lt_of_mul_lt_mul_right this unit.le
    have few : (2 * 10 ^ (23 : ℤ) : ℚ) < (2 ^ 80 : ℕ) := by norm_num
    exact_mod_cast this.trans few

omit proper in
theorem candidate_contained {value : Ratio} {i : Interval} {point : ℤ} {n : ℕ} {d : Decimal}
    (found : candidate? value i point n = some d) :
    i.contains d = true ∧ d.exponent = point - n := by
  unfold candidate? at found
  grind

theorem candidate_readable {n : ℕ} (few : n ≤ 18) {d : Decimal}
    (found : candidate? (ratio x) (interval x) (ratio x).magnitude n = some d) :
    Readable x d := by
  obtain ⟨inside, place⟩ := candidate_contained found
  exact readable_of_near proper (near_of_contains proper inside) (by omega)

/-- The eighteenth digit is far below the last place of a double. -/
theorem last_place_lt :
    (10 : ℚ) ^ ((ratio x).magnitude - 18) < 1 / 4 * 2 ^ (parts x).exponent := by
  have point := (magnitude_bounds proper.canonical).1
  change (10 : ℚ) ^ ((ratio x).magnitude - 1) ≤ _ at point
  have size : ((parts x).mantissa : ℚ) < 2 ^ 53 := by exact_mod_cast proper.canonical.fits
  have first : (10 : ℚ) ^ ((ratio x).magnitude - 1) =
      10 ^ 17 * 10 ^ ((ratio x).magnitude - 18) := by
    rw [← zpow_natCast, ← zpow_add₀ (by norm_num)]
    congr 1
    push_cast
    ring
  rw [first] at point
  have unit : (0 : ℚ) < 2 ^ (parts x).exponent := by positivity
  have := mul_lt_mul_of_pos_right size unit
  norm_num at point this
  linarith

omit proper in
theorem Near.of_close {m : ℕ} {e : ℤ} {v : ℚ} (low : (m - 1 / 8) * 2 ^ e ≤ v)
    (high : v ≤ (m + 1 / 8) * 2 ^ e) : Near m e v := by
  have unit : (0 : ℚ) < 2 ^ e := by positivity
  have quarter : 1 / 8 < reach m e := by
    unfold reach
    split <;> norm_num
  have below := (mul_lt_mul_of_pos_right (by linarith : m - reach m e < m - 1 / 8) unit).trans_le low
  have above := high.trans_lt
    (mul_lt_mul_of_pos_right (by linarith : (m + 1 / 8 : ℚ) < m + 1 / 2) unit)
  exact ⟨below.le, above.le, .inr ⟨below, above⟩⟩

/-- Eighteen digits always suffice. -/
theorem rounded_readable : Readable x
    ⟨((ratio x).scale (18 - (ratio x).magnitude)).round, (ratio x).magnitude - 18⟩ := by
  have place : (0 : ℚ) < 10 ^ ((ratio x).magnitude - 18) := by positivity
  obtain ⟨low, high⟩ :=
    Ratio.round_near (Ratio.scale_sound (ratio_sound x) (18 - (ratio x).magnitude))
  have inverse : (10 : ℚ) ^ (18 - (ratio x).magnitude) = (10 ^ ((ratio x).magnitude - 18))⁻¹ := by
    rw [← zpow_neg, neg_sub]
  rw [Ratio.scale_value, ratio_value, inverse, ← div_eq_mul_inv] at low high
  rw [sub_le_iff_le_add, div_le_iff₀ place] at low
  rw [← sub_le_iff_le_add, le_div_iff₀ place] at high
  have small := last_place_lt proper
  refine readable_of_near proper (.of_close ?_ ?_) (le_refl _) <;> rw [Decimal.value] <;> dsimp only <;> linarith

theorem search_readable (fuel : ℕ) {n : ℕ} (total : fuel + n = 18) :
    Readable x (shortest.search (ratio x) (interval x) (ratio x).magnitude fuel n) := by
  induction fuel generalizing n with
  | zero =>
    obtain rfl : n = 18 := by omega
    exact rounded_readable proper
  | succ fuel ih =>
    unfold shortest.search
    cases found : candidate? (ratio x) (interval x) (ratio x).magnitude n with
    | some d => exact candidate_readable proper (by omega) found
    | none => exact ih (by omega)

omit proper in
theorem Readable.of_value {d d' : Decimal} (readable : Readable x d) (same : d'.value = d.value) (short : d'.digits < 2 ^ 80) : Readable x d' := by
  refine ⟨same ▸ readable.near, fun none_ => ?_, short⟩
  rw [Decimal.value, none_, Nat.cast_zero, zero_mul] at same
  have : (d.digits : ℚ) ≠ 0 := by exact_mod_cast readable.some_
  exact mul_ne_zero this (by positivity) same.symm

omit proper in
/-- Without the zeros at its end a decimal has the same value. -/
theorem Readable.strip (fuel : ℕ) {d : Decimal} (readable : Readable x d) :
    Readable x (d.strip fuel) := by
  induction fuel generalizing d with
  | zero => exact readable
  | succ fuel ih =>
    unfold Decimal.strip
    split
    next ends =>
      refine ih (readable.of_value ?_ ?_)
      · have : (d.digits : ℚ) = (d.digits / 10 : ℕ) * 10 := by
          exact_mod_cast (Nat.div_mul_cancel (Nat.dvd_of_mod_eq_zero ends.2)).symm
        rw [Decimal.value, Decimal.value, this, zpow_add_one₀ (by norm_num)]
        ring
      · have := readable.short
        dsimp only
        omega
    next => exact readable

/-- The shortest decimal of a double is read as that double. -/
theorem shortest_readable : Readable x (shortest x) :=
  (search_readable proper 17 rfl).strip 20

end Interval

end Tasklang.Number
