import Mathlib
import Tasklang.Number.Decimal

/-! # Rounding to the nearest double

An exact positive value that lies close enough to a double is rounded to it, the last bits of its
mantissa being decided by the first bit that is cut off and by whether anything follows it. Products
and quotients of exact values, and so decimals, become the double that they are near to.
-/

namespace Tasklang.Number

open Float.Model Float.Model.UnpackedFloat

/-- What a mantissa with its two residual bits says about an exact value: the first bit that was
cut off, and whether anything but zeros follows it. -/
def Represents (em : ExtendedMantissa) (v : ℚ) : Prop :=
  match em.roundBit, em.stickyBit with
  | false, false => v = em.mantissa
  | false, true => em.mantissa < v ∧ v < em.mantissa + 1 / 2
  | true, false => v = em.mantissa + 1 / 2
  | true, true => em.mantissa + 1 / 2 < v ∧ v < em.mantissa + 1

namespace Represents

variable {em : ExtendedMantissa} {v : ℚ}

theorem bounds (represents : Represents em v) : em.mantissa ≤ v ∧ v < em.mantissa + 1 := by
  obtain ⟨m, first, rest⟩ := em
  cases first <;> cases rest <;> simp only [Represents] at represents ⊢ <;>
    constructor <;> linarith

theorem whole (m : ℕ) : Represents (.ofMantissaAndAccuracy m .exact) m := rfl

/-- The quotient of a division, with the accuracy read off its remainder. -/
theorem quotient (n : ℕ) {d : ℕ} (positive : 0 < d) :
    Represents (.ofMantissaAndAccuracy (n / d) (accuracyOfFraction (n % d) d)) (n / d : ℚ) := by
  have below : ((n % d : ℕ) : ℚ) < d := by exact_mod_cast Nat.mod_lt n positive
  have positive' : (0 : ℚ) < d := by exact_mod_cast positive
  have value : (n / d : ℚ) = (n / d : ℕ) + (n % d : ℕ) / d := by
    have split : (n : ℚ) = (n / d : ℕ) * d + (n % d : ℕ) := by
      exact_mod_cast (Nat.div_add_mod' n d).symm
    rw [eq_comm, eq_div_iff positive'.ne', add_mul, div_mul_cancel₀ _ positive'.ne', ← split]
  rw [value]
  generalize n / d = q
  generalize n % d = r at below
  unfold accuracyOfFraction
  split
  next none_ =>
    subst none_
    simp [Represents, ExtendedMantissa.ofMantissaAndAccuracy]
  next some_ =>
    have left : (0 : ℚ) < r := by exact_mod_cast Nat.pos_of_ne_zero some_
    have less : (r / d : ℚ) < 1 := by rwa [div_lt_one positive']
    have more : (0 : ℚ) < r / d := div_pos left positive'
    cases half : compare (2 * r) d with
    | lt =>
      have : (2 * r : ℚ) < d := by exact_mod_cast Nat.compare_eq_lt.mp half
      have : (r / d : ℚ) < 1 / 2 := by rw [div_lt_div_iff₀ positive' two_pos]; linarith
      change (q : ℚ) < _ ∧ _ < (q : ℚ) + 1 / 2
      constructor <;> linarith
    | eq =>
      have : (2 * r : ℚ) = d := by exact_mod_cast Nat.compare_eq_eq.mp half
      have : (r / d : ℚ) = 1 / 2 := by rw [div_eq_div_iff positive'.ne' two_ne_zero]; linarith
      exact congrArg _ this
    | gt =>
      have : (d : ℚ) < 2 * r := by exact_mod_cast Nat.compare_eq_gt.mp half
      have : (1 / 2 : ℚ) < r / d := by rw [div_lt_div_iff₀ two_pos positive']; linarith
      change (q : ℚ) + 1 / 2 < _ ∧ _ < (q : ℚ) + 1
      constructor <;> linarith

theorem shiftRightOne (represents : Represents em v) : Represents em.shiftRightOne (v / 2) := by
  obtain ⟨m, first, rest⟩ := em
  have halves : (m : ℚ) = 2 * (m / 2 : ℕ) + (m % 2 : ℕ) := by
    exact_mod_cast (Nat.div_add_mod m 2).symm
  rcases Nat.mod_two_eq_zero_or_one m with parity | parity <;> cases first <;> cases rest <;>
    simp only [Represents, ExtendedMantissa.shiftRightOne, parity, Nat.cast_zero,
      Nat.cast_one] at represents halves ⊢ <;>
    (try constructor) <;> (try simp) <;> linarith

theorem shiftRight (represents : Represents em v) (n : ℕ) : Represents (em >>> n) (v / 2 ^ n) := by
  change Represents (n.repeat ExtendedMantissa.shiftRightOne em) _
  induction n with
  | zero => simpa [Nat.repeat] using represents
  | succ n ih =>
    rw [pow_succ, ← div_div]
    exact ih.shiftRightOne

/-- The rounded mantissa is the natural number next to the value, the even one of two. -/
theorem rounded (represents : Represents em v) {k : ℕ} (low : (k : ℚ) - 1 / 2 ≤ v)
    (high : v ≤ k + 1 / 2) (tie : k % 2 = 0 ∨ (k : ℚ) - 1 / 2 < v ∧ v < k + 1 / 2) :
    em.roundedMantissa = k := by
  obtain ⟨m, first, rest⟩ := em
  cases first <;> cases rest <;>
    simp only [Represents, ExtendedMantissa.roundedMantissa, ExtendedMantissa.accuracy,
      Accuracy.roundToNearestEven] at represents ⊢
  · have : (m : ℚ) < k + 1 := by linarith
    have : (k : ℚ) < m + 1 := by linarith
    norm_cast at *
    omega
  · have : (m : ℚ) < k + 1 := by linarith
    have : (k : ℚ) < m + 1 := by linarith
    norm_cast at *
    omega
  · have upper : (m : ℚ) ≤ k := by linarith
    have lower : (k : ℚ) ≤ m + 1 := by linarith
    have even : k % 2 = 0 := by
      refine tie.resolve_right fun strict => ?_
      have upper' : (m : ℚ) < k := by linarith
      have lower' : (k : ℚ) < m + 1 := by linarith
      norm_cast at upper' lower'
      omega
    norm_cast at upper lower
    omega
  · have : (m : ℚ) < k := by linarith
    have : (k : ℚ) < m + 2 := by linarith
    norm_cast at *
    omega

end Represents

/-- A mantissa and an exponent of a positive double, as they are stored. -/
structure Canonical (m : ℕ) (e : ℤ) : Prop where
  positive : 0 < m
  fits : m < 2 ^ 53
  least : -1074 ≤ e
  greatest : e ≤ 971
  normal : 2 ^ 52 ≤ m ∨ e = -1074

/-- How far the values that round to a double go down from it, in units of its last place: the
double below is nearer at a power of two. -/
def reach (m : ℕ) (e : ℤ) : ℚ := if m = 2 ^ 52 ∧ -1074 < e then 1 / 4 else 1 / 2

/-- A value that rounds to the double `m · 2 ^ e`. -/
structure Near (m : ℕ) (e : ℤ) (value : ℚ) : Prop where
  low : (m - reach m e) * 2 ^ e ≤ value
  high : value ≤ (m + 1 / 2) * 2 ^ e
  tie : m % 2 = 0 ∨ (m - reach m e) * 2 ^ e < value ∧ value < (m + 1 / 2) * 2 ^ e

section Rounding

variable {M : ℕ} {E : ℤ} {acc : Accuracy} {v : ℚ}
  (represents : Represents (.ofMantissaAndAccuracy M acc) v)

/-- The exponent that a mantissa of fifty-three bits asks for. -/
abbrev target (M : ℕ) (E : ℤ) : ℤ := Format.binary64.targetExponent (totalExponent M E)

theorem target_eq (M : ℕ) (E : ℤ) : target M E = max (M.log2 + E - 52) (-1074) := by
  simp only [target, Format.targetExponent, totalExponent, Format.mantissaBits, Format.minExponent]
  norm_num
  omega

include represents

theorem mantissa_le : (M : ℚ) ≤ v ∧ v < M + 1 := by
  have := represents.bounds
  cases acc with
  | exact => exact this
  | inexact side => cases side <;> exact this

/-- A value below a power of two asks for no greater exponent than the numbers below that power. -/
theorem target_le {t : ℤ} (room : E ≤ target M E) (below : v * 2 ^ E < 2 ^ t) :
    target M E ≤ max (t - 53) (-1074) := by
  rw [target_eq] at room ⊢
  rcases Nat.eq_zero_or_pos M with rfl | positive
  · rw [Nat.log2_zero] at room ⊢
    omega
  have leading : ((2 : ℚ) ^ (M.log2 : ℤ)) ≤ v := by
    refine le_trans ?_ (mantissa_le represents).1
    rw [zpow_natCast]
    exact_mod_cast Nat.log2_self_le positive.ne'
  have : (2 : ℚ) ^ (M.log2 + E) < 2 ^ t := by
    rw [zpow_add₀ two_ne_zero]
    exact (mul_le_mul_of_nonneg_right leading (by positivity)).trans_lt below
  have := (zpow_lt_zpow_iff_right₀ one_lt_two).mp this
  omega

/-- A value that reaches a power of two asks for no less than that power. -/
theorem le_target {t : ℤ} (above : 2 ^ t ≤ v * 2 ^ E) : max (t - 52) (-1074) ≤ target M E := by
  rw [target_eq]
  have trailing : v < (2 : ℚ) ^ (M.log2 + 1 : ℤ) := by
    refine (mantissa_le represents).2.trans_le ?_
    rw [← Nat.cast_succ M.log2, zpow_natCast]
    exact_mod_cast Nat.lt_log2_self
  have : (2 : ℚ) ^ t < 2 ^ (M.log2 + 1 + E) := by
    rw [zpow_add₀ two_ne_zero]
    exact above.trans_lt (mul_lt_mul_of_pos_right trailing (by positivity))
  have := (zpow_lt_zpow_iff_right₀ one_lt_two).mp this
  omega

omit represents in
theorem shift_exact {m : ℕ} {e : ℤ} (settled : target m e ≤ e) :
    shiftToTargetExponent .binary64 m e .exact = (⟨m, false, false⟩, e) := by
  have : (target m e - e).toNat = 0 := by omega
  simp only [shiftToTargetExponent, shiftToExponent, this]
  exact congrArg _ (by simp)

/-- The first of the two shifts, with the mantissa rounded. -/
theorem first_shift {T : ℤ} {k : ℕ} (room : E ≤ T) (reached : target M E = T)
    (low : (k - 1 / 2) * 2 ^ T ≤ v * 2 ^ E) (high : v * 2 ^ E ≤ (k + 1 / 2) * 2 ^ T)
    (tie : k % 2 = 0 ∨ (k - 1 / 2) * 2 ^ T < v * 2 ^ E ∧ v * 2 ^ E < (k + 1 / 2) * 2 ^ T) :
    (shiftToTargetExponent .binary64 M E acc).1.roundedMantissa = k ∧
      (shiftToTargetExponent .binary64 M E acc).2 = T := by
  have shift : ((T - E).toNat : ℤ) = T - E := Int.toNat_of_nonneg (by omega)
  have moved := represents.shiftRight (T - E).toNat
  have unit : (0 : ℚ) < 2 ^ T := by positivity
  have scaled : v / 2 ^ (T - E).toNat * 2 ^ T = v * 2 ^ E := by
    rw [← zpow_natCast, shift, zpow_sub₀ two_ne_zero]
    field_simp
  rw [← scaled] at low high tie
  simp only [mul_le_mul_iff_left₀ unit, mul_lt_mul_iff_left₀ unit] at low high tie
  have ended : E + (T - E).toNat = T := by omega
  simp only [shiftToTargetExponent, shiftToExponent, reached, ended, and_true]
  exact moved.rounded low high tie

/-- Rounding to a mantissa that fits, in the unit of its double. -/
theorem round_full (room : E ≤ target M E) {m : ℕ} {e : ℤ} (canonical : Canonical m e)
    (near : Near m e (v * 2 ^ E)) (reached : target M E = e) (s : Sign) :
    roundWithAccuracy .binary64 s M E acc = .finite s m e canonical.positive := by
  have half : (m - 1 / 2 : ℚ) * 2 ^ e ≤ (m - reach m e) * 2 ^ e := by
    refine mul_le_mul_of_nonneg_right ?_ (by positivity)
    unfold reach
    split <;> linarith
  obtain ⟨rounded, ended⟩ := first_shift represents (reached ▸ room) reached
    (half.trans near.low) near.high (near.tie.imp_right fun strict =>
      ⟨half.trans_lt strict.1, strict.2⟩)
  have settled : target m e ≤ e := by
    have := (Nat.log2_lt canonical.positive.ne').mpr canonical.fits
    have := canonical.least
    rw [target_eq]
    omega
  simp only [roundWithAccuracy, rounded, ended, shift_exact settled, canonical.positive.ne',
    dite_false]

omit represents in
/-- A mantissa that rounding has carried to fifty-four bits. -/
theorem shift_carried {e : ℤ} (least : -1074 ≤ e) :
    shiftToTargetExponent .binary64 (2 ^ 53) e .exact = (⟨2 ^ 52, false, false⟩, e + 1) := by
  have reached : target (2 ^ 53) e = e + 1 := by
    rw [target_eq, Nat.log2_two_pow]
    omega
  simp only [shiftToTargetExponent, shiftToExponent, reached, add_sub_cancel_left]
  rfl

/-- Rounding a value just below a power of two up to that power. -/
theorem round_carried (room : E ≤ target M E) {e : ℤ} (least : -1074 < e)
    (near : Near (2 ^ 52) e (v * 2 ^ E)) (short : v * 2 ^ E < 2 ^ (52 + e)) (s : Sign) :
    roundWithAccuracy .binary64 s M E acc = .finite s (2 ^ 52) e (by positivity) := by
  have unit : (0 : ℚ) < 2 ^ (e - 1) := by positivity
  have double : (2 : ℚ) ^ e = 2 * 2 ^ (e - 1) := by
    rw [← zpow_one_add₀ two_ne_zero, add_sub_cancel]
  have low : ((2 ^ 53 : ℕ) - 1 / 2 : ℚ) * 2 ^ (e - 1) ≤ v * 2 ^ E := by
    refine le_trans (le_of_eq ?_) near.low
    rw [reach, if_pos ⟨rfl, least⟩, double]
    push_cast
    ring
  have high : v * 2 ^ E ≤ ((2 ^ 53 : ℕ) + 1 / 2 : ℚ) * 2 ^ (e - 1) := by
    rw [zpow_add₀ two_ne_zero, double] at short
    push_cast
    norm_num at short ⊢
    linarith
  have reached : target M E = e - 1 := by
    have above : (2 : ℚ) ^ (51 + e) ≤ v * 2 ^ E := by
      refine le_trans ?_ low
      rw [zpow_add₀ two_ne_zero, double]
      push_cast
      norm_num
      linarith
    have := target_le represents room short
    have := le_target represents above
    omega
  obtain ⟨rounded, ended⟩ :=
    first_shift represents (reached ▸ room) reached low high (.inl (by norm_num))
  have carried := shift_carried (e := e - 1) (by omega)
  rw [sub_add_cancel] at carried
  simp only [roundWithAccuracy, rounded, ended, carried]
  rfl

/-- A value is rounded to the double that it is near to. -/
theorem round_near (room : E ≤ target M E) {m : ℕ} {e : ℤ} (canonical : Canonical m e)
    (near : Near m e (v * 2 ^ E)) (s : Sign) :
    roundWithAccuracy .binary64 s M E acc = .finite s m e canonical.positive := by
  have unit : (0 : ℚ) < 2 ^ e := by positivity
  have below : v * 2 ^ E < 2 ^ (53 + e) := by
    have size : (m : ℚ) + 1 ≤ 2 ^ 53 := by exact_mod_cast canonical.fits
    rw [zpow_add₀ two_ne_zero]
    refine near.high.trans_lt (mul_lt_mul_of_pos_right ?_ unit)
    norm_num at size ⊢
    linarith
  have upper := target_le represents room below
  have lower : -1074 ≤ target M E := by
    rw [target_eq]
    omega
  by_cases full : e = -1074 ∨ 2 ^ (52 + e) ≤ v * 2 ^ E
  · refine round_full represents room canonical near ?_ s
    rcases full with rfl | above
    · omega
    · have := le_target represents above
      have := canonical.least
      omega
  obtain ⟨least, short⟩ := not_or.mp full
  rw [not_le] at short
  have leading : m = 2 ^ 52 := by
    have : (m : ℚ) - 1 / 2 < 2 ^ 52 := by
      rw [zpow_add₀ two_ne_zero] at short
      have := lt_of_mul_lt_mul_right (near.low.trans_lt short) unit.le
      unfold reach at this
      split at this <;> norm_num at this ⊢ <;> linarith
    have : (m : ℚ) < (2 ^ 52 : ℕ) + 1 := by
      push_cast
      linarith
    have := canonical.normal.resolve_right least
    norm_cast at *
    omega
  subst leading
  have := canonical.least
  exact round_carried represents room (by omega) near short s

end Rounding

/-! ## Products and quotients -/

section Operations

variable {m₁ m₂ m : ℕ} {e₁ e₂ e : ℤ} (some₁ : 0 < m₁) (some₂ : 0 < m₂) (canonical : Canonical m e)

include canonical

theorem mul_near (wide : 2 ^ 52 ≤ m₁)
    (near : Near m e (m₁ * 2 ^ e₁ * (m₂ * 2 ^ e₂))) :
    mul .binary64 (.finite .positive m₁ e₁ some₁) (.finite .positive m₂ e₂ some₂) =
      .finite .positive m e canonical.positive := by
  have exact_ : Represents (.ofMantissaAndAccuracy (m₁ * m₂) .exact) (m₁ * m₂ : ℚ) := by
    exact_mod_cast Represents.whole (m₁ * m₂)
  have value : (m₁ * m₂ : ℚ) * 2 ^ (e₁ + e₂) = m₁ * 2 ^ e₁ * (m₂ * 2 ^ e₂) := by
    rw [zpow_add₀ two_ne_zero]
    ring
  have room : e₁ + e₂ ≤ target (m₁ * m₂) (e₁ + e₂) := by
    have : 52 ≤ (m₁ * m₂).log2 := by
      rw [Nat.le_log2 (by positivity)]
      exact wide.trans (Nat.le_mul_of_pos_right _ some₂)
    rw [target_eq]
    omega
  exact round_near exact_ room canonical (value ▸ near) .positive

theorem div_near (near : Near m e (m₁ * 2 ^ e₁ / (m₂ * 2 ^ e₂))) :
    div .binary64 (.finite .positive m₁ e₁ some₁) (.finite .positive m₂ e₂ some₂) =
      .finite .positive m e canonical.positive := by
  let t := min (e₁ - e₂)
    (Format.binary64.targetExponent (totalExponent m₁ e₁ - totalExponent m₂ e₂))
  let k := (e₁ - e₂ - t).toNat
  change roundWithAccuracy .binary64 .positive ((m₁ <<< k) / m₂) t
    (accuracyOfFraction ((m₁ <<< k) % m₂) m₂) = _
  have atMost : t ≤ e₁ - e₂ := min_le_left _ _
  have aim : t ≤ max (m₁.log2 + e₁ - (m₂.log2 + e₂) - 53) (-1074) := by
    refine (min_le_right _ _).trans (le_of_eq ?_)
    simp only [Format.targetExponent, totalExponent, Format.mantissaBits, Format.minExponent]
    norm_num
    omega
  have shift : (k : ℤ) = e₁ - e₂ - t := Int.toNat_of_nonneg (by omega)
  have value : ((m₁ <<< k : ℕ) / m₂ : ℚ) * 2 ^ t = m₁ * 2 ^ e₁ / (m₂ * 2 ^ e₂) := by
    have : (2 : ℚ) ^ e₁ = 2 ^ k * 2 ^ t * 2 ^ e₂ := by
      rw [← zpow_natCast, shift, ← zpow_add₀ two_ne_zero, ← zpow_add₀ two_ne_zero]
      congr 1
      ring
    rw [this, Nat.shiftLeft_eq]
    push_cast
    field_simp
  have room : t ≤ target ((m₁ <<< k) / m₂) t := by
    rw [target_eq]
    by_cases least : t ≤ -1074
    · omega
    have : 52 ≤ ((m₁ <<< k) / m₂).log2 := by
      have enough : 2 ^ 52 ≤ (m₁ <<< k) / m₂ := by
        rw [Nat.le_div_iff_mul_le some₂, Nat.shiftLeft_eq]
        calc 2 ^ 52 * m₂ ≤ 2 ^ 52 * 2 ^ (m₂.log2 + 1) :=
              Nat.mul_le_mul_left _ Nat.lt_log2_self.le
          _ = 2 ^ (m₂.log2 + 53) := by rw [← pow_add]; congr 1; omega
          _ ≤ 2 ^ (m₁.log2 + k) := Nat.pow_le_pow_right two_pos (by omega)
          _ = 2 ^ m₁.log2 * 2 ^ k := pow_add ..
          _ ≤ m₁ * 2 ^ k := Nat.mul_le_mul_right _ (Nat.log2_self_le some₁.ne')
      exact (Nat.le_log2 (by omega)).mpr enough
    omega
  exact round_near (.quotient _ some₂) room canonical (value ▸ near) .positive

/-- A decimal becomes the double that it is near to. -/
theorem ofScientific_near {d : ℕ} {k : ℤ} (some_ : d ≠ 0) (small : k ≤ 2048)
    (large : -(2048 + d.log2) ≤ k) (near : Near m e (d * 10 ^ k)) :
    UnpackedFloat.ofScientific .binary64 d k = .finite .positive m e canonical.positive := by
  unfold UnpackedFloat.ofScientific
  rw [dif_neg some_, if_neg (by norm_num; omega), if_neg (by norm_num; omega)]
  split
  next whole =>
    refine mul_near _ _ canonical ?_ ?_
    · rw [Nat.shiftLeft_eq]
      calc 2 ^ 52 ≤ 2 ^ 53 := by norm_num
        _ ≤ d * 2 ^ 53 := Nat.le_mul_of_pos_left _ (Nat.pos_of_ne_zero some_)
    · rw [Nat.shiftLeft_eq]
      push_cast
      have : (10 : ℚ) ^ k.toNat = 10 ^ k := by
        rw [← zpow_natCast, Int.toNat_of_nonneg whole]
      rw [this]
      convert near using 1
      simp only [Format.mantissaBits]
      norm_num
      exact .inl (by ring)
  next fraction =>
    refine div_near _ _ canonical ?_
    have : (10 : ℚ) ^ (-k).toNat = (10 ^ k)⁻¹ := by
      rw [← zpow_natCast, Int.toNat_of_nonneg (by omega), zpow_neg]
    push_cast
    rw [this]
    simpa using near

end Operations

end Tasklang.Number
