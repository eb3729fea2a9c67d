import Mathlib
import Tasklang.Text.Bytes

/-! # Encoded text

Decoding gives back the text that was encoded. The four lengths of an encoded character are taken
one by one: the bounds that decoding checks hold of the bytes that encoding writes, because a
character is neither a surrogate nor above the last code point.
-/

namespace Tasklang.Bytes

theorem toNat_ofNat {n : Nat} (hn : n < 256) : (UInt8.ofNat n).toNat = n := by
  rw [UInt8.toNat_ofNat', Nat.mod_eq_of_lt hn]

theorem ofNat_lt {n : Nat} (hn : n < 256) (b : UInt8) : UInt8.ofNat n < b ↔ n < b.toNat := by
  rw [UInt8.lt_iff_toNat_lt, toNat_ofNat hn]

theorem ofNat_le {n : Nat} (hn : n < 256) (b : UInt8) : UInt8.ofNat n ≤ b ↔ n ≤ b.toNat := by
  rw [UInt8.le_iff_toNat_le, toNat_ofNat hn]

theorem le_ofNat {n : Nat} (hn : n < 256) (b : UInt8) : b ≤ UInt8.ofNat n ↔ b.toNat ≤ n := by
  rw [UInt8.le_iff_toNat_le, toNat_ofNat hn]

theorem ofNat_eq {n : Nat} (hn : n < 256) (b : UInt8) : UInt8.ofNat n = b ↔ n = b.toNat := by
  rw [← UInt8.toNat_inj, toNat_ofNat hn]

theorem isTail_tail (n : Nat) : isTail (UInt8.ofNat (n % 64 + 0x80)) = true := by
  simp only [isTail, Bool.and_eq_true, decide_eq_true_eq]
  rw [le_ofNat (by omega), ofNat_le (by omega)]
  simp only [UInt8.reduceToNat]
  omega

theorem tailBits_tail (n : Nat) : tailBits (UInt8.ofNat (n % 64 + 0x80)) = n % 64 := by
  rw [tailBits, toNat_ofNat (by omega)]
  omega

/-- The lead byte of two is followed by any continuation byte. -/
theorem lead_two {n : Nat} (low : 0x80 ≤ n) (high : n < 0x800) :
    lead (UInt8.ofNat (n / 64 % 32 + 0xC0)) = some (1, 0x80, 0xBF) := by
  have small : n / 64 % 32 + 0xC0 < 256 := by omega
  simp only [lead, ofNat_lt small, UInt8.reduceToNat]
  rw [if_neg (by omega), if_pos (by omega)]

/-- The lead byte of three is followed by a byte that fits it. -/
theorem lead_three {n : Nat} (low : 0x800 ≤ n) (high : n < 0x10000)
    (surrogate : n < 0xD800 ∨ 0xDFFF < n) :
    ∃ lo hi, lead (UInt8.ofNat (n / 4096 % 16 + 0xE0)) = some (2, lo, hi) ∧
      lo ≤ UInt8.ofNat (n / 64 % 64 + 0x80) ∧ UInt8.ofNat (n / 64 % 64 + 0x80) ≤ hi := by
  have small : n / 4096 % 16 + 0xE0 < 256 := by omega
  have next : n / 64 % 64 + 0x80 < 256 := by omega
  simp only [lead, ofNat_lt small, ofNat_eq small, le_ofNat next, ofNat_le next,
    UInt8.reduceToNat]
  rw [if_neg (by omega), if_neg (by omega)]
  by_cases overlong : n / 4096 % 16 + 0xE0 = 0xE0
  · refine ⟨0xA0, 0xBF, by rw [if_pos overlong], ?_, ?_⟩ <;>
      simp only [UInt8.reduceToNat] <;> omega
  · rw [if_neg overlong]
    by_cases halves : n / 4096 % 16 + 0xE0 = 0xED
    · refine ⟨0x80, 0x9F, by rw [if_pos halves], ?_, ?_⟩ <;>
        simp only [UInt8.reduceToNat] <;> omega
    · rw [if_neg halves, if_pos (by omega)]
      refine ⟨0x80, 0xBF, rfl, ?_, ?_⟩ <;> simp only [UInt8.reduceToNat] <;> omega

/-- The lead byte of four is followed by a byte that fits it. -/
theorem lead_four {n : Nat} (low : 0x10000 ≤ n) (high : n < 0x110000) :
    ∃ lo hi, lead (UInt8.ofNat (n / 262144 % 8 + 0xF0)) = some (3, lo, hi) ∧
      lo ≤ UInt8.ofNat (n / 4096 % 64 + 0x80) ∧ UInt8.ofNat (n / 4096 % 64 + 0x80) ≤ hi := by
  have small : n / 262144 % 8 + 0xF0 < 256 := by omega
  have next : n / 4096 % 64 + 0x80 < 256 := by omega
  simp only [lead, ofNat_lt small, ofNat_eq small, le_ofNat next, ofNat_le next,
    UInt8.reduceToNat]
  rw [if_neg (by omega), if_neg (by omega), if_neg (by omega), if_neg (by omega),
    if_neg (by omega)]
  by_cases overlong : n / 262144 % 8 + 0xF0 = 0xF0
  · refine ⟨0x90, 0xBF, by rw [if_pos overlong], ?_, ?_⟩ <;>
      simp only [UInt8.reduceToNat] <;> omega
  · rw [if_neg overlong]
    by_cases below : n / 262144 % 8 + 0xF0 < 0xF4
    · refine ⟨0x80, 0xBF, by rw [if_pos below], ?_, ?_⟩ <;>
        simp only [UInt8.reduceToNat] <;> omega
    · rw [if_neg below, if_pos (by omega)]
      refine ⟨0x80, 0x8F, rfl, ?_, ?_⟩ <;> simp only [UInt8.reduceToNat] <;> omega

/-- Decoding reads an encoded character first, whatever follows it. -/
theorem units_encoded (c : Char) (bs : Bytes) :
    units (String.utf8EncodeChar c ++ bs) = some c :: units bs := by
  have valid : c.val.toNat < 0xD800 ∨ 0xDFFF < c.val.toNat ∧ c.val.toNat < 0x110000 := c.valid
  have same : charOf c.val.toNat = c := Char.ofNat_toNat c
  generalize hn : c.val.toNat = n at valid same
  have wide {k : Nat} (low : 0x80 ≤ k) (high : k < 256) : ¬UInt8.ofNat k < 0x80 := by
    simp only [ofNat_lt high, UInt8.reduceToNat]
    omega
  simp only [String.utf8EncodeChar, hn]
  by_cases one : n ≤ 0x7F
  · have ascii : UInt8.ofNat n < 0x80 := by
      simp only [ofNat_lt (show n < 256 by omega), UInt8.reduceToNat]
      omega
    rw [if_pos one, List.cons_append, List.nil_append, units.eq_def]
    simp only [ascii, if_true, toNat_ofNat (show n < 256 by omega), same]
  rw [if_neg one]
  by_cases two : n ≤ 0x7FF
  · have tail := isTail_tail n
    simp only [isTail] at tail
    rw [if_pos two]
    simp only [List.cons_append, List.nil_append]
    rw [units.eq_def]
    simp only [wide (show 0x80 ≤ n / 64 % 32 + 0xC0 by omega) (by omega), if_false,
      lead_two (show 0x80 ≤ n by omega) (by omega), tail, Bool.not_true, Bool.false_eq_true,
      if_true, tailBits_tail, toNat_ofNat (show n / 64 % 32 + 0xC0 < 256 by omega)]
    rw [show (n / 64 % 32 + 0xC0) % 32 * 64 + n % 64 = n by omega, same]
  rw [if_neg two]
  by_cases three : n ≤ 0xFFFF
  · obtain ⟨lo, hi, leads, above, below⟩ := lead_three (n := n) (by omega) (by omega) (by omega)
    rw [if_pos three]
    simp only [List.cons_append, List.nil_append]
    rw [units.eq_def]
    simp only [wide (show 0x80 ≤ n / 4096 % 16 + 0xE0 by omega) (by omega), if_false, leads,
      above, below, decide_true, Bool.and_true, Bool.not_true, Bool.false_eq_true,
      Nat.reduceEqDiff, if_true, isTail_tail, tailBits_tail,
      toNat_ofNat (show n / 4096 % 16 + 0xE0 < 256 by omega)]
    rw [show ((n / 4096 % 16 + 0xE0) % 16 * 64 + n / 64 % 64) * 64 + n % 64 = n by omega, same]
  · obtain ⟨lo, hi, leads, above, below⟩ := lead_four (n := n) (by omega) (by omega)
    rw [if_neg three]
    simp only [List.cons_append, List.nil_append]
    rw [units.eq_def]
    simp only [wide (show 0x80 ≤ n / 262144 % 8 + 0xF0 by omega) (by omega), if_false, leads,
      above, below, decide_true, Bool.and_true, Bool.not_true, Bool.false_eq_true,
      Nat.reduceEqDiff, isTail_tail, tailBits_tail,
      toNat_ofNat (show n / 262144 % 8 + 0xF0 < 256 by omega)]
    rw [show (((n / 262144 % 8 + 0xF0) % 8 * 64 + n / 4096 % 64) * 64 + n / 64 % 64) * 64 + n % 64
      = n by omega, same]

theorem units_ofChars (cs : List Char) : units (ofChars cs) = cs.map some := by
  induction cs with
  | nil => rfl
  | cons c cs ih => rw [ofChars_cons, units_encoded, ih, List.map_cons]

/-- Text that is encoded is read back. -/
@[simp] theorem decodeLossy_ofString (s : String) : decodeLossy (ofString s) = s := by
  simp only [decodeLossy, ofString, units_ofChars, List.map_map, Function.comp_def,
    Option.getD_some, List.map_id', String.ofList_toList]

/-- Encoded text is well-formed. -/
@[simp] theorem decode?_ofString (s : String) : decode? (ofString s) = some s := by
  have read : (s.toList.map some).mapM id = some s.toList := by
    induction s.toList with
    | nil => rfl
    | cons c cs ih => simp [ih]
  simp only [decode?, ofString, units_ofChars, read, Option.map_some, String.ofList_toList]

theorem ofString_injective : Function.Injective ofString := by
  intro s t h
  rw [← decodeLossy_ofString s, h, decodeLossy_ofString]

end Tasklang.Bytes
