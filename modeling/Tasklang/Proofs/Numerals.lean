import Tasklang.Json.Printer
import Tasklang.Json.Reader

/-! # Numbers of structured values

A number is read up to where nothing goes on with it, so that what follows it does not matter. An
integer that fits reads back.
-/

namespace Tasklang.Json

/-! ## What follows a value -/

/-- Whether nothing goes on with a value: its text ends, or a comma or closing bracket comes. -/
def Stops (rest : List Char) : Prop := ∀ c ∈ rest.head?, c = ',' ∨ c = ']' ∨ c = '\x7d'

/-- What a step reads when more input follows. -/
def extended {α : Type} (rest : List Char) (r : Read α) : Read α :=
  r.map fun (v, left) => (v, left ++ rest)

/-! ## The first character of a number -/

/-- An exponent after its sign. -/
def unsignedExponent (negative : Bool) (digits : Nat) (e : Int) (down : Bool) (cs : List Char) :
    Read Json :=
  if !startsDigit cs then none
  else
    let k : Nat := (cs.takeWhile Char.isDigit).foldl
      (fun acc c => min (acc * 10 + (c.toNat - 48)) (Nat.pow 2 31)) 0
    let rest := cs.dropWhile Char.isDigit
    if k < Nat.pow 2 31 then
      (floatOf negative digits (if down then e - (k : Int) else e + (k : Int))).map (·, rest)
    else if digits ≠ 0 ∧ !down then none
    else some (.float (if negative then -0.0 else 0.0), rest)

/-- A number after digits that fit, when nothing goes on with it. -/
def whole (negative : Bool) (digits : Nat) (rest : List Char) : Read Json :=
  if !negative then some (.int digits, rest)
  else if digits = 0 ∨ digits > Nat.pow 2 63 then some (.float (-(Float.ofNat digits)), rest)
  else some (.int (-(digits : Int)), rest)

/-- A number after digits that do not fit. -/
def readLong (negative : Bool) (digits : Nat) (rest : List Char) : Read Json :=
  let count := (rest.takeWhile Char.isDigit).length
  match rest.dropWhile Char.isDigit with
  | '.' :: rest => readFraction negative digits count rest
  | rest => readTail negative digits count rest

section First

variable (negative : Bool) (digits : Nat) (e : Int) (c : Char) (cs : List Char)

theorem readExponent_cons : readExponent negative digits e (c :: cs) =
    if c = '+' then unsignedExponent negative digits e false cs
    else if c = '-' then unsignedExponent negative digits e true cs
    else unsignedExponent negative digits e false (c :: cs) := by
  by_cases plus : c = '+'
  · subst plus
    rfl
  by_cases minus : c = '-'
  · subst minus
    rfl
  rw [if_neg plus, if_neg minus]
  unfold readExponent
  split
  next signed =>
  split at signed
  · next is_ => exact absurd (List.cons.inj is_).1 plus
  · next is_ => exact absurd (List.cons.inj is_).1 minus
  · cases signed
    rfl

theorem readTail_cons : readTail negative digits e (c :: cs) =
    if c = 'e' ∨ c = 'E' then readExponent negative digits e cs
    else (floatOf negative digits e).map (·, c :: cs) := by
  by_cases letter : c = 'e' ∨ c = 'E'
  · rcases letter with rfl | rfl <;> rfl
  rw [if_neg letter]
  unfold readTail
  split
  · next is_ => exact absurd (.inl (List.cons.inj is_).1) letter
  · next is_ => exact absurd (.inr (List.cons.inj is_).1) letter
  · rfl

theorem ending_cons : readUnsigned.ending negative digits (c :: cs) =
    if c = '.' then readFraction negative digits 0 cs
    else if c = 'e' ∨ c = 'E' then readExponent negative digits 0 cs
    else whole negative digits (c :: cs) := by
  by_cases point : c = '.'
  · subst point
    rfl
  by_cases letter : c = 'e' ∨ c = 'E'
  · rcases letter with rfl | rfl <;> rfl
  rw [if_neg point, if_neg letter]
  unfold readUnsigned.ending
  split
  · next is_ => exact absurd (List.cons.inj is_).1 point
  · next is_ => exact absurd (.inl (List.cons.inj is_).1) letter
  · next is_ => exact absurd (.inr (List.cons.inj is_).1) letter
  · rfl

theorem readUnsigned_cons : readUnsigned negative (c :: cs) =
    if c = '0' then if startsDigit cs then none else readUnsigned.ending negative 0 cs
    else if !c.isDigit then none
    else
      let taken := takeDigits 0 0 (c :: cs)
      if startsDigit taken.2.2 then readLong negative taken.1 taken.2.2
      else readUnsigned.ending negative taken.1 taken.2.2 := by
  by_cases zero : c = '0'
  · subst zero
    rfl
  rw [if_neg zero]
  unfold readUnsigned
  split
  · next is_ => exact absurd (List.cons.inj is_).1 zero
  · next is_ =>
    cases is_
    rfl
  · next is_ => cases is_

theorem readNumber_cons : readNumber (c :: cs) =
    if c = '-' then readUnsigned true cs else readUnsigned false (c :: cs) := by
  by_cases minus : c = '-'
  · subst minus
    rfl
  rw [if_neg minus]
  unfold readNumber
  split
  · next is_ => exact absurd (List.cons.inj is_).1 minus
  · rfl

end First

section Following

variable {rest : List Char} (stops : Stops rest)

include stops

theorem Stops.startsDigit (cs : List Char) : startsDigit (cs ++ rest) = startsDigit cs := by
  cases cs with
  | cons c cs => rfl
  | nil =>
    cases rest with
    | nil => rfl
    | cons c rest => rcases stops c rfl with rfl | rfl | rfl <;> rfl

theorem Stops.takeDigits (acc count : Nat) (cs : List Char) :
    takeDigits acc count (cs ++ rest) =
      ((takeDigits acc count cs).1, (takeDigits acc count cs).2.1,
        (takeDigits acc count cs).2.2 ++ rest) := by
  induction cs generalizing acc count with
  | nil =>
    cases rest with
    | nil => rfl
    | cons c rest => rcases stops c rfl with rfl | rfl | rfl <;> rfl
  | cons c cs ih =>
    rw [List.cons_append, Json.takeDigits, Json.takeDigits]
    split
    · exact ih _ _
    · rfl

theorem Stops.takeWhile (cs : List Char) :
    (cs ++ rest).takeWhile Char.isDigit = cs.takeWhile Char.isDigit ∧
      (cs ++ rest).dropWhile Char.isDigit = cs.dropWhile Char.isDigit ++ rest := by
  induction cs with
  | nil =>
    cases rest with
    | nil => exact ⟨rfl, rfl⟩
    | cons c rest => rcases stops c rfl with rfl | rfl | rfl <;> exact ⟨rfl, rfl⟩
  | cons c cs ih =>
    cases digit : c.isDigit <;> simp [digit, ih]

theorem Stops.unsignedExponent (negative : Bool) (digits : Nat) (e : Int) (down : Bool)
    (cs : List Char) : unsignedExponent negative digits e down (cs ++ rest) =
      extended rest (unsignedExponent negative digits e down cs) := by
  unfold Json.unsignedExponent
  rw [stops.startsDigit, (stops.takeWhile cs).1, (stops.takeWhile cs).2]
  dsimp only
  split
  · rfl
  split
  · simp only [extended, Option.map_map]
    rfl
  split <;> rfl

theorem Stops.readExponent (negative : Bool) (digits : Nat) (e : Int) (cs : List Char) :
    readExponent negative digits e (cs ++ rest) =
      extended rest (readExponent negative digits e cs) := by
  cases cs with
  | nil =>
    cases rest with
    | nil => rfl
    | cons c rest => rcases stops c rfl with rfl | rfl | rfl <;> rfl
  | cons c cs =>
    rw [List.cons_append, readExponent_cons, readExponent_cons, ← List.cons_append]
    split
    · exact stops.unsignedExponent ..
    split <;> exact stops.unsignedExponent ..

omit stops in
theorem extended_map (o : Option Json) (cs : List Char) :
    o.map (·, cs ++ rest) = extended rest (o.map (·, cs)) := by
  cases o <;> rfl

theorem Stops.readTail (negative : Bool) (digits : Nat) (e : Int) (cs : List Char) :
    readTail negative digits e (cs ++ rest) = extended rest (readTail negative digits e cs) := by
  cases cs with
  | nil =>
    cases rest with
    | nil => exact extended_map (floatOf negative digits e) []
    | cons c rest =>
      rcases stops c rfl with rfl | rfl | rfl <;> exact extended_map (floatOf negative digits e) []
  | cons c cs =>
    rw [List.cons_append, readTail_cons, readTail_cons]
    split
    · exact stops.readExponent ..
    · exact extended_map _ (c :: cs)

theorem Stops.readFraction (negative : Bool) (digits : Nat) (e : Int) (cs : List Char) :
    readFraction negative digits e (cs ++ rest) =
      extended rest (readFraction negative digits e cs) := by
  unfold Json.readFraction
  rw [stops.takeDigits]
  dsimp only
  rw [stops.startsDigit, (stops.takeWhile _).2]
  split
  · rfl
  · exact stops.readTail ..

omit stops in
theorem whole_append (negative : Bool) (digits : Nat) (cs : List Char) :
    whole negative digits (cs ++ rest) = extended rest (whole negative digits cs) := by
  unfold whole
  split
  · rfl
  split <;> rfl

theorem Stops.ending (negative : Bool) (digits : Nat) (cs : List Char) :
    readUnsigned.ending negative digits (cs ++ rest) =
      extended rest (readUnsigned.ending negative digits cs) := by
  cases cs with
  | nil =>
    cases rest with
    | nil => exact whole_append negative digits []
    | cons c rest =>
      rcases stops c rfl with rfl | rfl | rfl <;> exact whole_append negative digits []
  | cons c cs =>
    rw [List.cons_append, ending_cons, ending_cons]
    split
    · exact stops.readFraction ..
    split
    · exact stops.readExponent ..
    · exact whole_append negative digits (c :: cs)

theorem Stops.readLong (negative : Bool) (digits : Nat) (cs : List Char) :
    readLong negative digits (cs ++ rest) = extended rest (readLong negative digits cs) := by
  unfold Json.readLong
  rw [(stops.takeWhile cs).1, (stops.takeWhile cs).2]
  dsimp only
  generalize cs.dropWhile Char.isDigit = left
  cases left with
  | nil =>
    rw [List.nil_append]
    cases rest with
    | nil => exact stops.readTail negative digits _ []
    | cons c rest =>
      rcases stops c rfl with rfl | rfl | rfl <;> exact stops.readTail negative digits _ []
  | cons c left =>
    by_cases point : c = '.'
    · subst point
      exact stops.readFraction ..
    · rw [List.cons_append]
      split
      · next is_ => exact absurd (List.cons.inj is_).1 point
      split
      · next is_ => exact absurd (List.cons.inj is_).1 point
      · exact stops.readTail negative digits _ (c :: left)

theorem Stops.readUnsigned (negative : Bool) (cs : List Char) :
    readUnsigned negative (cs ++ rest) = extended rest (readUnsigned negative cs) := by
  cases cs with
  | nil =>
    cases rest with
    | nil => rfl
    | cons c rest => rcases stops c rfl with rfl | rfl | rfl <;> rfl
  | cons c cs =>
    have taken := stops.takeDigits 0 0 (c :: cs)
    rw [List.cons_append] at taken
    rw [List.cons_append, readUnsigned_cons, readUnsigned_cons, taken]
    dsimp only
    rw [stops.startsDigit, stops.startsDigit]
    split
    · split
      · rfl
      · exact stops.ending ..
    split
    · rfl
    split
    · exact stops.readLong ..
    · exact stops.ending ..

/-- Reading a number leaves what follows it. -/
theorem Stops.readNumber (cs : List Char) :
    readNumber (cs ++ rest) = extended rest (readNumber cs) := by
  cases cs with
  | nil =>
    cases rest with
    | nil => rfl
    | cons c rest => rcases stops c rfl with rfl | rfl | rfl <;> rfl
  | cons c cs =>
    rw [List.cons_append, readNumber_cons, readNumber_cons]
    split
    · exact stops.readUnsigned ..
    · exact stops.readUnsigned false (c :: cs)

end Following

/-! ## Integers -/

/-- Whether a character starts a number. -/
def StartsNumber (c : Char) : Prop := c = '-' ∨ c.isDigit = true

theorem StartsNumber.apart {c d : Char} (h : StartsNumber c) (minus : d ≠ '-')
    (digit : d.isDigit = false) : c ≠ d := by
  rintro rfl
  rcases h with rfl | digit'
  · exact minus rfl
  · rw [digit] at digit'
    cases digit'

theorem le_ofDigitChars (cs : List Char) (acc : Nat) : acc ≤ Nat.ofDigitChars 10 cs acc := by
  induction cs generalizing acc with
  | nil => simp
  | cons c cs ih =>
    rw [Nat.ofDigitChars_cons]
    exact Nat.le_trans (by omega) (ih _)

/-- Digits that form a number that fits are all taken. -/
theorem takeDigits_all {ds : List Char} (digits : ∀ d ∈ ds, d.isDigit = true) (acc count : Nat)
    (fits : Nat.ofDigitChars 10 ds acc < Nat.pow 2 64) :
    takeDigits acc count ds = (Nat.ofDigitChars 10 ds acc, count + ds.length, []) := by
  induction ds generalizing acc count with
  | nil => simp [takeDigits]
  | cons d ds ih =>
    obtain ⟨digit, others⟩ := List.forall_mem_cons.1 digits
    have next : acc * 10 + (d.toNat - 48) = 10 * acc + (d.toNat - '0'.toNat) := by
      rw [Nat.mul_comm]
      rfl
    rw [Nat.ofDigitChars_cons] at fits ⊢
    have small := Nat.lt_of_le_of_lt (le_ofDigitChars ds _) fits
    rw [takeDigits, next, if_pos ⟨digit, small⟩, ih others _ _ fits, List.length_cons]
    simp only [Nat.add_assoc, Nat.add_comm 1]

theorem head_digitChars {n : Nat} (positive : 0 < n) : ∃ d ds, Number.digitChars n = d :: ds ∧
    d ≠ '0' := by
  unfold Number.digitChars
  induction n using Nat.strongRecOn with
  | ind n ih =>
    rw [Nat.toDigits_eq_if (by decide)]
    split
    · next small =>
      refine ⟨_, _, rfl, ?_⟩
      rw [Ne, Nat.digitChar_eq_zero]
      omega
    · obtain ⟨d, ds, first, other⟩ := ih (n / 10) (by omega) (by omega)
      exact ⟨d, _, by rw [first]; rfl, other⟩

theorem digitChars_digit (n : Nat) : ∀ d ∈ Number.digitChars n, d.isDigit = true := fun _ there =>
  Nat.isDigit_of_mem_toDigits (by decide) (by decide) there

/-- The digits of a number that fits read back. -/
theorem readUnsigned_digitChars (negative : Bool) {n : Nat} (fits : n < Nat.pow 2 64) :
    readUnsigned negative (Number.digitChars n) = whole negative n [] := by
  rcases Nat.eq_zero_or_pos n with rfl | positive
  · rfl
  · obtain ⟨d, ds, first, other⟩ := head_digitChars positive
    have digits := digitChars_digit n
    have value : Nat.ofDigitChars 10 (Number.digitChars n) 0 = n := Nat.ofDigitChars_ten_toDigits
    have taken := takeDigits_all digits 0 0 (by rwa [value])
    rw [value] at taken
    rw [first] at digits taken ⊢
    rw [readUnsigned_cons, if_neg other, digits d (.head _), taken]
    rfl

/-- An integer that fits reads back. -/
theorem readNumber_integerChars {n : Int} (low : leastInt ≤ n) (high : n ≤ greatestInt) :
    readNumber (Number.integerChars n) = some (.int n, []) := by
  have fits : n.natAbs ≤ Nat.pow 2 63 := by
    simp only [leastInt, greatestInt, Nat.pow_eq] at low high ⊢
    omega
  have fits' : n.natAbs < Nat.pow 2 64 := Nat.lt_of_le_of_lt fits (by decide)
  unfold Number.integerChars
  split
  · next below =>
    rw [readNumber_cons, if_pos rfl, readUnsigned_digitChars true fits', whole]
    have some_ : ¬(n.natAbs = 0 ∨ n.natAbs > Nat.pow 2 63) := by omega
    have value : -(n.natAbs : Int) = n := by omega
    rw [if_neg some_, if_neg (show ¬(!true) = true by decide), value]
  · next above =>
    have value : (n.natAbs : Int) = n := by omega
    have plain : readNumber (Number.digitChars n.natAbs) =
        readUnsigned false (Number.digitChars n.natAbs) := by
      have digits := digitChars_digit n.natAbs
      cases first : Number.digitChars n.natAbs with
      | nil => rfl
      | cons d ds =>
        rw [first] at digits
        rw [readNumber_cons, if_neg]
        rintro rfl
        cases digits _ (.head _)
    rw [plain, readUnsigned_digitChars false fits', whole, value]
    rfl

theorem integerChars_starts (n : Int) :
    ∃ c cs, Number.integerChars n = c :: cs ∧ StartsNumber c := by
  unfold Number.integerChars
  split
  · exact ⟨'-', _, rfl, .inl rfl⟩
  · have digits := digitChars_digit n.natAbs
    have some_ : Number.digitChars n.natAbs ≠ [] := Nat.toDigits_ne_nil
    obtain ⟨d, ds, first⟩ := List.exists_cons_of_ne_nil some_
    exact ⟨d, ds, first, .inr (digits d (by rw [first]; exact .head _))⟩

/-! ## What is read -/

theorem readNumber_starts {cs : List Char} {v : Json} {rest : List Char}
    (h : readNumber cs = some (v, rest)) : ∃ c cs', cs = c :: cs' ∧ StartsNumber c := by
  cases cs with
  | nil => cases h
  | cons c cs =>
    refine ⟨c, cs, rfl, ?_⟩
    rw [readNumber_cons] at h
    split at h
    · next minus => exact .inl minus
    · rw [readUnsigned_cons] at h
      split at h
      · next zero => exact .inr (by rw [zero]; rfl)
      split at h
      · cases h
      · next digit => exact .inr (by simpa using digit)

/-- Whether a value is a number. -/
inductive IsNumber : Json → Prop where
  | int (n : Int) : IsNumber (.int n)
  | float (x : Float) : IsNumber (.float x)

section Numbers

variable {negative : Bool} {digits : Nat} {e : Int} {cs rest : List Char} {v : Json}

namespace IsNumber

theorem of_floatOf (h : (floatOf negative digits e).map (·, cs) = some (v, rest)) :
    IsNumber v := by
  obtain ⟨v', found, same⟩ := Option.map_eq_some_iff.1 h
  obtain ⟨x, -, rfl⟩ := Option.map_eq_some_iff.1 found
  cases same
  exact .float _

theorem of_unsignedExponent {down : Bool}
    (h : unsignedExponent negative digits e down cs = some (v, rest)) : IsNumber v := by
  unfold unsignedExponent at h
  split at h
  · cases h
  dsimp only at h
  split at h
  · exact of_floatOf h
  split at h
  · cases h
  · cases h
    exact .float _

theorem of_readExponent (h : readExponent negative digits e cs = some (v, rest)) :
    IsNumber v := by
  cases cs with
  | nil => cases h
  | cons c cs =>
    rw [readExponent_cons] at h
    split at h
    · exact of_unsignedExponent h
    split at h <;> exact of_unsignedExponent h

theorem of_readTail (h : readTail negative digits e cs = some (v, rest)) : IsNumber v := by
  cases cs with
  | nil => exact of_floatOf h
  | cons c cs =>
    rw [readTail_cons] at h
    split at h
    · exact of_readExponent h
    · exact of_floatOf h

theorem of_readFraction (h : readFraction negative digits e cs = some (v, rest)) :
    IsNumber v := by
  unfold readFraction at h
  dsimp only at h
  split at h
  · cases h
  · exact of_readTail h

theorem of_whole (h : whole negative digits cs = some (v, rest)) : IsNumber v := by
  unfold whole at h
  split at h
  · cases h
    exact .int _
  split at h
  · cases h
    exact .float _
  · cases h
    exact .int _

theorem of_ending (h : readUnsigned.ending negative digits cs = some (v, rest)) : IsNumber v := by
  cases cs with
  | nil => exact of_whole h
  | cons c cs =>
    rw [ending_cons] at h
    split at h
    · exact of_readFraction h
    split at h
    · exact of_readExponent h
    · exact of_whole h

theorem of_readLong (h : readLong negative digits cs = some (v, rest)) : IsNumber v := by
  unfold readLong at h
  dsimp only at h
  split at h
  · exact of_readFraction h
  · exact of_readTail h

theorem of_readUnsigned (h : readUnsigned negative cs = some (v, rest)) : IsNumber v := by
  cases cs with
  | nil => cases h
  | cons c cs =>
    rw [readUnsigned_cons] at h
    dsimp only at h
    split at h
    · split at h
      · cases h
      · exact of_ending h
    split at h
    · cases h
    split at h
    · exact of_readLong h
    · exact of_ending h

theorem of_readNumber (h : readNumber cs = some (v, rest)) : IsNumber v := by
  cases cs with
  | nil => cases h
  | cons c cs =>
    rw [readNumber_cons] at h
    split at h <;> exact of_readUnsigned h

end IsNumber

end Numbers

end Tasklang.Json
