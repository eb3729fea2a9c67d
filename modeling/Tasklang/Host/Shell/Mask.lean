/-! # Masks of rights

The rights that new files do not get: three bits, for reading, writing and running, of each of the
owner, the group and the others. A mask is written in octal, or by the rights that it leaves.
-/

namespace Tasklang.Shell.Mask

/-- All rights. -/
def all : Nat := 0o777

/-- A mask with four octal digits. -/
def octal (mask : Nat) : String :=
  let digits := Nat.toDigits 8 mask
  String.ofList (List.replicate (4 - digits.length) '0' ++ digits)

/-- The letters of rights. -/
def rights : List (Char × Nat) := [('r', 4), ('w', 2), ('x', 1)]

/-- Who has rights, by letter and by the place of the bits. -/
def holders : List (Char × Nat) := [('u', 64), ('g', 8), ('o', 1)]

/-- The rights that a mask leaves, in letters. -/
def symbolic (mask : Nat) : String :=
  let left := all - mask % (all + 1)
  ",".intercalate (holders.map fun (holder, unit) =>
    String.ofList (holder :: '=' :: (rights.filter fun (_, bit) => left / unit / bit % 2 = 1).map (·.1)))

/-- The mask of octal digits. -/
def ofOctal? (text : String) : Option Nat :=
  text.toList.foldlM (fun n c => if '0' ≤ c ∧ c < '8' then some (n * 8 + (c.toNat - 48)) else none) 0

/-- The bits that letters of rights stand for; a letter of a holder stands for the rights that this
one has, and a capital letter for running if anyone may. The rights that no mask takes away count as
none. -/
def bits? (left : Nat) : List Char → Option Nat
  | [] => some 0
  | c :: cs => do
    let bit ←
      if c = 's' ∨ c = 't' then some 0
      else if c = 'X' then some (if left &&& 0o111 = 0 then 0 else 1)
      else (rights.lookup c).or ((holders.lookup c).map fun unit => left / unit % 8)
    return bit ||| (← bits? left cs)

/-- Whether a character is the sign of a change. -/
def isSign (c : Char) : Bool := c == '+' || c == '-' || c == '='

/-- Rights after a change by a sign. -/
def change (left units bits : Nat) : Char → Nat
  | '+' => left ||| units * bits
  | '-' => left &&& (all ^^^ (units * bits))
  | _ => (left &&& (all ^^^ (units * 7))) ||| units * bits

/-- Rights after the changes that follow who they are for. -/
def changes? (units : Nat) : Nat → Nat → List Char → Option Nat
  | 0, _, _ => none
  | _ + 1, left, [] => some left
  | n + 1, left, sign :: cs => do
    if !isSign sign then none
    let letters := cs.takeWhile fun c => !isSign c
    let bits ← bits? left letters
    changes? units n (change left units bits sign) (cs.drop letters.length)

/-- Rights after one clause. -/
def clause? (left : Nat) (text : String) : Option Nat :=
  let who := text.toList.takeWhile fun c => c == 'a' || (holders.lookup c).isSome
  let rest := text.toList.drop who.length
  let units :=
    if who.isEmpty || who.contains 'a' then 0o111
    else (holders.filter fun (c, _) => who.contains c).foldl (fun n (_, unit) => n + unit) 0
  if text.isEmpty then none else changes? units (rest.length + 1) left rest

/-- The mask after a change that clauses describe. -/
def change? (mask : Nat) (text : String) : Option Nat := do
  let left ← (text.splitOn ",").foldlM clause? (all - mask)
  return all - left

end Tasklang.Shell.Mask
