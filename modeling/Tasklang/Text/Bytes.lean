/-! # Byte strings

Expressions work on byte strings, while everything around them is Unicode text. This module
holds both directions: the UTF-8 bytes of a text, the text of a byte string when it has one, and
the lossy text in which every maximal malformed piece becomes one replacement character.
-/

namespace Tasklang

/-- A string of bytes. -/
abbrev Bytes := List UInt8

namespace Bytes

/-- The UTF-8 bytes of a list of characters. -/
def ofChars (cs : List Char) : Bytes := cs.flatMap String.utf8EncodeChar

/-- The UTF-8 bytes of a text. -/
def ofString (s : String) : Bytes := ofChars s.toList

@[simp] theorem ofChars_nil : ofChars [] = [] := rfl

@[simp] theorem ofChars_cons (c : Char) (cs : List Char) :
    ofChars (c :: cs) = String.utf8EncodeChar c ++ ofChars cs := by
  simp [ofChars]

@[simp] theorem ofChars_append (as bs : List Char) :
    ofChars (as ++ bs) = ofChars as ++ ofChars bs := by
  simp [ofChars]

@[simp] theorem ofString_append (s t : String) : ofString (s ++ t) = ofString s ++ ofString t := by
  simp [ofString]

/-- How many continuation bytes follow a lead byte, and the bounds of the first of them.
The bounds rule out overlong forms, surrogates and code points above the last one. -/
def lead (b : UInt8) : Option (Nat × UInt8 × UInt8) :=
  if b < 0xC2 then none
  else if b < 0xE0 then some (1, 0x80, 0xBF)
  else if b = 0xE0 then some (2, 0xA0, 0xBF)
  else if b = 0xED then some (2, 0x80, 0x9F)
  else if b < 0xF0 then some (2, 0x80, 0xBF)
  else if b = 0xF0 then some (3, 0x90, 0xBF)
  else if b < 0xF4 then some (3, 0x80, 0xBF)
  else if b = 0xF4 then some (3, 0x80, 0x8F)
  else none

/-- Whether a byte continues a multi-byte character. -/
def isTail (b : UInt8) : Bool := 0x80 ≤ b && b ≤ 0xBF

/-- The character of a payload gathered from lead and continuation bytes. -/
def charOf (n : Nat) : Char := Char.ofNat n

/-- The six payload bits of a continuation byte. -/
def tailBits (b : UInt8) : Nat := b.toNat % 64

/-- Read a byte string as characters, a maximal malformed piece counting as one `none`. -/
def units : Bytes → List (Option Char)
  | [] => []
  | b0 :: r0 =>
    if b0 < 0x80 then some (charOf b0.toNat) :: units r0
    else match lead b0 with
      | none => none :: units r0
      | some (n, lo, hi) =>
        match r0 with
        | [] => [none]
        | b1 :: r1 =>
          if !(lo ≤ b1 && b1 ≤ hi) then none :: units (b1 :: r1)
          else if n = 1 then
            some (charOf (b0.toNat % 32 * 64 + tailBits b1)) :: units r1
          else match r1 with
            | [] => [none]
            | b2 :: r2 =>
              if !isTail b2 then none :: units (b2 :: r2)
              else if n = 2 then
                some (charOf ((b0.toNat % 16 * 64 + tailBits b1) * 64 + tailBits b2)) :: units r2
              else match r2 with
                | [] => [none]
                | b3 :: r3 =>
                  if !isTail b3 then none :: units (b3 :: r3)
                  else
                    some (charOf (((b0.toNat % 8 * 64 + tailBits b1) * 64 + tailBits b2) * 64
                      + tailBits b3)) :: units r3

/-- The text of a byte string, if it is well-formed UTF-8. -/
def decode? (bs : Bytes) : Option String := (units bs).mapM id |>.map String.ofList

/-- The text of a byte string, malformed pieces shown as U+FFFD. -/
def decodeLossy (bs : Bytes) : String :=
  String.ofList ((units bs).map fun u => u.getD '\uFFFD')

/-- Lexicographic order of byte strings. -/
def lt : Bytes → Bytes → Bool
  | [], [] => false
  | [], _ :: _ => true
  | _ :: _, [] => false
  | a :: as, b :: bs => if a < b then true else if b < a then false else lt as bs

/-- Whether a byte is an ASCII letter. -/
def isLetter (b : UInt8) : Bool := (0x41 ≤ b && b ≤ 0x5A) || (0x61 ≤ b && b ≤ 0x7A)

/-- Whether a byte is an ASCII digit. -/
def isDigit (b : UInt8) : Bool := 0x30 ≤ b && b ≤ 0x39

/-- Whether a byte is an ASCII space, tab, line feed, vertical tab, form feed or return. -/
def isSpace (b : UInt8) : Bool := b == 0x20 || (0x09 ≤ b && b ≤ 0x0D)

/-- The value of a hexadecimal digit. -/
def hexValue? (b : UInt8) : Option Nat :=
  if isDigit b then some (b.toNat - 0x30)
  else if 0x41 ≤ b && b ≤ 0x46 then some (b.toNat - 0x37)
  else if 0x61 ≤ b && b ≤ 0x66 then some (b.toNat - 0x57)
  else none

/-- ASCII lower case, other bytes unchanged. -/
def toLower (b : UInt8) : UInt8 := if 0x41 ≤ b && b ≤ 0x5A then b + 0x20 else b

/-- ASCII upper case, other bytes unchanged. -/
def toUpper (b : UInt8) : UInt8 := if 0x61 ≤ b && b ≤ 0x7A then b - 0x20 else b

end Bytes

end Tasklang
