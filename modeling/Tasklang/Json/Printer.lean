import Tasklang.Json.Basic
import Tasklang.Number.Written

/-! # Structured values as text

The compact text of a value: no spaces, entries in order, doubles with the fewest digits that read
back. A double without digits is written as null.
-/

namespace Tasklang.Json

/-- The hexadecimal digits of a small number, four of them. -/
def hex4 (n : Nat) : List Char := Number.padZeros 4 (Nat.toDigits 16 n)

/-- One character inside a quoted text. -/
def printChar (c : Char) : List Char :=
  if c = '"' then ['\\', '"']
  else if c = '\\' then ['\\', '\\']
  else if c = '\n' then ['\\', 'n']
  else if c = '\r' then ['\\', 'r']
  else if c = '\t' then ['\\', 't']
  else if c.toNat = 8 then ['\\', 'b']
  else if c.toNat = 12 then ['\\', 'f']
  else if c.toNat < 0x20 then '\\' :: 'u' :: hex4 c.toNat
  else [c]

/-- A text between double quotes. -/
def printText (s : String) : List Char := '"' :: s.toList.flatMap printChar ++ ['"']

/-- A double. -/
def printFloat (x : Float) : List Char :=
  if Number.isFinite x then Number.dataChars x else ['n', 'u', 'l', 'l']

mutual

/-- The characters of a value. -/
def printChars : Json → List Char
  | .null => ['n', 'u', 'l', 'l']
  | .bool true => ['t', 'r', 'u', 'e']
  | .bool false => ['f', 'a', 'l', 's', 'e']
  | .int n => Number.integerChars n
  | .float x => printFloat x
  | .str s => printText s
  | .arr items => '[' :: printItems items ++ [']']
  | .obj entries => '\x7b' :: printEntries entries ++ ['\x7d']

/-- The values of a sequence, separated by commas. -/
def printItems : List Json → List Char
  | [] => []
  | [v] => printChars v
  | v :: vs => printChars v ++ ',' :: printItems vs

/-- The entries of a mapping, separated by commas. -/
def printEntries : List (String × Json) → List Char
  | [] => []
  | [(k, v)] => printText k ++ ':' :: printChars v
  | (k, v) :: es => printText k ++ ':' :: printChars v ++ ',' :: printEntries es

end

/-- The text of a value. -/
def print (v : Json) : String := String.ofList (printChars v)

/-- A value as part of a text: a text stands for itself, anything else for its notation. -/
def stringify : Json → String
  | .str s => s
  | v => v.print

end Tasklang.Json
