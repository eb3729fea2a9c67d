import Tasklang.Text.Graphic

/-! # Quoted text in messages

How a text is shown in diagnostics: between double quotes, with the usual short escapes, and
every character that is not graphic as its code point in braces.
-/

namespace Tasklang.Text

/-- The digits of a number in base sixteen, lower case, most significant first. -/
def hexDigits (n : Nat) : List Char := (Nat.toDigits 16 n)

/-- One character between double quotes. -/
def quotedChar (c : Char) : List Char :=
  if c = '"' then ['\\', '"']
  else if c = '\\' then ['\\', '\\']
  else if c = '\n' then ['\\', 'n']
  else if c = '\r' then ['\\', 'r']
  else if c = '\t' then ['\\', 't']
  else if c = '\x00' then ['\\', '0']
  else if isGraphic c then [c]
  else '\\' :: 'u' :: '\x7b' :: hexDigits c.toNat ++ ['\x7d']

/-- A text between double quotes, as messages show it. -/
def quoted (s : String) : String :=
  String.ofList ('"' :: s.toList.flatMap quotedChar ++ ['"'])

end Tasklang.Text
