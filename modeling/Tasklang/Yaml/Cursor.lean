/-! # Reading positions in YAML text

A cursor is what is left of a text with the line and the column at which it stands. Lines end at a
line feed, a return, both together, or one of the three Unicode line ends.
-/

namespace Tasklang.Yaml

/-- Whether a character ends a line. -/
def isBreak (c : Char) : Bool :=
  c == '\n' || c == '\r' || c == '\u0085' || c == '\u2028' || c == '\u2029'

/-- Whether a character is a space or a tab. -/
def isSpaceOrTab (c : Char) : Bool := c == ' ' || c == '\t'

/-- Whether a text is at its end or starts with a space, a tab or a line end. -/
def startsBlank : List Char → Bool
  | [] => true
  | c :: _ => isSpaceOrTab c || isBreak c

/-- Whether a text is at its end or starts with a line end. -/
def startsBreak : List Char → Bool
  | [] => true
  | c :: _ => isBreak c

/-- Whether a character may stand in the name of an anchor. -/
def isWordChar (c : Char) : Bool := c.isAlphanum || c == '-' || c == '_'

/-- Whether a character may stand in a text at all. -/
def isAllowed (c : Char) : Bool :=
  let n := c.toNat
  n == 0x09 || n == 0x0A || n == 0x0D || (0x20 ≤ n && n ≤ 0x7E) || n == 0x85
    || (0xA0 ≤ n && n ≤ 0xD7FF) || (0xE000 ≤ n && n ≤ 0xFFFD) || 0x10000 ≤ n

/-- The rest of a text and where it starts. -/
structure Cursor where
  rest : List Char
  index : Nat := 0
  line : Nat := 0
  column : Nat := 0
  deriving Repr, Inhabited

namespace Cursor

/-- Go over a number of characters that end no line. -/
def skip (c : Cursor) (n : Nat) : Cursor :=
  { c with rest := c.rest.drop n, index := c.index + n, column := c.column + n }

/-- Go over the characters with a property, which line ends must not have. -/
def skipWhile (c : Cursor) (p : Char → Bool) : Cursor := c.skip (c.rest.takeWhile p).length

/-- Go over the rest of the line. -/
def skipComment (c : Cursor) : Cursor := c.skipWhile fun x => !isBreak x

/-- Go over a line end and give the text that stands for it. -/
def readBreak (c : Cursor) : String × Cursor :=
  let next (text : String) (n : Nat) : String × Cursor :=
    (text, ⟨c.rest.drop n, c.index + n, c.line + 1, 0⟩)
  match c.rest with
  | '\r' :: '\n' :: _ => next "\n" 2
  | x :: _ =>
    if x = '\n' ∨ x = '\r' ∨ x = '\u0085' then next "\n" 1
    else if isBreak x then next (String.ofList [x]) 1
    else ("", c)
  | [] => ("", c)

/-- Go over a line end, if there is one. -/
def skipBreak (c : Cursor) : Cursor := c.readBreak.2

/-- Whether a line starts here with a mark that separates documents. -/
def atDocumentMark (c : Cursor) : Bool :=
  c.column == 0 && match c.rest with
    | '-' :: '-' :: '-' :: r => startsBlank r
    | '.' :: '.' :: '.' :: r => startsBlank r
    | _ => false

end Cursor

end Tasklang.Yaml
