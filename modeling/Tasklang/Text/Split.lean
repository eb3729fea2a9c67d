/-! # Split texts

The pieces of a text between separators. There is always one piece more than there are separators,
so that an empty text has one empty piece.
-/

namespace Tasklang.Text

/-- The pieces of a list of characters. -/
def splitChars (sep : Char) : List Char → List (List Char)
  | [] => [[]]
  | c :: cs =>
    let pieces := splitChars sep cs
    if c = sep then [] :: pieces else (c :: pieces.headD []) :: pieces.tail

/-- The pieces of a text. -/
def split (sep : Char) (s : String) : List String := (splitChars sep s.toList).map String.ofList

/-- Whether a text has a character. -/
def has (c : Char) (s : String) : Bool := s.toList.contains c

end Tasklang.Text
