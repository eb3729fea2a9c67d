import Tasklang.Host.FileSystem

/-! # File name patterns

A pattern is matched piece by piece. In a piece, a question mark stands for any character, an asterisk
for any text, and brackets for a character of a set or, after an exclamation mark, outside it. A piece
of two asterisks stands for any number of directories.
-/

namespace Tasklang.Glob

/-- A part of a piece. -/
inductive Token where
  | char (c : Char)
  | anyChar
  | anyText
  /-- A character in one of some ranges. -/
  | within (ranges : List (Char × Char))
  | outside (ranges : List (Char × Char))
  deriving DecidableEq, Repr

/-- A piece of a pattern between slashes. -/
inductive Piece where
  | directories
  | name (tokens : List Token)
  deriving DecidableEq, Repr

/-- The ranges that the inside of brackets lists. -/
def ranges : List Char → List (Char × Char)
  | lo :: '-' :: hi :: r => (lo, hi) :: ranges r
  | c :: r => (c, c) :: ranges r
  | [] => []

/-- The inside of brackets that hold at least one character, and what follows them. -/
def insideBrackets : List Char → Option (List Char × List Char)
  | first :: r =>
    match r.dropWhile (· != ']') with
    | _ :: rest => some (first :: r.takeWhile (· != ']'), rest)
    | [] => none
  | [] => none

/-- The tokens of a piece; `fuel` bounds its length. More than one asterisk in a row is an error. -/
def tokens : Nat → List Char → Option (List Token)
  | 0, _ => some []
  | fuel + 1, cs =>
    match cs with
    | [] => some []
    | '?' :: r => (tokens fuel r).map (.anyChar :: ·)
    | '*' :: '*' :: _ => none
    | '*' :: r => (tokens fuel r).map (.anyText :: ·)
    | '[' :: '!' :: r => do
      let (inside, rest) ← insideBrackets r
      return .outside (ranges inside) :: (← tokens fuel rest)
    | '[' :: r => do
      let (inside, rest) ← insideBrackets r
      return .within (ranges inside) :: (← tokens fuel rest)
    | c :: r => (tokens fuel r).map (.char c :: ·)

/-- The piece of a text. -/
def piece? (text : String) : Option Piece :=
  if text = "**" then some .directories
  else (tokens (text.toList.length + 1) text.toList).map .name

/-- Whether a set of ranges has a character. -/
def inRanges (rs : List (Char × Char)) (c : Char) : Bool := rs.any fun (lo, hi) => lo ≤ c && c ≤ hi

/-- Whether a token stands for a character. -/
def Token.matchesChar (t : Token) (c : Char) : Bool :=
  match t with
  | .char d => c == d
  | .anyChar => true
  | .anyText => false
  | .within rs => inRanges rs c
  | .outside rs => !inRanges rs c

/-- The only character that a token stands for, if it is written out. -/
def Token.char? : Token → Option Char
  | .char c => some c
  | _ => none

/-- Whether tokens stand for a name. -/
def matchesName : List Token → List Char → Bool
  | [], cs => cs.isEmpty
  | .anyText :: ts, cs => anyRest cs (matchesName ts)
  | t :: ts, c :: cs => t.matchesChar c && matchesName ts cs
  | _ :: _, [] => false
where
  /-- Whether some end of a list of characters has a property. -/
  anyRest (cs : List Char) (p : List Char → Bool) : Bool := p cs || match cs with
    | [] => false
    | _ :: r => anyRest r p

/-- Whether a piece stands for a name. -/
def Piece.matchesName (p : Piece) (name : String) : Bool :=
  match p with
  | .directories => true
  | .name ts => Glob.matchesName ts name.toList

/-- The name that a piece without wildcards is. -/
def Piece.literal? : Piece → Option String
  | .directories => none
  | .name ts => (ts.mapM Token.char?).map String.ofList

/-- Whether a piece starts with a dot that is written out. -/
def Piece.startsWithDot : Piece → Bool
  | .name (.char '.' :: _) => true
  | _ => false

/-- Whether a text has wildcards. -/
def isPattern (text : String) : Bool := text.toList.any fun c => c == '*' || c == '?' || c == '['

/-- The pattern that matches just one text. -/
def escape (text : String) : String :=
  String.ofList (text.toList.flatMap fun c =>
    if c = '?' ∨ c = '*' ∨ c = '[' ∨ c = ']' then ['[', c, ']'] else [c])

/-- The pieces of an absolute pattern. -/
def parse? (pattern : String) : Option (List Piece) :=
  let texts := Text.split '/' (String.ofList (pattern.toList.drop 1))
  let texts := if texts.getLast? = some "" then texts.dropLast else texts
  texts.mapM piece?

/-! ## Search -/

/-- The order of names in a directory: by their bytes. -/
def nameLe (a b : String) : Bool := !Bytes.lt (Bytes.ofString b) (Bytes.ofString a)

/-- Names in order with another one put among them. -/
def insertName (name : String) : List String → List String
  | [] => [name]
  | first :: rest =>
    if nameLe name first then name :: first :: rest else first :: insertName name rest

/-- The names in the directory at a path, in order. -/
def namesAt (fs : FileSystem) (path : String) : List String :=
  match fs.resolve [] path with
  | .ok place => (fs.children place).foldr insertName []
  | .error _ => []

/-- Whether a path names something. -/
def exists_ (fs : FileSystem) (path : String) : Bool :=
  match fs.stat [] path with
  | .ok _ => true
  | .error _ => false

mutual

/-- The paths below a path that match pieces. `fuel` bounds how deep the search goes. -/
def below (fs : FileSystem) : Nat → String → List Piece → List String
  | 0, _, _ => []
  | _ + 1, path, [] => [path]
  | n + 1, path, p :: ps =>
    let isDirectory := fs.isDirectory [] path
    match p.literal? with
    | some name =>
      let next := Path.join path name
      let found := if name = "." ∨ name = ".." then isDirectory else exists_ fs next
      if found then below fs n next ps else []
    | none =>
      if isDirectory then
        let specials := if p.startsWithDot then ["..", "."].filter p.matchesName else []
        (specials.flatMap fun name => below fs n (Path.join path name) ps)
          ++ (namesAt fs path).flatMap fun name => at_ fs n (Path.join path name) name p ps
      else []

/-- The paths at and below an entry of a directory: the entry is matched against a piece, and what is
below it against the others. -/
def at_ (fs : FileSystem) : Nat → String → String → Piece → List Piece → List String
  | 0, _, _, _, _ => []
  | n + 1, path, name, p, ps =>
    match p with
    | .directories =>
      let ps := ps.dropWhile (· == .directories)
      let deeper := if fs.isDirectory [] path then below fs n path (.directories :: ps) else []
      match ps with
      | [] => if fs.isDirectory [] path then path :: deeper else []
      | q :: qs => at_ fs n path name q qs ++ deeper
    | .name ts =>
      if !matchesName ts name.toList then []
      else match ps with
        | [] => [path]
        | _ => below fs n path ps

end

/-- The paths that match an absolute pattern, in the order of the names in each directory; no answer
for a pattern that is not well formed. A pattern that ends in a slash matches directories only. -/
def search (fs : FileSystem) (pattern : String) : Option (List String) := do
  let pieces ← parse? pattern
  let fuel := 2 * (pieces.length + 1) * (fs.entries.length + 2)
  let found := below fs fuel "/" pieces
  return if pattern.endsWith "/" then found.filter (fs.isDirectory []) else found

end Tasklang.Glob
