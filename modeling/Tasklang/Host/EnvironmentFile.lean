import Tasklang.Host.World
import Tasklang.Text.Blank
import Tasklang.Text.Word

/-! # Environment files

A file of lines "name = value". A quoted value may run over several lines, a value outside single
quotes may refer to other names by a dollar sign, and a blank followed by a number sign starts a
comment. Reading stops at the first line that is not well formed, and what was read before it counts.
-/

namespace Tasklang.EnvironmentFile

/-- Where the reader of lines stands: whether the line may end here. -/
inductive Position where
  | complete
  | escape
  | singleQuoted
  | singleQuotedEscape
  | doubleQuoted
  | doubleQuotedEscape
  | blank
  | comment
  deriving DecidableEq, Repr

namespace Position

/-- The position after a character that stands outside quotes. -/
def open_ (c : Char) (otherwise : Position) : Position :=
  if c = '\\' then .escape
  else if c = '"' then .doubleQuoted
  else if c = '\'' then .singleQuoted
  else otherwise

/-- The position after a character. -/
def next (p : Position) (c : Char) : Position :=
  match p with
  | .complete =>
    if Text.isBlank c ∧ c ≠ '\n' ∧ c ≠ '\r' then .blank else open_ c .complete
  | .blank => if c = '#' then .comment else open_ c .complete
  | .escape => .complete
  | .singleQuoted =>
    if c = '\\' then .singleQuotedEscape else if c = '\'' then .complete else .singleQuoted
  | .singleQuotedEscape => .singleQuoted
  | .doubleQuoted =>
    if c = '\\' then .doubleQuotedEscape else if c = '"' then .complete else .doubleQuoted
  | .doubleQuotedEscape => .doubleQuoted
  | .comment => .comment

/-- The position after a line, and what of the line stands before a comment. -/
def scan (p : Position) : List Char → Position × List Char
  | [] => (p, [])
  | c :: cs =>
    match p.next c with
    | .comment => (.comment, [])
    | q =>
      let (end_, kept) := q.scan cs
      (end_, c :: kept)

end Position

/-- A line without its end. -/
def dropLineEnd (cs : List Char) : List Char :=
  match cs.reverse with
  | '\n' :: '\r' :: r => r.reverse
  | '\n' :: r => r.reverse
  | _ => cs

/-- Put lines together where quotes run over their ends. The answer is one entry for each logical
line; the last one is missing when the file ends inside it. -/
def logicalLines : Position → List Char → List (List Char) → List (Option (List Char))
  | p, _, [] => if p = .complete then [] else [none]
  | p, before, line :: rest =>
    if (Text.trimStart (before ++ line)).head? = some '#' then some [] :: logicalLines .complete [] rest
    else match p.scan line with
      | (.complete, kept) => some (dropLineEnd (before ++ kept)) :: logicalLines .complete [] rest
      | (.comment, kept) => some (before ++ kept) :: logicalLines .complete [] rest
      | (q, kept) => logicalLines q (before ++ kept) rest

/-- How a name is being referred to. -/
inductive Reference where
  | none
  /-- After a dollar sign. -/
  | plain (name : List Char)
  /-- After a dollar sign and a brace. -/
  | braced (name : List Char)
  deriving DecidableEq, Repr

/-- The state of reading a value. -/
structure ValueState where
  text : String := ""
  single : Bool := false
  double : Bool := false
  escaped : Bool := false
  /-- Whether a blank has ended the value. -/
  ended : Bool := false
  reference : Reference := .none

/-- The value of a name: a variable of the environment, else what the file gave it. -/
def valueOf (environment file : List (String × String)) (name : String) : String :=
  ((environment.lookup name).or (file.lookup name)).getD ""

/-- The value that was read when nothing comes any more. -/
def ValueState.finish (lookup : String → String) (s : ValueState) : Option String :=
  match s.reference with
  | .braced _ => none
  | .plain name =>
    if s.single || s.double then none else some (s.text ++ lookup (String.ofList name))
  | .none => if s.single || s.double then none else some s.text

/-- Read the characters of a value. -/
def readValue (lookup : String → String) : ValueState → List Char → Option String
  | s, [] => s.finish lookup
  | s, c :: cs =>
    if s.ended then
      if c = ' ' ∨ c = '\t' then readValue lookup s cs
      else if c = '#' then s.finish lookup
      else none
    else if s.escaped then
      if c = 'n' then readValue lookup { s with text := s.text.push '\n', escaped := false } cs
      else if ['\\', '\'', '"', '$', ' '].contains c then
        readValue lookup { s with text := s.text.push c, escaped := false } cs
      else none
    else if s.single then
      if c = '\'' then readValue lookup { s with single := false } cs
      else readValue lookup { s with text := s.text.push c } cs
    else match s.reference with
      | .plain name =>
        if Text.isWordCharacter c then
          readValue lookup { s with reference := .plain (name ++ [c]) } cs
        else if c = '\x7b' ∧ name.isEmpty then
          readValue lookup { s with reference := .braced [] } cs
        else
          let text := s.text ++ lookup (String.ofList name)
          if c = '$' then readValue lookup { s with text, reference := .plain [] } cs
          else readValue lookup { s with text := text.push c, reference := .none } cs
      | .braced name =>
        if c = '\x7d' then
          readValue lookup
            { s with text := s.text ++ lookup (String.ofList name), reference := .none } cs
        else readValue lookup { s with reference := .braced (name ++ [c]) } cs
      | .none =>
        if c = '$' then readValue lookup { s with reference := .plain [] } cs
        else if s.double then
          if c = '"' then readValue lookup { s with double := false } cs
          else if c = '\\' then readValue lookup { s with escaped := true } cs
          else readValue lookup { s with text := s.text.push c } cs
        else if c = '\'' then readValue lookup { s with single := true } cs
        else if c = '"' then readValue lookup { s with double := true } cs
        else if c = '\\' then readValue lookup { s with escaped := true } cs
        else if c = ' ' ∨ c = '\t' then readValue lookup { s with ended := true } cs
        else readValue lookup { s with text := s.text.push c } cs

/-- The name at the start of a line, and the rest. -/
def readName (cs : List Char) : Option (List Char × List Char) :=
  let isNameChar (c : Char) : Bool := c.isAlphanum || c == '_' || c == '.'
  match cs with
  | c :: _ => if c.isAlpha || c == '_' then some (cs.takeWhile isNameChar, cs.dropWhile isNameChar) else none
  | [] => none

/-- The rest after an equal sign. -/
def afterEqual : List Char → Option (List Char)
  | '=' :: r => some r
  | _ => none

/-- The name of a line and what follows its equal sign. The word "export" may stand in front. -/
def readAssignment (cs : List Char) : Option (List Char × List Char) := do
  let (name, rest) ← readName cs
  let rest := Text.trimStart rest
  match afterEqual rest with
  | some value => return (name, value)
  | none =>
    if name = "export".toList then
      let (name, rest) ← readName rest
      let value ← afterEqual (Text.trimStart rest)
      return (name, value)
    else none

/-- What a line says: nothing, or the value of a name. No answer means that it is not well formed. -/
def readLine (lookup : String → String) (line : List Char) : Option (Option (String × String)) :=
  let cs := Text.trimChars line
  if cs.isEmpty || cs.head? = some '#' then some none
  else do
    let (name, rest) ← readAssignment cs
    let rest := Text.trimStart rest
    if rest.isEmpty || rest.head? = some '#' then return some (String.ofList name, "")
    let value ← readValue lookup {} rest
    return some (String.ofList name, value)

/-- Read lines into an environment, where variables that are there already stay. `file` holds what the
file said so far, the latest first. -/
def readLines (environment file : List (String × String)) :
    List (Option (List Char)) → List (String × String)
  | [] => environment
  | none :: _ => environment
  | some line :: rest =>
    match readLine (valueOf environment file) line with
    | none => environment
    | some none => readLines environment file rest
    | some (some (name, value)) =>
      let loaded := if (environment.lookup name).isSome then environment
        else environment ++ [(name, value)]
      readLines loaded ((name, value) :: file) rest

/-- The lines of a file with their ends, up to the first one that is not text. -/
def textLines (contents : Bytes) : List (List Char) × Bool :=
  go [] contents
where
  /-- The lines of a rest; `line` is what was read of the current one, the last byte first. -/
  go (line : Bytes) : Bytes → List (List Char) × Bool
    | [] => if line.isEmpty then ([], true) else finish line ([], true)
    | b :: bs => if b = 0x0A then finish (b :: line) (go [] bs) else go (b :: line) bs
  /-- Put a line in front of others, unless it is not text. -/
  finish (line : Bytes) (rest : List (List Char) × Bool) : List (List Char) × Bool :=
    match Bytes.decode? line.reverse with
    | some text => (text.toList :: rest.1, rest.2)
    | none => ([], false)

/-- The logical lines of a file; the last one is missing when it is not text. -/
def lines (contents : Bytes) : List (Option (List Char)) :=
  let contents := match contents with
    | 0xEF :: 0xBB :: 0xBF :: r => r
    | r => r
  match textLines contents with
  | (ls, true) => logicalLines .complete [] ls
  | (ls, false) => logicalLines .complete [] ls ++ [none]

/-- The environment with the variables of a file. -/
def load (environment : List (String × String)) (contents : Bytes) : List (String × String) :=
  readLines environment [] (lines contents)

end Tasklang.EnvironmentFile

namespace Tasklang.World

/-- The name of the environment file of a directory. -/
def environmentFile : String := ".env"

/-- The world with the variables of the environment file, if the current directory has one. -/
def loadEnvironment (w : World) : World :=
  match w.files.read w.cwd environmentFile with
  | .ok contents => { w with environment := EnvironmentFile.load w.environment contents }
  | .error _ => w

/-- What the system is: its platform, architecture and family. -/
def system : List (String × String) :=
  [("platform", "linux"), ("arch", "x86_64"), ("family", "unix")]

end Tasklang.World
