/-! # Shell commands

What a script of the shell is made of. A word is a list of pieces; words and redirections make
simple commands, and commands are put together by sequences, conditions and loops. Substitutions
hold commands in turn, so all of it is one definition.
-/

namespace Tasklang.Shell

/-- How a file is written. -/
inductive Writing where
  /-- From its start, unless files that exist are to be kept. -/
  | create
  /-- From its start. -/
  | replace
  /-- After what is there. -/
  | append
  deriving DecidableEq, Repr

mutual

/-- A piece of a word. -/
inductive Piece where
  /-- Text that may be a pattern. -/
  | plain (text : List Char)
  /-- Text that stands for itself. -/
  | quoted (text : List Char)
  /-- What a parameter stands for. -/
  | parameter (inQuotes : Bool) (name : String) (form : Form)
  /-- What commands write. -/
  | output (inQuotes : Bool) (body : Command)
  /-- The value of an arithmetic expression. -/
  | sum (inQuotes : Bool) (expression : List Piece)
  /-- A substitution that cannot be made. -/
  | invalid

/-- What is asked of a parameter. When `orEmpty`, an empty parameter counts as unset. -/
inductive Form where
  | value
  | length
  /-- A word in place of an unset parameter. -/
  | fallback (orEmpty : Bool) (word : List Piece)
  /-- A word in place of an unset parameter, which it becomes the value of. -/
  | assign (orEmpty : Bool) (word : List Piece)
  /-- A parameter that must be set, with the complaint if it is not. -/
  | demand (orEmpty : Bool) (word : List Piece)
  /-- A word in place of a parameter that is set. -/
  | alternative (orEmpty : Bool) (word : List Piece)
  /-- The value without what a pattern matches at its start or end. -/
  | strip (atEnd longest : Bool) (pattern : List Piece)

/-- Where a stream of a command leads. -/
inductive Redirection where
  /-- A stream reads a file, which is made when it is `missing`. -/
  | input (stream : Nat) (missing : Bool) (path : List Piece)
  /-- A stream reads a text of the script. -/
  | document (stream : Nat) (text : List Piece)
  /-- A stream goes to a file. -/
  | output (stream : Nat) (writing : Writing) (path : List Piece)
  /-- A stream goes where another does, or nowhere. -/
  | duplicate (stream : Nat) (other : Option Nat)

/-- A command. -/
inductive Command where
  | nothing
  /-- A program, a function or a built-in command, with assignments before it. -/
  | simple (line : Nat) (assignments : List (String × List Piece)) (words : List (List Piece))
    (redirections : List Redirection)
  /-- The definition of a function. -/
  | define (name : String) (body : Command)
  | redirected (body : Command) (redirections : List Redirection)
  /-- A command that keeps its changes to itself. -/
  | subshell (body : Command)
  | background (body : Command)
  /-- Commands of which each reads what the one before writes. -/
  | pipeline (stages : List Command)
  | negation (body : Command)
  /-- The second command runs when the first succeeds. -/
  | both (first second : Command)
  /-- The second command runs when the first fails. -/
  | either (first second : Command)
  | sequence (first second : Command)
  | conditional (condition yes no : Command)
  /-- A body that runs as long as a condition succeeds, or fails when `untilTrue`. -/
  | loop (untilTrue : Bool) (condition body : Command)
  /-- A body that runs for every field of words. -/
  | forEach (name : String) (words : List (List Piece)) (body : Command)
  /-- The first command with a pattern that matches a word. -/
  | choice (word : List Piece) (branches : List (List (List Piece) × Command))

end

instance : Inhabited Piece := ⟨.invalid⟩

instance : Inhabited Command := ⟨.nothing⟩

/-- A word of a script. -/
abbrev Word := List Piece

/-- What a word says when nothing in it is quoted or replaced. -/
def Word.spelling? : Word → Option (List Char)
  | [] => some []
  | .plain text :: rest => (Word.spelling? rest).map (text ++ ·)
  | _ :: _ => none

/-- A word with a character in front. -/
def Word.consPlain (c : Char) : Word → Word
  | .plain text :: rest => .plain (c :: text) :: rest
  | w => .plain [c] :: w

/-- A word with a character in front that stands for itself. -/
def Word.consQuoted (c : Char) : Word → Word
  | .quoted text :: rest => .quoted (c :: text) :: rest
  | w => .quoted [c] :: w

/-- Whether a character may start the name of a variable. -/
def isNameStart (c : Char) : Bool := c.isAlpha || c == '_'

/-- Whether a character belongs to the name of a variable. -/
def isNameChar (c : Char) : Bool := c.isAlphanum || c == '_'

/-- Whether a text is the name of a variable. -/
def isName (cs : List Char) : Bool :=
  match cs with
  | [] => false
  | c :: rest => isNameStart c && rest.all isNameChar

/-- The name and the value of an assignment, when a word is one. -/
def Word.assignment? : Word → Option (String × Word)
  | .plain text :: rest =>
    let name := text.takeWhile (· != '=')
    match text.drop name.length with
    | _ :: value =>
      if isName name then
        some (String.ofList name, if value.isEmpty then rest else .plain value :: rest)
      else none
    | [] => none
  | _ => none

/-- Text with the home directory in place of a tilde that stands alone before one of the characters
of `ends`, at the start and, in an assignment, after colons; `isLast` tells whether the text ends its
word. -/
def Word.withHomeIn (home : List Char) (inAssignment isLast : Bool) :
    Bool → List Char → List Char → Word
  | _, plain, [] => if plain.isEmpty then [] else [.plain plain.reverse]
  | starts, plain, c :: cs =>
    let ended := match cs with
      | [] => isLast
      | d :: _ => d == '/' || (inAssignment && d == ':')
    if starts && c == '~' && ended then
      (if plain.isEmpty then [] else [.plain plain.reverse])
        ++ .quoted home :: withHomeIn home inAssignment isLast false [] cs
    else withHomeIn home inAssignment isLast (inAssignment && c == ':') (c :: plain) cs

/-- A word with the home directory in place of its tildes, if there is one. -/
def Word.withHome (home : Option String) (inAssignment : Bool) (w : Word) : Word :=
  match home with
  | none => w
  | some home => from_ home.toList true w
where
  /-- The pieces of the word; a tilde counts where `starts` tells that a part of it starts. -/
  from_ (home : List Char) (starts : Bool) : Word → Word
    | .plain text :: rest =>
      withHomeIn home inAssignment rest.isEmpty starts [] text
        ++ from_ home (inAssignment && text.getLast? == some ':') rest
    | p :: rest => p :: (if inAssignment then from_ home false rest else rest)
    | [] => []

end Tasklang.Shell
