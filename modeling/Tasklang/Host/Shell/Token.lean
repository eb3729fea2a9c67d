import Tasklang.Host.Shell.Syntax

/-! # Tokens of scripts

The tokens that a script consists of, the mistakes that it can have, and the regions in which words
are read. Words are keywords only where a command may start; everywhere else they are plain words.
-/

namespace Tasklang.Shell

/-- Why a script cannot be read. -/
inductive SyntaxError where
  /-- A token stands where it cannot, perhaps in place of another. -/
  | unexpected (token : String) (expected : Option String)
  | unterminatedQuotes
  | unterminatedBackquotes
  | unterminatedBraces
  | unterminatedSum
  | loopVariable
  | functionName
  | streamNumber
  deriving DecidableEq, Repr

/-- The message of an error. -/
def SyntaxError.message : SyntaxError → String
  | .unexpected token none => token ++ " unexpected"
  | .unexpected token (some expected) => token ++ " unexpected (expecting \"" ++ expected ++ "\")"
  | .unterminatedQuotes => "Unterminated quoted string"
  | .unterminatedBackquotes => "EOF in backquote substitution"
  | .unterminatedBraces => "Missing '\x7d'"
  | .unterminatedSum => "Missing '))'"
  | .loopVariable => "Bad for loop variable"
  | .functionName => "Bad function name"
  | .streamNumber => "Bad fd number"

/-- How a redirection is written. -/
inductive Sign where
  | input
  | update
  | output
  | replace
  | append
  | document
  | inputFrom
  | outputTo
  deriving DecidableEq, Repr

/-- A token of a script. -/
inductive Token where
  | finish
  | newline
  | semicolon
  | background
  | and
  | or
  | pipe
  | opening
  | closing
  | endOfBranch
  | word (w : Word)
  | redirection (stream : Option Nat) (sign : Sign)

/-- The words that have a meaning of their own where a command may start. -/
def keywords : List String :=
  ["!", "case", "do", "done", "elif", "else", "esac", "fi", "for", "if", "in", "then", "until",
   "while", "\x7b", "\x7d"]

/-- The commands of the shell itself whose mistakes end it, and whose assignments stay. No function can
have their names. -/
def specialCommands : List String :=
  [".", ":", "break", "continue", "eval", "exec", "exit", "export", "local", "readonly", "return",
   "set", "shift", "times", "trap", "unset"]

/-- The keywords that end a list of commands. -/
def closingKeywords : List String :=
  ["do", "done", "elif", "else", "esac", "fi", "then", "\x7d"]

namespace Token

/-- The text of a word in which nothing is quoted or replaced. -/
def spelling? : Token → Option String
  | .word w => w.spelling?.map String.ofList
  | _ => none

/-- Whether a token is a certain word. -/
def spells (t : Token) (keyword : String) : Bool := t.spelling? == some keyword

/-- Whether a token ends a list of commands. -/
def endsList : Token → Bool
  | .finish | .closing | .endOfBranch => true
  | t => match t.spelling? with
    | some s => closingKeywords.contains s
    | none => false

/-- How messages call a token. -/
def name : Token → String
  | .finish => "end of file"
  | .newline => "newline"
  | .semicolon => "\";\""
  | .background => "\"&\""
  | .and => "\"&&\""
  | .or => "\"||\""
  | .pipe => "\"|\""
  | .opening => "\"(\""
  | .closing => "\")\""
  | .endOfBranch => "\";;\""
  | .redirection .. => "redirection"
  | t@(.word _) => match t.spelling? with
    | some s => if keywords.contains s then "\"" ++ s ++ "\"" else "word"
    | none => "word"

end Token

/-- The sign of a redirection at the start, and its length. -/
def Sign.read? : List Char → Option (Sign × Nat)
  | '>' :: '>' :: _ => some (.append, 2)
  | '>' :: '&' :: _ => some (.outputTo, 2)
  | '>' :: '|' :: _ => some (.replace, 2)
  | '>' :: _ => some (.output, 1)
  | '<' :: '<' :: _ => some (.document, 2)
  | '<' :: '&' :: _ => some (.inputFrom, 2)
  | '<' :: '>' :: _ => some (.update, 2)
  | '<' :: _ => some (.input, 1)
  | _ => none

/-- The token at the start that is no word, and its length. -/
def Token.ofSymbol? (cs : List Char) : Option (Token × Nat) :=
  match cs with
  | '\n' :: _ => some (.newline, 1)
  | '&' :: '&' :: _ => some (.and, 2)
  | '&' :: _ => some (.background, 1)
  | '|' :: '|' :: _ => some (.or, 2)
  | '|' :: _ => some (.pipe, 1)
  | ';' :: ';' :: _ => some (.endOfBranch, 2)
  | ';' :: _ => some (.semicolon, 1)
  | '(' :: _ => some (.opening, 1)
  | ')' :: _ => some (.closing, 1)
  | c :: rest =>
    if c.isDigit then
      (Sign.read? rest).map fun (s, k) => (.redirection (some (c.toNat - 48)) s, k + 1)
    else (Sign.read? cs).map fun (s, k) => (.redirection none s, k)
  | [] => none

/-- What a word or a part of one is read in. -/
inductive Region where
  | word
  /-- Inside double quotes. -/
  | quotes
  /-- Inside the braces of a parameter. -/
  | braces (inQuotes : Bool)
  /-- Inside an arithmetic expression, with so many open parentheses. -/
  | sum (depth : Nat)
  /-- A text of the script that is input. -/
  | document
  deriving DecidableEq, Repr

namespace Region

/-- Whether text stands for itself. -/
def inQuotes : Region → Bool
  | .word => false
  | .braces q => q
  | _ => true

/-- What is missing when a script ends in a region. -/
def missing? : Region → Option SyntaxError
  | .word | .document => none
  | .quotes => some .unterminatedQuotes
  | .braces _ => some .unterminatedBraces
  | .sum _ => some .unterminatedSum

/-- Whether a backslash before a character takes its meaning away. -/
def escapes (r : Region) (c : Char) : Bool :=
  !r.inQuotes || c == '$' || c == '\x60' || c == '\\' || (c == '"' && r == .quotes)
    || (c == '\x7d' && r == .braces true)

end Region

/-- Whether a character ends a word. -/
def endsWord (c : Char) : Bool :=
  [' ', '\t', '\n', ';', '&', '|', '<', '>', '(', ')'].contains c

/-- The number of characters that a region ends with, when it ends here. -/
def Region.ending? : Region → List Char → Option Nat
  | .word, c :: _ => if endsWord c then some 0 else none
  | .quotes, '"' :: _ => some 1
  | .braces _, '\x7d' :: _ => some 1
  | .sum 0, ')' :: ')' :: _ => some 2
  | _, _ => none

end Tasklang.Shell
