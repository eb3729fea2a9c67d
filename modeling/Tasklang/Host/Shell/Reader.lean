import Tasklang.Host.Shell.Token

/-! # Reading scripts

A script is read one line of commands at a time, so that the lines before a mistake still run.
The functions take a bound on the depth of the recursion, which the length of the script provides.
-/

namespace Tasklang.Shell

/-- What is left of a script. Words where a command starts may be aliases; their texts are put in
their places. -/
structure Input where
  chars : List Char
  line : Nat := 1
  aliases : List (String × String) := []
  /-- The aliases whose texts are being read, with the length of what follows each. -/
  replaced : List (String × Nat) := []

/-- A line of a script and the mistake in it. -/
structure ScriptError where
  line : Nat
  cause : SyntaxError

/-- A step of reading. -/
abbrev Reader := StateT Input (Except ScriptError)

namespace Reader

/-- Fail with a mistake. -/
def fail {α : Type} (cause : SyntaxError) : Reader α := do throw ⟨(← get).line, cause⟩

/-- Fail at a token. -/
def unexpected {α : Type} (t : Token) (expected : Option String) : Reader α :=
  fail (.unexpected t.name expected)

/-- Go a number of characters further. -/
def advance (n : Nat) : Reader Unit :=
  modify fun i =>
    { i with chars := i.chars.drop n, line := i.line + (i.chars.take n).count '\n' }

/-- The text of an alias, unless it is being read already. -/
def alias? (name : String) : Reader (Option String) := do
  let i ← get
  let left := i.chars.length
  if i.replaced.any fun (x, rest) => x == name && rest ≤ left then return none
  else return i.aliases.lookup name

/-- Put the text of an alias in its place. -/
def replaceAlias (name text : String) : Reader Unit :=
  modify fun i =>
    { i with
      chars := text.toList ++ i.chars
      replaced := (name, i.chars.length) :: i.replaced.filter (·.1 != name) }

/-- Whether the word that comes next follows the text of an alias that ends with a blank, which lets
that word be an alias too. -/
def followsBlankAlias (before : Input) : Reader Bool := do
  let left := (← get).chars.length
  return before.replaced.any fun (x, rest) =>
    rest ≤ before.chars.length && left < rest &&
      (match before.aliases.lookup x with
        | some text => text.endsWith " " || text.endsWith "\t"
        | none => false)

/-- Take the characters at the start that belong to a class. -/
def takeWhile (p : Char → Bool) : Reader (List Char) := do
  let cs := (← get).chars.takeWhile p
  advance cs.length
  return cs

/-- The number of characters at the start that separate words: blanks, joined lines, comments. -/
def blanksOf : List Char → Nat
  | ' ' :: rest => blanksOf rest + 1
  | '\t' :: rest => blanksOf rest + 1
  | '\\' :: '\n' :: rest => blanksOf rest + 2
  | '#' :: rest => (rest.takeWhile (· != '\n')).length + 1
  | _ => 0

/-- Leave out what separates words. -/
def skipBlanks : Reader Unit := do advance (blanksOf (← get).chars)

/-- The text of backquotes up to its end, without the backslashes in it, and its length. -/
def backquoted (inQuotes : Bool) : List Char → Option (List Char × Nat)
  | [] => none
  | '\x60' :: _ => some ([], 1)
  | '\\' :: c :: rest =>
    (backquoted inQuotes rest).map fun (cs, n) =>
      (if c = '$' ∨ c = '\x60' ∨ c = '\\' ∨ (c = '"' ∧ inQuotes) then c :: cs else '\\' :: c :: cs,
        n + 2)
  | c :: rest => (backquoted inQuotes rest).map fun (cs, n) => (c :: cs, n + 1)

/-- The lines before a delimiter, and the lines after it. -/
def documentLines (delimiter : List Char) (strip : Bool) :
    List (List Char) → List (List Char) × List (List Char)
  | [] => ([], [])
  | l :: ls =>
    let l := if strip then l.dropWhile (· == '\t') else l
    if l = delimiter then ([], ls)
    else
      let (inside, after) := documentLines delimiter strip ls
      (l :: inside, after)

/-- The lines of a text, without their line feeds. -/
def linesOf : List Char → List (List Char)
  | [] => []
  | '\n' :: rest => [] :: linesOf rest
  | c :: rest => match rest, linesOf rest with
    | '\n' :: _, [] :: ls => [c] :: ls
    | _, l :: ls => (c :: l) :: ls
    | _, [] => [[c]]

/-- Cut the text that ends at a delimiter out of the lines after the current one. -/
def takeDocument (delimiter : List Char) (strip : Bool) : Reader (List Char) := do
  let i ← get
  let here := i.chars.takeWhile (· != '\n')
  let (inside, after) := documentLines delimiter strip (linesOf (i.chars.drop (here.length + 1)))
  let lines (ls : List (List Char)) : List Char := ls.flatMap (· ++ ['\n'])
  set { i with chars := here ++ '\n' :: lines after }
  return lines inside

/-- The text of a word without its quotes, and whether it has any. -/
def delimiterOf : Word → List Char × Bool
  | [] => ([], false)
  | .plain text :: rest => let (cs, q) := delimiterOf rest; (text ++ cs, q)
  | .quoted text :: rest => (text ++ (delimiterOf rest).1, true)
  | _ :: rest => delimiterOf rest

/-- The stream that a duplicating redirection names. -/
def streamOf (w : Word) : Reader (Option Nat) :=
  match w.spelling? with
  | some ['-'] => return none
  | some [c] => if c.isDigit then return some (c.toNat - 48) else fail .streamNumber
  | _ => fail .streamNumber

/-- The pieces of double quotes. They make a word even when they are empty, unless they hold only
the list of all arguments. -/
def quotedPieces (inside : List Piece) : List Piece :=
  match inside with
  | [.parameter true "@" .value] => inside
  | _ => .quoted [] :: inside

mutual

/-- The pieces of a region, and its end. -/
def pieces : Nat → Region → Reader (List Piece)
  | 0, _ => fail (.unexpected "end of file" none)
  | n + 1, region => do
    let cs := (← get).chars
    match region.ending? cs, cs with
    | some k, _ =>
      advance k
      return []
    | none, [] =>
      match region.missing? with
      | some cause => fail cause
      | none => return []
    | none, '\\' :: '\n' :: _ =>
      advance 2
      pieces n region
    | none, '\\' :: c :: _ =>
      if region.escapes c then
        advance 2
        return Word.consQuoted c (← pieces n region)
      else
        advance 1
        return Word.consQuoted '\\' (← pieces n region)
    | none, '\'' :: _ =>
      if region.inQuotes then
        advance 1
        return Word.consQuoted '\'' (← pieces n region)
      else
        advance 1
        let text ← takeWhile (· != '\'')
        if (← get).chars.isEmpty then fail .unterminatedQuotes
        advance 1
        return .quoted text :: (← pieces n region)
    | none, '"' :: _ =>
      advance 1
      if region = .document then return Word.consQuoted '"' (← pieces n region)
      let inside ← pieces n .quotes
      return quotedPieces inside ++ (← pieces n region)
    | none, '$' :: _ =>
      advance 1
      let p ← substitution n region.inQuotes
      return p :: (← pieces n region)
    | none, '\x60' :: rest =>
      advance 1
      match backquoted region.inQuotes rest with
      | none => fail .unterminatedBackquotes
      | some (script, k) =>
        advance k
        let after ← get
        set { after with chars := script }
        let c ← commands n true
        match ← token n with
        | .finish => set after
        | t => unexpected t none
        return .output region.inQuotes c :: (← pieces n region)
    | none, c :: _ =>
      advance 1
      let region := match region, c with
        | .sum d, '(' => .sum (d + 1)
        | .sum d, ')' => .sum (d - 1)
        | r, _ => r
      let rest ← pieces n region
      return if region.inQuotes then Word.consQuoted c rest else Word.consPlain c rest

/-- The piece after a dollar sign. -/
def substitution : Nat → Bool → Reader Piece
  | 0, _ => fail (.unexpected "end of file" none)
  | n + 1, inQuotes => do
    match (← get).chars with
    | '(' :: '(' :: _ =>
      advance 2
      return .sum inQuotes (← pieces n (.sum 0))
    | '(' :: _ =>
      advance 1
      let c ← commands n true
      match ← token n with
      | .closing => return .output inQuotes c
      | t => unexpected t (some ")")
    | '\x7b' :: _ =>
      advance 1
      braced n inQuotes
    | c :: _ =>
      if c.isDigit || "@*#?$!-".contains c then
        advance 1
        return .parameter inQuotes (String.ofList [c]) .value
      else if isNameStart c then
        return .parameter inQuotes (String.ofList (← takeWhile isNameChar)) .value
      else return if inQuotes then .quoted ['$'] else .plain ['$']
    | [] => return if inQuotes then .quoted ['$'] else .plain ['$']

/-- The parameter in braces, after the opening one. -/
def braced : Nat → Bool → Reader Piece
  | 0, _ => fail (.unexpected "end of file" none)
  | n + 1, inQuotes => do
    let length ← match (← get).chars with
      | '#' :: c :: _ => if c = '\x7d' then pure false else do advance 1; pure true
      | _ => pure false
    let name ← match (← get).chars with
      | c :: _ =>
        if isNameStart c then takeWhile isNameChar
        else if c.isDigit then takeWhile Char.isDigit
        else if "@*#?$!-".contains c then do advance 1; pure [c]
        else pure []
      | [] => pure []
    let name := String.ofList name
    let form (k : Nat) (f : List Piece → Form) : Reader Piece := do
      advance k
      return .parameter inQuotes name (f (← pieces n (.braces inQuotes)))
    let pattern (k : Nat) (f : List Piece → Form) : Reader Piece := do
      advance k
      return .parameter inQuotes name (f (← pieces n (.braces false)))
    match (← get).chars with
    | '\x7d' :: _ =>
      advance 1
      return if name.isEmpty then .invalid
        else .parameter inQuotes name (if length then .length else .value)
    | ':' :: '-' :: _ => form 2 (.fallback true)
    | ':' :: '=' :: _ => form 2 (.assign true)
    | ':' :: '?' :: _ => form 2 (.demand true)
    | ':' :: '+' :: _ => form 2 (.alternative true)
    | '-' :: _ => form 1 (.fallback false)
    | '=' :: _ => form 1 (.assign false)
    | '?' :: _ => form 1 (.demand false)
    | '+' :: _ => form 1 (.alternative false)
    | '%' :: '%' :: _ => pattern 2 (.strip true true)
    | '%' :: _ => pattern 1 (.strip true false)
    | '#' :: '#' :: _ => pattern 2 (.strip false true)
    | '#' :: _ => pattern 1 (.strip false false)
    | _ =>
      let _ ← pieces n (.braces inQuotes)
      return .invalid

/-- The next token. -/
def token : Nat → Reader Token
  | 0 => fail (.unexpected "end of file" none)
  | n + 1 => do
    skipBlanks
    let cs := (← get).chars
    match Token.ofSymbol? cs with
    | some (t, k) =>
      advance k
      return t
    | none =>
      if cs.isEmpty then return .finish else return .word (← pieces n .word)

/-- The redirection of a sign. -/
def redirection : Nat → Option Nat → Sign → Reader Redirection
  | 0, _, _ => fail (.unexpected "end of file" none)
  | n + 1, stream, s => do
    let strip ← match s, (← get).chars with
      | .document, '-' :: _ => do advance 1; pure true
      | _, _ => pure false
    match ← token n with
    | .word w =>
      match s with
      | .input => return .input (stream.getD 0) false w
      | .update => return .input (stream.getD 0) true w
      | .output => return .output (stream.getD 1) .create w
      | .replace => return .output (stream.getD 1) .replace w
      | .append => return .output (stream.getD 1) .append w
      | .outputTo => return .duplicate (stream.getD 1) (← streamOf w)
      | .inputFrom => return .duplicate (stream.getD 0) (← streamOf w)
      | .document =>
        let (delimiter, isQuoted) := delimiterOf w
        let text ← takeDocument delimiter strip
        if isQuoted then return .document (stream.getD 0) [.quoted text]
        else
          let after ← get
          set { after with chars := text }
          let ps ← pieces n .document
          set after
          return .document (stream.getD 0) ps
    | t => unexpected t none

/-- Redirections, as many as there are. -/
def redirections : Nat → Reader (List Redirection)
  | 0 => fail (.unexpected "end of file" none)
  | n + 1 => do
    let before ← get
    match ← token n with
    | .redirection stream s =>
      let r ← redirection n stream s
      return r :: (← redirections n)
    | _ =>
      set before
      return []

/-- Leave out line feeds. -/
def skipNewlines : Nat → Reader Unit
  | 0 => fail (.unexpected "end of file" none)
  | n + 1 => do
    let before ← get
    match ← token n with
    | .newline => skipNewlines n
    | _ => set before

/-- A word that must come next. -/
def expect : Nat → String → Reader Unit
  | 0, _ => fail (.unexpected "end of file" none)
  | n + 1, keyword => do
    let t ← token n
    if t.spells keyword then return () else unexpected t (some keyword)

/-- The commands up to what ends a list; none when `mayBeEmpty` and the list ends at once. -/
def commands : Nat → Bool → Reader Command
  | 0, _ => fail (.unexpected "end of file" none)
  | n + 1, mayBeEmpty => do
    skipNewlines n
    let before ← get
    let t ← token n
    set before
    match t with
    | .finish => return .nothing
    | _ =>
      if mayBeEmpty && t.endsList then return .nothing
      let c ← andOr n
      let before ← get
      match ← token n with
      | .background => return .sequence (.background c) (← commands n true)
      | .semicolon | .newline => return .sequence c (← commands n true)
      | _ =>
        set before
        return c

/-- The commands of a line. -/
def lineOf : Nat → Reader Command
  | 0 => fail (.unexpected "end of file" none)
  | n + 1 => do
    let c ← andOr n
    let t ← token n
    match t with
    | .newline | .finish => return c
    | .semicolon | .background =>
      let c := match t with
        | .background => .background c
        | _ => c
      let before ← get
      match ← token n with
      | .newline | .finish => return c
      | _ =>
        set before
        return .sequence c (← lineOf n)
    | t => unexpected t none

/-- Pipelines joined by conditions. -/
def andOr : Nat → Reader Command
  | 0 => fail (.unexpected "end of file" none)
  | n + 1 => do andOrAfter n (← pipeline n)

/-- What follows a pipeline under a condition. -/
def andOrAfter : Nat → Command → Reader Command
  | 0, _ => fail (.unexpected "end of file" none)
  | n + 1, first => do
    let before ← get
    match ← token n with
    | .and =>
      skipNewlines n
      andOrAfter n (.both first (← pipeline n))
    | .or =>
      skipNewlines n
      andOrAfter n (.either first (← pipeline n))
    | _ =>
      set before
      return first

/-- A command, or commands joined by pipes. -/
def pipeline : Nat → Reader Command
  | 0 => fail (.unexpected "end of file" none)
  | n + 1 => do
    let before ← get
    let t ← token n
    if t.spells "!" then return .negation (← stagesFrom n)
    else
      set before
      stagesFrom n

/-- The commands of a pipeline. -/
def stagesFrom : Nat → Reader Command
  | 0 => fail (.unexpected "end of file" none)
  | n + 1 => do
    let first ← command n
    match ← stages n with
    | [] => return first
    | rest => return .pipeline (first :: rest)

/-- The commands after pipes. -/
def stages : Nat → Reader (List Command)
  | 0 => fail (.unexpected "end of file" none)
  | n + 1 => do
    let before ← get
    match ← token n with
    | .pipe =>
      skipNewlines n
      let c ← command n
      return c :: (← stages n)
    | _ =>
      set before
      return []

/-- One command. -/
def command : Nat → Reader Command
  | 0 => fail (.unexpected "end of file" none)
  | n + 1 => do
    let before ← get
    let compound (body : Reader Command) : Reader Command := do
      let c ← body
      match ← redirections n with
      | [] => return c
      | rs => return .redirected c rs
    match ← token n with
    | .opening => compound do
      let c ← commands n false
      match ← token n with
      | .closing => return .subshell c
      | t => unexpected t (some ")")
    | .redirection .. =>
      set before
      simple n before.line [] [] []
    | .word w =>
      match w.spelling?.map String.ofList with
      | some "\x7b" => compound do
        let c ← commands n false
        expect n "\x7d"
        return c
      | some "if" => compound (conditional n)
      | some "while" => compound (whileLoop n false)
      | some "until" => compound (whileLoop n true)
      | some "for" => compound (forLoop n)
      | some "case" => compound (caseOf n)
      | some s =>
        if keywords.contains s then unexpected (.word w) none
        else match ← alias? s with
          | some text =>
            replaceAlias s text
            command n
          | none =>
            set before
            simple n before.line [] [] []
      | none =>
        set before
        simple n before.line [] [] []
    | t => unexpected t none

/-- What follows an `if`, with its end. -/
def conditional : Nat → Reader Command
  | 0 => fail (.unexpected "end of file" none)
  | n + 1 => do
    let condition ← commands n false
    expect n "then"
    let yes ← commands n false
    let t ← token n
    if t.spells "elif" then return .conditional condition yes (← conditional n)
    else if t.spells "else" then
      let no ← commands n false
      expect n "fi"
      return .conditional condition yes no
    else if t.spells "fi" then return .conditional condition yes .nothing
    else unexpected t (some "fi")

/-- What follows a `while` or an `until`. -/
def whileLoop : Nat → Bool → Reader Command
  | 0, _ => fail (.unexpected "end of file" none)
  | n + 1, untilTrue => do
    let condition ← commands n false
    expect n "do"
    let body ← commands n false
    expect n "done"
    return .loop untilTrue condition body

/-- What follows a `for`. -/
def forLoop : Nat → Reader Command
  | 0 => fail (.unexpected "end of file" none)
  | n + 1 => do
    let name ← match ← token n with
      | .word w => match w.spelling? with
        | some cs => if isName cs then pure (String.ofList cs) else fail .loopVariable
        | none => fail .loopVariable
      | _ => fail .loopVariable
    skipNewlines n
    let before ← get
    let t ← token n
    let words ← if t.spells "in" then wordsOf n else do
      match t with
      | .semicolon => pure ()
      | _ => set before
      pure [[.parameter true "@" .value]]
    skipNewlines n
    expect n "do"
    let body ← commands n false
    expect n "done"
    return .forEach name words body

/-- Words up to the end of a line or a semicolon. -/
def wordsOf : Nat → Reader (List Word)
  | 0 => fail (.unexpected "end of file" none)
  | n + 1 => do
    match ← token n with
    | .word w => return w :: (← wordsOf n)
    | .newline | .semicolon => return []
    | t => unexpected t none

/-- What follows a `case`. -/
def caseOf : Nat → Reader Command
  | 0 => fail (.unexpected "end of file" none)
  | n + 1 => do
    match ← token n with
    | .word w =>
      skipNewlines n
      expect n "in"
      return .choice w (← branches n)
    | t => unexpected t (some "word")

/-- Branches up to the end of a choice. -/
def branches : Nat → Reader (List (List Word × Command))
  | 0 => fail (.unexpected "end of file" none)
  | n + 1 => do
    skipNewlines n
    let before ← get
    let t ← token n
    if t.spells "esac" then return []
    match t with
    | .opening => pure ()
    | _ => set before
    let patterns ← patternsOf n
    let body ← commands n true
    skipNewlines n
    let t ← token n
    if t.spells "esac" then return [(patterns, body)]
    match t with
    | .endOfBranch => return (patterns, body) :: (← branches n)
    | t => unexpected t (some ";;")

/-- The patterns of a branch, and the parenthesis after them. -/
def patternsOf : Nat → Reader (List Word)
  | 0 => fail (.unexpected "end of file" none)
  | n + 1 => do
    match ← token n with
    | .word w =>
      match ← token n with
      | .pipe => return w :: (← patternsOf n)
      | .closing => return [w]
      | t => unexpected t (some ")")
    | t => unexpected t (some ")")

/-- A simple command or the definition of a function; what is read of it is given. -/
def simple : Nat → Nat → List (String × Word) → List Word → List Redirection → Reader Command
  | 0, _, _, _, _ => fail (.unexpected "end of file" none)
  | n + 1, line, assignments, words, rs => do
    let before ← get
    match ← token n with
    | .word w =>
      match words, w.assignment? with
      | [], some a => simple n line (assignments ++ [a]) [] rs
      | _, _ =>
        let name := (w.spelling?.map String.ofList).getD ""
        let text ← if words.isEmpty || (← followsBlankAlias before) then alias? name else pure none
        match text with
        | some text =>
          replaceAlias name text
          simple n line assignments words rs
        | none => simple n line assignments (words ++ [w]) rs
    | .redirection stream s =>
      let r ← redirection n stream s
      simple n line assignments words (rs ++ [r])
    | .opening =>
      match assignments, words, rs with
      | [], [w], [] =>
        match ← token n with
        | .closing =>
          match w.spelling? with
          | some cs =>
            if !isName cs || specialCommands.contains (String.ofList cs) then fail .functionName
            skipNewlines n
            return .define (String.ofList cs) (← command n)
          | none => fail .functionName
        | t => unexpected t (some ")")
      | _, _, _ =>
        set before
        return .simple line assignments words rs
    | _ =>
      set before
      return .simple line assignments words rs

end

/-- The commands of the next line that has some, and what is left; none at the end. -/
def nextLine : Nat → Reader (Option Command)
  | 0 => return none
  | n + 1 => do
    let before ← get
    match ← token (n + 1) with
    | .finish => return none
    | .newline => nextLine n
    | _ =>
      set before
      return some (← lineOf n)

end Reader

/-- A bound on the characters that are read of what is left, with the texts of aliases. -/
def Input.size (i : Input) : Nat :=
  (i.chars.length + 1) * (i.aliases.foldl (fun n (_, text) => n + text.length) 0 + 1)

/-- The commands of the next line of a script and what is left, none at its end, or a mistake. -/
def Input.next (i : Input) : Except ScriptError (Option (Command × Input)) :=
  match (Reader.nextLine (8 * i.size + 64)).run i with
  | .error e => .error e
  | .ok (none, _) => .ok none
  | .ok (some c, rest) => .ok (some (c, rest))

end Tasklang.Shell
