import Tasklang.Host.FileSystem

/-! # Conditions

The conditions that the shell tests: comparisons of texts and numbers, and questions about files.
A word that could be an operator is an operand where an operand must stand.
-/

namespace Tasklang.Shell

/-- Why a condition cannot be tested. -/
inductive ConditionError where
  | unexpectedOperator (word : String)
  | argumentExpected (operator : String)
  | closingExpected
  | missingBracket
  | illegalNumber (text : String)
  deriving DecidableEq, Repr

/-- The message of an error. -/
def ConditionError.message : ConditionError → String
  | .unexpectedOperator w => w ++ ": unexpected operator"
  | .argumentExpected op => op ++ ": argument expected"
  | .closingExpected => "closing paren expected"
  | .missingBracket => "missing ]"
  | .illegalNumber text => "Illegal number: " ++ text

namespace Condition

/-- The operators before one operand. -/
def unaryOperators : List String :=
  ["-r", "-w", "-x", "-e", "-f", "-d", "-c", "-b", "-p", "-u", "-g", "-k", "-s", "-t", "-z", "-n",
   "-h", "-O", "-G", "-L", "-S"]

/-- The operators between two operands. -/
def binaryOperators : List String :=
  ["=", "!=", "<", ">", "-eq", "-ne", "-ge", "-gt", "-le", "-lt", "-nt", "-ot", "-ef"]

/-- What a word is in a condition. -/
inductive Kind where
  | operand
  | unary
  | binary
  | not
  | and
  | or
  | opening
  | closing
  | missing
  deriving DecidableEq, Repr

/-- Whether the word at the start must be an operand, because of what follows it. -/
def mustBeOperand : List String → Bool
  | _ :: next :: _ :: _ => binaryOperators.contains next
  | [_] => true
  | _ => false

/-- What the word at the start is. -/
def kind (ws : List String) : Kind :=
  match ws with
  | [] => .missing
  | w :: rest =>
    if w = "!" then .not
    else if w = "-a" then .and
    else if w = "-o" then .or
    else if w = "(" then if rest.isEmpty then .operand else .opening
    else if w = ")" then .closing
    else if binaryOperators.contains w then .binary
    else if unaryOperators.contains w ∧ !mustBeOperand ws then .unary
    else .operand

/-- The number that a word says. -/
def numberOf (text : String) : Except ConditionError Int :=
  let isBlank (c : Char) : Bool := c == ' ' || c == '\t'
  let cs := (text.toList.dropWhile isBlank).reverse.dropWhile isBlank
  let (negative, digits) := match cs.reverse with
    | '-' :: r => (true, r)
    | '+' :: r => (false, r)
    | r => (false, r)
  if digits = [] ∨ !digits.all Char.isDigit then .error (.illegalNumber text)
  else
    let v := digits.foldl (fun (v : Nat) c => v * 10 + (c.toNat - 48)) 0
    .ok (if negative then -v else v)

/-- Whether a question about one word has the answer yes. -/
def unary (files : FileSystem) (cwd : Place) (op w : String) : Bool :=
  if op = "-z" then w.isEmpty
  else if op = "-n" then !w.isEmpty
  else match files.stat cwd w with
    | .error _ => false
    | .ok (.file contents) =>
      if op = "-s" then !contents.isEmpty else ["-e", "-f", "-r", "-w", "-O", "-G"].contains op
    | .ok .directory => ["-e", "-d", "-r", "-w", "-x", "-s", "-O", "-G"].contains op

/-- Whether a comparison holds. -/
def binary (op a b : String) : Except ConditionError Bool := do
  if op = "=" then return a == b
  else if op = "!=" then return a != b
  else if op = "<" then return Bytes.lt (Bytes.ofString a) (Bytes.ofString b)
  else if op = ">" then return Bytes.lt (Bytes.ofString b) (Bytes.ofString a)
  else if op = "-ef" then return a == b
  else if op = "-nt" ∨ op = "-ot" then return false
  else
    let x ← numberOf a
    let y ← numberOf b
    return if op = "-eq" then x == y
      else if op = "-ne" then x != y
      else if op = "-ge" then decide (y ≤ x)
      else if op = "-gt" then decide (y < x)
      else if op = "-le" then decide (x ≤ y)
      else decide (x < y)

mutual

/-- Conditions joined by `-o`. Gives the answer and the words from the last one that was used on. -/
def disjunction (files : FileSystem) (cwd : Place) :
    Nat → List String → Except ConditionError (Bool × List String)
  | 0, ws => .ok (false, ws)
  | n + 1, ws => do
    let (a, ws) ← conjunction files cwd n ws
    if kind ws.tail = .or then
      let (b, ws) ← disjunction files cwd n (ws.drop 2)
      return (a || b, ws)
    else return (a, ws)

/-- Conditions joined by `-a`. -/
def conjunction (files : FileSystem) (cwd : Place) :
    Nat → List String → Except ConditionError (Bool × List String)
  | 0, ws => .ok (false, ws)
  | n + 1, ws => do
    let (a, ws) ← negated files cwd n ws
    if kind ws.tail = .and then
      let (b, ws) ← conjunction files cwd n (ws.drop 2)
      return (a && b, ws)
    else return (a, ws)

/-- A condition, or the opposite of one. -/
def negated (files : FileSystem) (cwd : Place) :
    Nat → List String → Except ConditionError (Bool × List String)
  | 0, ws => .ok (false, ws)
  | n + 1, ws => do
    if kind ws = .not then
      let (a, ws) ← negated files cwd n (if ws.tail.isEmpty then ws else ws.tail)
      return (!a, ws)
    else primary files cwd n ws

/-- One question. -/
def primary (files : FileSystem) (cwd : Place) :
    Nat → List String → Except ConditionError (Bool × List String)
  | 0, ws => .ok (false, ws)
  | n + 1, ws => do
    match kind ws, ws with
    | .missing, _ => return (false, ws)
    | .opening, _ :: rest =>
      if kind rest = .closing then return (false, rest)
      else
        let (a, ws) ← disjunction files cwd n rest
        if kind ws.tail = .closing then return (a, ws.tail) else throw .closingExpected
    | .unary, op :: rest =>
      match rest with
      | [] => throw (.argumentExpected op)
      | w :: _ => return (unary files cwd op w, rest)
    | _, [] => return (false, ws)
    | _, a :: rest =>
      match kind rest, rest with
      | .binary, op :: b :: after => return (← binary op a b, b :: after)
      | .binary, [op] => throw (.argumentExpected op)
      | _, _ => return (!a.isEmpty, ws)

end

/-- The answer to a condition. Three words with a comparison in the middle are always that, and
parentheses around all of it are left out. -/
def test (files : FileSystem) (cwd : Place) (ws : List String) : Except ConditionError Bool := do
  match ws with
  | [] => return false
  | [a, op, b] =>
    if binaryOperators.contains op then binary op a b
    else if a = "(" ∧ b = ")" then general [op]
    else general ws
  | ["(", a, b, ")"] => general [a, b]
  | _ => general ws
where
  /-- The answer when all words have to be used. -/
  general (ws : List String) : Except ConditionError Bool := do
    match ← disjunction files cwd (4 * ws.length + 4) ws with
    | (_, w :: _ :: _) => throw (.unexpectedOperator w)
    | (a, _) => return a

/-- The answer to a condition, which a bracket ends when it starts with one. -/
def run (files : FileSystem) (cwd : Place) (name : String) (ws : List String) :
    Except ConditionError Bool :=
  if name = "[" then
    if ws.getLast? = some "]" then test files cwd ws.dropLast else .error .missingBracket
  else test files cwd ws

end Condition

end Tasklang.Shell
