import Tasklang.Text.Bytes

/-! # Arithmetic expressions

The expressions of the shell over words of 64 bits. A name stands for the number in a variable,
and an unset variable counts as zero; assignments change variables as they are evaluated.
-/

namespace Tasklang.Shell

/-- An operator between two operands. -/
inductive BinaryOp where
  | or | and | bitOr | bitXor | bitAnd | eq | ne | le | ge | lt | gt | shl | shr | add | sub
  | mul | div | rem
  deriving DecidableEq, Repr

/-- An operator before its operand. -/
inductive UnaryOp where
  | plus | minus | invert | not
  deriving DecidableEq, Repr

/-- An arithmetic expression. -/
inductive Sum where
  | number (v : Int64)
  | named (name : String)
  | unary (op : UnaryOp) (e : Sum)
  | binary (op : BinaryOp) (l r : Sum)
  | choose (condition yes no : Sum)
  /-- The value, or the result of an operator on the old value and it, becomes the new value. -/
  | assign (name : String) (op : Option BinaryOp) (e : Sum)
  deriving Inhabited, Repr

/-- Why an arithmetic expression has no value. -/
inductive ArithmeticError where
  | expected (what : String)
  | divisionByZero
  | illegalNumber (text : String)
  deriving DecidableEq, Repr

/-- The message of an error in an expression. -/
def ArithmeticError.message (text : String) : ArithmeticError → String
  | .expected what => "arithmetic expression: expecting " ++ what ++ ": \"" ++ text ++ "\""
  | .divisionByZero => "arithmetic expression: division by zero: \"" ++ text ++ "\""
  | .illegalNumber n => "Illegal number: " ++ n

namespace Sum

/-- A token of an expression. -/
inductive Lexeme where
  | number (v : Int64)
  | name (s : String)
  | symbol (s : String)
  deriving DecidableEq, Repr

/-- The operators between operands by how tightly they bind, the loosest first. -/
def levels : List (List (String × BinaryOp)) :=
  [[("||", .or)], [("&&", .and)], [("|", .bitOr)], [("^", .bitXor)], [("&", .bitAnd)],
   [("==", .eq), ("!=", .ne)], [("<=", .le), (">=", .ge), ("<", .lt), (">", .gt)],
   [("<<", .shl), (">>", .shr)], [("+", .add), ("-", .sub)],
   [("*", .mul), ("/", .div), ("%", .rem)]]

/-- The operators that assign. -/
def assigning : List (String × Option BinaryOp) :=
  [("=", none), ("+=", some .add), ("-=", some .sub), ("*=", some .mul), ("/=", some .div),
   ("%=", some .rem), ("&=", some .bitAnd), ("|=", some .bitOr), ("^=", some .bitXor),
   ("<<=", some .shl), (">>=", some .shr)]

/-- The symbols of more than one character, the longest first. -/
def longSymbols : List String :=
  ["<<=", ">>=", "&&", "||", "==", "!=", "<=", ">=", "<<", ">>", "+=", "-=", "*=", "/=", "%=",
   "&=", "|=", "^="]

/-- The number that digits say in a base. -/
def digitsValue (base : Nat) (cs : List Char) : Nat :=
  cs.foldl (fun v c =>
    v * base + ((if c.toNat < 128 then Bytes.hexValue? (UInt8.ofNat c.toNat) else none).getD 0)) 0

/-- The number at the start, and how long it is. -/
def numberAt (cs : List Char) : Nat × Nat :=
  let hexDigit (c : Char) : Bool :=
    c.toNat < 128 && (Bytes.hexValue? (UInt8.ofNat c.toNat)).isSome
  match cs with
  | '0' :: x :: rest =>
    let digits := rest.takeWhile hexDigit
    if (x = 'x' ∨ x = 'X') ∧ digits ≠ [] then (digitsValue 16 digits, digits.length + 2)
    else
      let octal := (x :: rest).takeWhile fun c => '0' ≤ c && c ≤ '7'
      (digitsValue 8 octal, octal.length + 1)
  | _ =>
    let digits := cs.takeWhile Char.isDigit
    (digitsValue 10 digits, digits.length)

/-- The tokens of an expression; `fuel` bounds their number. -/
def lexemes : Nat → List Char → List Lexeme
  | 0, _ => []
  | _ + 1, [] => []
  | n + 1, c :: rest =>
    if c = ' ' ∨ c = '\t' ∨ c = '\n' then lexemes n rest
    else if c.isDigit then
      let (v, k) := numberAt (c :: rest)
      .number (Int64.ofNat v) :: lexemes n ((c :: rest).drop k)
    else if c.isAlpha || c == '_' then
      let name := (c :: rest).takeWhile fun c => c.isAlphanum || c == '_'
      .name (String.ofList name) :: lexemes n ((c :: rest).drop name.length)
    else match longSymbols.find? fun s => s.toList.isPrefixOf (c :: rest) with
      | some s => .symbol s :: lexemes n ((c :: rest).drop s.length)
      | none => .symbol (String.ofList [c]) :: lexemes n rest

/-- A step of reading an expression. -/
abbrev Reading := StateT (List Lexeme) (Except ArithmeticError)

/-- The operator at the start, when it is one of some; it is taken. -/
def operator? {α : Type} (ops : List (String × α)) : Reading (Option α) := do
  match ← get with
  | .symbol s :: rest => match ops.lookup s with
    | some op =>
      set rest
      return some op
    | none => return none
  | _ => return none

/-- The assignment at the start, when there is one; the name and the operator are taken. -/
def assignment? : Reading (Option (String × Option BinaryOp)) := do
  match ← get with
  | .name x :: .symbol s :: rest => match assigning.lookup s with
    | some op =>
      set rest
      return some (x, op)
    | none => return none
  | _ => return none

/-- Take a symbol that must come next. -/
def expect (s : String) (what : String) : Reading Unit := do
  match ← operator? [(s, ())] with
  | some () => return ()
  | none => throw (.expected what)

mutual

/-- An expression. -/
def whole : Nat → Reading Sum
  | 0 => throw (.expected "primary")
  | n + 1 => do
    match ← assignment? with
    | some (x, op) => return .assign x op (← whole n)
    | none =>
      let c ← level n levels
      match ← operator? [("?", ())] with
      | none => return c
      | some () =>
        let yes ← whole n
        expect ":" "':'"
        return .choose c yes (← whole n)

/-- Operands joined by the operators of some levels. -/
def level : Nat → List (List (String × BinaryOp)) → Reading Sum
  | 0, _ => throw (.expected "primary")
  | n + 1, [] => operand n
  | n + 1, ops :: tighter => do levelAfter n ops tighter (← level n tighter)

/-- What follows an operand on a level. -/
def levelAfter : Nat → List (String × BinaryOp) → List (List (String × BinaryOp)) → Sum →
    Reading Sum
  | 0, _, _, _ => throw (.expected "primary")
  | n + 1, ops, tighter, l => do
    match ← operator? ops with
    | some op => levelAfter n ops tighter (.binary op l (← level n tighter))
    | none => return l

/-- An operand with the operators before it. -/
def operand : Nat → Reading Sum
  | 0 => throw (.expected "primary")
  | n + 1 => do
    match ← operator? [("+", UnaryOp.plus), ("-", .minus), ("~", .invert), ("!", .not)] with
    | some op => return .unary op (← operand n)
    | none =>
      match ← get with
      | .number v :: rest =>
        set rest
        return .number v
      | .name x :: rest =>
        set rest
        return .named x
      | .symbol "(" :: rest =>
        set rest
        let e ← whole n
        expect ")" "')'"
        return e
      | _ => throw (.expected "primary")

end

/-- The expression that a text says. -/
def parse (text : List Char) : Except ArithmeticError Sum :=
  let ls := lexemes (text.length + 1) text
  match (whole (16 * ls.length + 16)).run ls with
  | .error e => .error e
  | .ok (e, []) => .ok e
  | .ok (_, _ :: _) => .error (.expected "EOF")

/-- The number in a variable. -/
def valueOf (text : String) : Except ArithmeticError Int64 :=
  let cs := text.toList.dropWhile (· == ' ')
  let (negative, digits) := match cs with
    | '-' :: r => (true, r)
    | '+' :: r => (false, r)
    | r => (false, r)
  let (v, k) := numberAt digits
  if k < digits.length ∨ (k = 0 ∧ cs ≠ []) then .error (.illegalNumber text)
  else .ok (if negative then -Int64.ofNat v else Int64.ofNat v)

/-- The number of a truth value. -/
def ofBool (b : Bool) : Int64 := if b then 1 else 0

/-- The result of an operator that evaluates both operands. -/
def apply (op : BinaryOp) (a b : Int64) : Except ArithmeticError Int64 :=
  match op with
  | .or => .ok (ofBool (a != 0 || b != 0))
  | .and => .ok (ofBool (a != 0 && b != 0))
  | .bitOr => .ok (a ||| b)
  | .bitXor => .ok (a ^^^ b)
  | .bitAnd => .ok (a &&& b)
  | .eq => .ok (ofBool (a == b))
  | .ne => .ok (ofBool (a != b))
  | .le => .ok (ofBool (a ≤ b))
  | .ge => .ok (ofBool (b ≤ a))
  | .lt => .ok (ofBool (a < b))
  | .gt => .ok (ofBool (b < a))
  | .shl => .ok (a <<< b)
  | .shr => .ok (a >>> b)
  | .add => .ok (a + b)
  | .sub => .ok (a - b)
  | .mul => .ok (a * b)
  | .div => if b = 0 then .error .divisionByZero else .ok (a / b)
  | .rem => if b = 0 then .error .divisionByZero else .ok (a % b)

/-- An evaluation, which holds the variables that were assigned. -/
abbrev Evaluation := StateT (List (String × String)) (Except ArithmeticError)

/-- The value of an expression. `lookup` gives the variables from before. -/
def eval (lookup : String → String) : Sum → Evaluation Int64
  | .number v => return v
  | .named x => do
    let assigned ← get
    (valueOf ((assigned.lookup x).getD (lookup x)) : Except _ _)
  | .unary op e => do
    let v ← eval lookup e
    match op with
    | .plus => return v
    | .minus => return -v
    | .invert => return ~~~v
    | .not => return ofBool (v == 0)
  | .binary .or l r => do
    if (← eval lookup l) != 0 then return 1
    else return ofBool ((← eval lookup r) != 0)
  | .binary .and l r => do
    if (← eval lookup l) == 0 then return 0
    else return ofBool ((← eval lookup r) != 0)
  | .binary op l r => do
    let a ← eval lookup l
    let b ← eval lookup r
    (apply op a b : Except _ _)
  | .choose c yes no => do
    if (← eval lookup c) != 0 then eval lookup yes else eval lookup no
  | .assign x op e => do
    let v ← eval lookup e
    let v ← match op with
      | none => pure v
      | some op => do
        let old ← (valueOf (((← get).lookup x).getD (lookup x)) : Except _ _)
        (apply op old v : Except _ _)
    modify ((x, Int.repr v.toInt) :: ·)
    return v

end Sum

/-- The value of an arithmetic expression and the variables it assigns, the last one first. -/
def arithmetic (lookup : String → String) (text : List Char) :
    Except ArithmeticError (Int × List (String × String)) := do
  let e ← Sum.parse text
  let (v, assigned) ← (e.eval lookup).run []
  return (v.toInt, assigned)

end Tasklang.Shell
