import Tasklang.Lua.Syntax
import Tasklang.Lua.Token

/-! # Parsing Lua

A recursive descent parser from tokens to syntax. Binary operators are read by precedence
climbing. Every parser takes `fuel`, which the number of tokens bounds; how deep statements,
expressions and assignment targets may nest is part of the context.
-/

namespace Tasklang.Lua

/-- Why source cannot be parsed. -/
inductive ParseError where
  /-- The tokens form no chunk. -/
  | syntaxError
  /-- Expressions or statements nest too deep. -/
  | tooDeep
  deriving DecidableEq, Repr

namespace Parser

/-- What a parser may use: extra arguments, leaving a loop, and so many nested levels. -/
structure Context where
  variadic : Bool
  inLoop : Bool
  room : Nat

/-- What a parser returns, most often a parsed part and the tokens after it. -/
abbrev Parse := Except ParseError

/-- The failure of a parser that met an unexpected token. -/
def refuse {α : Type} : Parse α := .error .syntaxError

/-- The context one level further down. -/
def Context.enter (c : Context) : List Lexeme → Parse Context
  | ⟨.malformed, _, _⟩ :: _ => refuse
  | _ => match c.room with
    | 0 => .error .tooDeep
    | room + 1 => .ok { c with room }

/-- The line of the next token. -/
def lineOf : List Lexeme → Nat
  | t :: _ => t.line
  | [] => 0

/-- The line of the token before the next one. -/
def lineBefore : List Lexeme → Nat
  | t :: _ => t.before
  | [] => 0

/-- Expect a symbol. -/
def symbol (s : String) : List Lexeme → Parse (List Lexeme)
  | ⟨.symbol t, _, _⟩ :: ts => if t = s then .ok ts else .error .syntaxError
  | _ => .error .syntaxError

/-- Expect a reserved word. -/
def keyword (w : String) : List Lexeme → Parse (List Lexeme)
  | ⟨.keyword t, _, _⟩ :: ts => if t = w then .ok ts else .error .syntaxError
  | _ => .error .syntaxError

/-- Expect a name. -/
def name : List Lexeme → Parse (String × List Lexeme)
  | ⟨.name n, _, _⟩ :: ts => .ok (n, ts)
  | _ => refuse

/-- Whether the next token is a symbol. -/
def startsWith (s : String) : List Lexeme → Bool
  | ⟨.symbol t, _, _⟩ :: _ => t == s
  | _ => false

/-- The binding powers of a binary operator, to its left and to its right. -/
def power (op : BinaryOp) : Nat × Nat :=
  match op with
  | .pow => (14, 13)
  | .mul | .div | .idiv | .mod => (11, 11)
  | .add | .sub => (10, 10)
  | .concat => (9, 8)
  | .shl | .shr => (7, 7)
  | .band => (6, 6)
  | .bxor => (5, 5)
  | .bor => (4, 4)
  | .eq | .ne | .lt | .le | .gt | .ge => (3, 3)

/-- An operator between two operands. -/
inductive Infix where
  | op (o : BinaryOp)
  | and
  | or

/-- The operator that a token stands for between operands. -/
def infix? : Token → Option Infix
  | .keyword "and" => some .and
  | .keyword "or" => some .or
  | .symbol s =>
    match s with
    | "+" => some (.op .add)
    | "-" => some (.op .sub)
    | "*" => some (.op .mul)
    | "/" => some (.op .div)
    | "%" => some (.op .mod)
    | "^" => some (.op .pow)
    | "//" => some (.op .idiv)
    | "&" => some (.op .band)
    | "|" => some (.op .bor)
    | "~" => some (.op .bxor)
    | "<<" => some (.op .shl)
    | ">>" => some (.op .shr)
    | ".." => some (.op .concat)
    | "==" => some (.op .eq)
    | "~=" => some (.op .ne)
    | "<" => some (.op .lt)
    | "<=" => some (.op .le)
    | ">" => some (.op .gt)
    | ">=" => some (.op .ge)
    | _ => none
  | _ => none

/-- The binding powers of an operator between operands. -/
def Infix.power : Infix → Nat × Nat
  | .op o => Parser.power o
  | .and => (2, 2)
  | .or => (1, 1)

/-- Whether an operator compares its operands. -/
def comparing : BinaryOp → Bool
  | .eq | .ne | .lt | .le | .gt | .ge => true
  | _ => false

/-- The expression of an operator and its operands: a comparison fails on the line `after` its last
token, other operators on the line `at_` which they stand. -/
def Infix.build (at_ after : Nat) : Infix → Expr → Expr → Expr
  | .op o, l, r => .binary (if comparing o then after else at_) o l r
  | .and, l, r => .and l r
  | .or, l, r => .or l r

/-- The operator that a token stands for in front of an operand. -/
def unary? : Token → Option UnaryOp
  | .keyword "not" => some .not
  | .symbol "-" => some .neg
  | .symbol "#" => some .len
  | .symbol "~" => some .bnot
  | _ => none

/-- The binding power of the operators in front of an operand. -/
def unaryPower : Nat := 12

/-- Whether a token ends a block. -/
def endsBlock : List Lexeme → Bool
  | [] => true
  | ⟨.done, _, _⟩ :: _ => true
  | ⟨.keyword w, _, _⟩ :: _ => w == "end" || w == "else" || w == "elseif" || w == "until"
  | _ => false

/-- Names separated by commas, after the first. -/
def moreNames : Nat → List Lexeme → Parse (List String × List Lexeme)
  | n + 1, ⟨.symbol ",", _, _⟩ :: ⟨.name x, _, _⟩ :: ts =>
    (moreNames n ts).map fun (xs, ts) => (x :: xs, ts)
  | _, ⟨.symbol ",", _, _⟩ :: _ => refuse
  | _, ts => .ok ([], ts)

/-- Parameters up to the closing parenthesis, and whether extra arguments are taken. -/
def parameters : Nat → List Lexeme → Parse ((List String × Bool) × List Lexeme)
  | _, ⟨.symbol "...", _, _⟩ :: ⟨.symbol ")", _, _⟩ :: ts => .ok (([], true), ts)
  | _, ⟨.name x, _, _⟩ :: ⟨.symbol ")", _, _⟩ :: ts => .ok (([x], false), ts)
  | n + 1, ⟨.name x, _, _⟩ :: ⟨.symbol ",", _, _⟩ :: ts =>
    (parameters n ts).map fun ((xs, variadic), ts) => ((x :: xs, variadic), ts)
  | _, _ => refuse

/-- The promise about a local variable, after its name. -/
def promise : List Lexeme → Parse (Attribute × List Lexeme)
  | ⟨.symbol "<", _, _⟩ :: ⟨.name a, _, _⟩ :: ⟨.symbol ">", _, _⟩ :: ts =>
    if a = "const" then .ok (.const, ts) else if a = "close" then .ok (.close, ts) else refuse
  | ⟨.symbol "<", _, _⟩ :: _ => refuse
  | ts => .ok (.plain, ts)

/-- Names of local variables with their promises. -/
def localNames : Nat → List Lexeme → Parse (List (String × Attribute) × List Lexeme)
  | 0, _ => refuse
  | n + 1, ts => do
    let (x, ts) ← name ts
    let (a, ts) ← promise ts
    if startsWith "," ts then
      let (xs, ts) ← localNames n (ts.drop 1)
      return ((x, a) :: xs, ts)
    else return ([(x, a)], ts)

/-- Whether an expression can stand left of an assignment. -/
def isTarget : Expr → Bool
  | .name _ => true
  | .index .. => true
  | _ => false

/-- Whether an expression is a call. -/
def isCall : Expr → Bool
  | .call .. => true
  | .method .. => true
  | _ => false

/-- The path of a named function, and whether it is a method. -/
def functionName : Nat → Expr → List Lexeme → Parse (Expr × Bool × List Lexeme)
  | 0, _, _ => .error .syntaxError
  | n + 1, e, ts =>
    match ts with
    | ⟨.symbol ".", _, _⟩ :: ⟨.name x, line, _⟩ :: ts => functionName n (.index line e (nameKey x)) ts
    | ⟨.symbol ":", _, _⟩ :: ⟨.name x, line, _⟩ :: ts => .ok (.index line e (nameKey x), true, ts)
    | ⟨.symbol ".", _, _⟩ :: _ | ⟨.symbol ":", _, _⟩ :: _ => .error .syntaxError
    | ts => .ok (e, false, ts)

mutual

/-- An expression whose operators bind tighter than `limit`. -/
def expr : Nat → Context → Nat → List Lexeme → Parse (Expr × List Lexeme)
  | 0, _, _, _ => refuse
  | n + 1, c, limit, ts => do
    let c ← c.enter ts
    let (left, ts) ←
      match ts with
      | t :: rest =>
        match unary? t.token with
        | some op => do
          let (e, ts) ← expr n c unaryPower rest
          pure (Expr.unary t.line op e, ts)
        | none => simple n c ts
      | [] => refuse
    operators n c limit left ts

/-- The operators after an operand. -/
def operators : Nat → Context → Nat → Expr → List Lexeme → Parse (Expr × List Lexeme)
  | 0, _, _, _, _ => refuse
  | n + 1, c, limit, left, ts =>
    match ts with
    | t :: rest =>
      match infix? t.token with
      | some op =>
        if op.power.1 > limit then do
          let (right, ts) ← expr n c op.power.2 rest
          operators n c limit (op.build t.line (lineBefore ts) left right) ts
        else .ok (left, ts)
      | none => .ok (left, ts)
    | [] => .ok (left, [])

/-- An operand. -/
def simple : Nat → Context → List Lexeme → Parse (Expr × List Lexeme)
  | 0, _, _ => refuse
  | n + 1, c, ts =>
    match ts with
    | ⟨.number (.int i), _, _⟩ :: ts => .ok (.int i, ts)
    | ⟨.number (.float x), _, _⟩ :: ts => .ok (.float x, ts)
    | ⟨.str s, _, _⟩ :: ts => .ok (.str s, ts)
    | ⟨.keyword "nil", _, _⟩ :: ts => .ok (.nil, ts)
    | ⟨.keyword "true", _, _⟩ :: ts => .ok (.bool true, ts)
    | ⟨.keyword "false", _, _⟩ :: ts => .ok (.bool false, ts)
    | ⟨.symbol "...", _, _⟩ :: ts => if c.variadic then .ok (.varargs, ts) else refuse
    | ⟨.symbol "\x7b", _, _⟩ :: ts => constructor n c ts
    | ⟨.keyword "function", _, _⟩ :: ts => do
      let (b, ts) ← body n c ts
      return (.function b, ts)
    | ts => suffixed n c ts

/-- A name or an expression in parentheses, with everything applied to it. -/
def suffixed : Nat → Context → List Lexeme → Parse (Expr × List Lexeme)
  | 0, _, _ => refuse
  | n + 1, c, ts =>
    match ts with
    | ⟨.name x, _, _⟩ :: ts => suffixes n c (.name x) ts
    | ⟨.symbol "(", _, _⟩ :: ts => do
      let (e, ts) ← expr n c 0 ts
      let ts ← symbol ")" ts
      suffixes n c (.paren e) ts
    | _ => refuse

/-- What is applied to an expression: fields, indices, methods and calls. -/
def suffixes : Nat → Context → Expr → List Lexeme → Parse (Expr × List Lexeme)
  | 0, _, _, _ => refuse
  | n + 1, c, e, ts =>
    match ts with
    | ⟨.symbol ".", _, _⟩ :: ts => do
      let line := lineOf ts
      let (x, ts) ← name ts
      suffixes n c (.index line e (nameKey x)) ts
    | ⟨.symbol "[", _, _⟩ :: ts => do
      let (k, ts) ← expr n c 0 ts
      let line := lineOf ts
      let ts ← symbol "]" ts
      suffixes n c (.index line e k) ts
    | ⟨.symbol ":", _, _⟩ :: ts => do
      let (x, ts) ← name ts
      let line := lineOf ts
      let (as, ts) ← arguments n c ts
      suffixes n c (.method line e x as) ts
    | ⟨.str _, line, _⟩ :: _ | ⟨.symbol "(", line, _⟩ :: _ | ⟨.symbol "\x7b", line, _⟩ :: _ => do
      let (as, ts) ← arguments n c ts
      suffixes n c (.call line e as) ts
    | ts => .ok (e, ts)

/-- The arguments of a call. -/
def arguments : Nat → Context → List Lexeme → Parse (List Expr × List Lexeme)
  | 0, _, _ => refuse
  | n + 1, c, ts =>
    match ts with
    | ⟨.str s, _, _⟩ :: ts => .ok ([.str s], ts)
    | ⟨.symbol "\x7b", _, _⟩ :: ts => do
      let (t, ts) ← constructor n c ts
      return ([t], ts)
    | ⟨.symbol "(", _, _⟩ :: ⟨.symbol ")", _, _⟩ :: ts => .ok ([], ts)
    | ⟨.symbol "(", _, _⟩ :: ts => do
      let (es, ts) ← exprs n c ts
      let ts ← symbol ")" ts
      return (es, ts)
    | _ => refuse

/-- A table constructor after its opening brace. -/
def constructor : Nat → Context → List Lexeme → Parse (Expr × List Lexeme)
  | 0, _, _ => refuse
  | n + 1, c, ts => do
    let (fs, ts) ← fields n c ts
    return (.table (lineBefore ts) fs, ts)

/-- The parts of a table constructor, up to its closing brace. -/
def fields : Nat → Context → List Lexeme → Parse (List Field × List Lexeme)
  | 0, _, _ => refuse
  | n + 1, c, ts =>
    match ts with
    | ⟨.symbol "\x7d", _, _⟩ :: ts => .ok ([], ts)
    | ts => do
      let (f, ts) ← field n c ts
      match ts with
      | ⟨.symbol ",", _, _⟩ :: ts | ⟨.symbol ";", _, _⟩ :: ts => do
        let (fs, ts) ← fields n c ts
        return (f :: fs, ts)
      | ⟨.symbol "\x7d", _, _⟩ :: ts => return ([f], ts)
      | _ => refuse

/-- One part of a table constructor. -/
def field : Nat → Context → List Lexeme → Parse (Field × List Lexeme)
  | 0, _, _ => refuse
  | n + 1, c, ts =>
    match ts with
    | ⟨.name x, _, _⟩ :: ⟨.symbol "=", _, _⟩ :: ts => do
      let (v, ts) ← expr n c 0 ts
      return (.entry (nameKey x) v, ts)
    | ⟨.symbol "[", _, _⟩ :: ts => do
      let (k, ts) ← expr n c 0 ts
      let ts ← symbol "]" ts
      let ts ← symbol "=" ts
      let (v, ts) ← expr n c 0 ts
      return (.entry k v, ts)
    | ts => do
      let (v, ts) ← expr n c 0 ts
      return (.item v, ts)

/-- Expressions separated by commas. -/
def exprs : Nat → Context → List Lexeme → Parse (List Expr × List Lexeme)
  | 0, _, _ => refuse
  | n + 1, c, ts => do
    let (e, ts) ← expr n c 0 ts
    if startsWith "," ts then
      let (es, ts) ← exprs n c (ts.drop 1)
      return (e :: es, ts)
    else return ([e], ts)

/-- The parameters and statements of a function, up to its `end`. -/
def body : Nat → Context → List Lexeme → Parse (Body × List Lexeme)
  | 0, _, _ => refuse
  | n + 1, c, ts => do
    let ts ← symbol "(" ts
    let ((params, variadic), ts) ←
      match ts with
      | ⟨.symbol ")", _, _⟩ :: ts => Except.ok (([], false), ts)
      | ts => parameters n ts
    let (stats, ts) ← block n ⟨variadic, false, c.room⟩ ts
    let ts ← keyword "end" ts
    return (.mk params variadic stats, ts)

/-- The statements of a block. A `return` ends it. -/
def block : Nat → Context → List Lexeme → Parse (List Stat × List Lexeme)
  | 0, _, _ => refuse
  | n + 1, c, ts =>
    if endsBlock ts then .ok ([], ts)
    else do
      let inside ← c.enter ts
      match ts with
      | ⟨.symbol ";", _, _⟩ :: ts => block n c ts
      | ⟨.keyword "return", _, _⟩ :: ts => do
        let (es, ts) ←
          if endsBlock ts || startsWith ";" ts then Except.ok ([], ts) else exprs n inside ts
        let ts := if startsWith ";" ts then ts.drop 1 else ts
        if endsBlock ts then return ([.ret es], ts) else refuse
      | ts => do
        let (s, ts) ← stat n inside ts
        let (ss, ts) ← block n c ts
        return (s :: ss, ts)

/-- One statement. -/
def stat : Nat → Context → List Lexeme → Parse (Stat × List Lexeme)
  | 0, _, _ => refuse
  | n + 1, c, ts =>
    match ts with
    | ⟨.keyword "if", _, _⟩ :: ts => conditional n c ts
    | ⟨.keyword "while", _, _⟩ :: ts => do
      let (e, ts) ← expr n c 0 ts
      let ts ← keyword "do" ts
      let (ss, ts) ← block n { c with inLoop := true } ts
      let ts ← keyword "end" ts
      return (.whileDo e ss, ts)
    | ⟨.keyword "do", _, _⟩ :: ts => do
      let (ss, ts) ← block n c ts
      let ts ← keyword "end" ts
      return (.block ss, ts)
    | ⟨.keyword "for", _, _⟩ :: ⟨.name x, _, _⟩ :: ⟨.symbol "=", _, _⟩ :: ts => do
      let (start, ts) ← expr n c 0 ts
      let ts ← symbol "," ts
      let (stop, ts) ← expr n c 0 ts
      let (step, ts) ←
        if startsWith "," ts then do
          let (e, ts) ← expr n c 0 (ts.drop 1)
          Except.ok (some e, ts)
        else .ok (none, ts)
      let line := lineOf ts
      let ts ← keyword "do" ts
      let (ss, ts) ← block n { c with inLoop := true } ts
      let ts ← keyword "end" ts
      return (.numericFor line x start stop step ss, ts)
    | ⟨.keyword "for", line, _⟩ :: ⟨.name x, _, _⟩ :: ts => do
      let (xs, ts) ← moreNames n ts
      let ts ← keyword "in" ts
      let (es, ts) ← exprs n c ts
      let ts ← keyword "do" ts
      let (ss, ts) ← block n { c with inLoop := true } ts
      let ts ← keyword "end" ts
      return (.genericFor line (x :: xs) es ss, ts)
    | ⟨.keyword "repeat", _, _⟩ :: ts => do
      let (ss, ts) ← block n { c with inLoop := true } ts
      let ts ← keyword "until" ts
      let (e, ts) ← expr n c 0 ts
      return (.repeatUntil ss e, ts)
    | ⟨.keyword "function", line, _⟩ :: ⟨.name x, _, _⟩ :: ts => do
      let (target, isMethod, ts) ← functionName n (.name x) ts
      let (b, ts) ← body n c ts
      let b := if isMethod then .mk ("self" :: b.params) b.variadic b.stats else b
      return (.assign line [target] [.function b], ts)
    | ⟨.keyword "local", _, _⟩ :: ⟨.keyword "function", _, _⟩ :: ⟨.name x, _, _⟩ :: ts => do
      let (b, ts) ← body n c ts
      return (.localFunction x b, ts)
    | ⟨.keyword "local", _, _⟩ :: ts => do
      let (xs, ts) ← localNames n ts
      if startsWith "=" ts then
        let (es, ts) ← exprs n c (ts.drop 1)
        return (.local xs es, ts)
      else return (.local xs [], ts)
    | ⟨.keyword "break", _, _⟩ :: ts => if c.inLoop then .ok (.brk, ts) else refuse
    | ⟨.keyword "goto", _, _⟩ :: ⟨.name l, _, _⟩ :: ts => .ok (.goto l, ts)
    | ⟨.symbol "::", _, _⟩ :: ⟨.name l, _, _⟩ :: ⟨.symbol "::", _, _⟩ :: ts => .ok (.label l, ts)
    | ts => do
      let (e, ts) ← suffixed n c ts
      if startsWith "=" ts || startsWith "," ts then
        let (targets, c, ts) ← moreTargets n c [e] ts
        let ts ← symbol "=" ts
        let (es, ts) ← exprs n c ts
        return (.assign (lineBefore ts) targets es, ts)
      else if isCall e then return (.call e, ts)
      else refuse

/-- The condition and the blocks of a conditional, after its first word. -/
def conditional : Nat → Context → List Lexeme → Parse (Stat × List Lexeme)
  | 0, _, _ => refuse
  | n + 1, c, ts => do
    let (e, ts) ← expr n c 0 ts
    let ts ← keyword "then" ts
    let (ss, ts) ← block n c ts
    match ts with
    | ⟨.keyword "elseif", _, _⟩ :: ts => do
      let (s, ts) ← conditional n c ts
      return (.ifThen e ss [s], ts)
    | ⟨.keyword "else", _, _⟩ :: ts => do
      let (other, ts) ← block n c ts
      let ts ← keyword "end" ts
      return (.ifThen e ss other, ts)
    | ts => do
      let ts ← keyword "end" ts
      return (.ifThen e ss [], ts)

/-- The further targets of an assignment, the last of those read standing first in `acc`. Every one
is a level further down. -/
def moreTargets : Nat → Context → List Expr → List Lexeme →
    Parse (List Expr × Context × List Lexeme)
  | 0, _, _, _ => refuse
  | n + 1, c, acc, ts =>
    if !acc.head?.any isTarget then refuse
    else if startsWith "," ts then do
      let (e, ts) ← suffixed n c (ts.drop 1)
      moreTargets n (← c.enter ts) (e :: acc) ts
    else .ok (acc.reverse, c, ts)

end

end Parser

end Tasklang.Lua
