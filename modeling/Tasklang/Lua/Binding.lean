import Tasklang.Lua.Label
import Tasklang.Lua.Parser

/-! # Variables of source

Which variable a name stands for, and what functions need: places for their variables and for
values that wait, and variables of the functions around them. All of it is limited, and a variable
that is promised not to change cannot be a target.
-/

namespace Tasklang.Lua.Binding

/-- How many local variables of a function can be in scope together. -/
def variableLimit : Nat := 200

/-- How many variables of the functions around it a function can use. -/
def captureLimit : Nat := 255

/-- How many places a function can have. -/
def placeLimit : Nat := 254

/-- How many values of a table constructor wait together to be stored. -/
def storeTogether : Nat := 50

/-- A local variable; one whose value is known from the source takes no place. -/
structure Variable where
  name : String
  promise : Attribute := .plain
  known : Bool := false
  deriving DecidableEq, Repr

/-- The variables in scope: those of this function, innermost first, and those of the functions
around it. -/
structure Scopes where
  own : List Variable
  outer : List (List Variable)

/-- What a part of a function needs. -/
structure Needs where
  /-- The number of places, counted from the start of the function. -/
  places : Nat := 0
  /-- The variables of the functions around. -/
  captured : List String := []

/-- What two parts of a function need. -/
def Needs.join (a b : Needs) : Needs :=
  ⟨max a.places b.places, a.captured ++ b.captured.filter fun x => !a.captured.contains x⟩

/-- What is found out about a piece of source. -/
abbrev Check := Except ParseError

/-- The variable that a name stands for in a list. -/
def find (x : String) (vs : List Variable) : Option Variable := vs.find? fun v => v.name == x

/-- The variable of the functions around that a name stands for. -/
def findOuter (x : String) : List (List Variable) → Option Variable
  | [] => none
  | vs :: rest => (find x vs).or (findOuter x rest)

namespace Scopes

/-- The places that the variables of this function take. -/
def free (s : Scopes) : Nat := (s.own.filter fun v => !v.known).length

/-- What reading or giving a value to a name needs. -/
def use (s : Scopes) (x : String) : Needs :=
  if (find x s.own).isSome then {}
  else match findOuter x s.outer with
    | some v => if v.known then {} else { captured := [x] }
    | none => if (find environmentName s.own).isSome then {} else { captured := [environmentName] }

/-- The variable that a name stands for. -/
def find? (s : Scopes) (x : String) : Option Variable := (find x s.own).or (findOuter x s.outer)

/-- The scopes with more variables. -/
def declare (s : Scopes) (vs : List Variable) : Check Scopes :=
  if s.own.length + vs.length ≤ variableLimit then .ok { s with own := vs.reverse ++ s.own }
  else .error .syntaxError

/-- Whether the value of an operand has a place already or needs none. -/
def holds (s : Scopes) : Expr → Bool
  | .name x => match find x s.own with
    | some v => !v.known
    | none => false
  | .paren e => s.holds e
  | .int _ => true
  | .float _ => true
  | _ => false

end Scopes

/-- Whether a value is known from the source. -/
def isKnown (s : Scopes) : Expr → Bool
  | .nil | .bool _ | .int _ | .float _ | .str _ => true
  | .name x => match s.find? x with
    | some v => v.known
    | none => false
  | .unary _ .neg (.int _) | .unary _ .neg (.float _) | .unary _ .bnot (.int _) => true
  | _ => false

/-- The variables that a declaration makes. -/
def declared (s : Scopes) : List (String × Attribute) → List Expr → List Variable
  | [], _ => []
  | [(x, a)], [e] => [⟨x, a, a = .const && isKnown s e⟩]
  | (x, a) :: xs, es => ⟨x, a, false⟩ :: declared s xs (es.drop 1)

/-- Variables without a name in the source, and variables of a loop. -/
def loopVariables (hidden : Nat) (names : List String) : List Variable :=
  List.replicate hidden ⟨"(for state)", .plain, false⟩ ++ names.map fun x => ⟨x, .plain, false⟩

mutual

/-- What it needs to bring the value of an expression to a place. -/
def expr (s : Scopes) (free : Nat) : Expr → Check Needs
  | .name x => .ok ((s.use x).join { places := free + 1 })
  | .index _ o k => do
    let object ← expr s free o
    let key ← expr s (if s.holds o then free else free + 1) k
    return object.join key
  | .call _ f as => do
    let callee ← expr s free f
    return callee.join (← exprs s (free + 1) as)
  | .method _ o _ as => do
    let object ← expr s free o
    return (object.join { places := free + 2 }).join (← exprs s (free + 2) as)
  | .paren e => expr s free e
  | .unary _ _ e => expr s free e
  | .binary _ op l r => do
    let left ← expr s free l
    let waits := op = .concat || !s.holds l
    return left.join (← expr s (if waits then free + 1 else free) r)
  | .and l r => do return (← expr s free l).join (← expr s free r)
  | .or l r => do return (← expr s free l).join (← expr s free r)
  | .table _ fs => do return ({ places := free + 1 } : Needs).join (← fields s (free + 1) 0 fs)
  | .function b => do return ({ places := free + 1 } : Needs).join (← function s b)
  | _ => .ok { places := free + 1 }

/-- What it needs to bring the values of expressions to places next to each other. -/
def exprs (s : Scopes) (free : Nat) : List Expr → Check Needs
  | [] => .ok {}
  | e :: es => do return (← expr s free e).join (← exprs s (free + 1) es)

/-- What the parts of a table constructor need, with so many values that wait to be stored. -/
def fields (s : Scopes) (free waiting : Nat) : List Field → Check Needs
  | [] => .ok {}
  | .item e :: rest => do
    let waiting := if waiting = storeTogether then 0 else waiting
    let value ← expr s (free + waiting) e
    return value.join (← fields s free (waiting + 1) rest)
  | .entry k e :: rest => do
    let waiting := if waiting = storeTogether then 0 else waiting
    let key ← expr s (free + waiting) k
    let value ← expr s (if s.holds k then free + waiting else free + waiting + 1) e
    return (key.join value).join (← fields s free waiting rest)

/-- What a function inside another needs of it. -/
def function (s : Scopes) : Body → Check Needs
  | .mk params _ stats => do
    let inner ← Scopes.declare ⟨[], s.own :: s.outer⟩ (params.map fun x => ⟨x, .plain, false⟩)
    let (needs, _) ← block inner stats
    if placeLimit < needs.places || captureLimit < needs.captured.length
        || !Label.wellPlaced params.length stats then .error .syntaxError
    return { captured := needs.captured.filter fun x => (find x s.own).isNone }

/-- What the targets of an assignment need, and how many places they keep. -/
def targets (s : Scopes) (free : Nat) : List Expr → Check (Needs × Nat)
  | [] => .ok ({}, free)
  | .name x :: rest => do
    match s.find? x with
    | some v => if v.promise ≠ .plain then .error .syntaxError
    | none => pure ()
    let (more, free) ← targets s free rest
    return ((s.use x).join more, free)
  | .index _ o k :: rest => do
    let object ← expr s free o
    let free := if s.holds o then free else free + 1
    let key ← expr s free k
    let free := match k with
      | .str _ => free
      | _ => if s.holds k then free else free + 1
    let (more, free) ← targets s free rest
    return ((object.join key).join more, free)
  | _ :: _ => .error .syntaxError

/-- What a statement needs, and the variables in scope after it. -/
def stat (s : Scopes) : Stat → Check (Needs × Scopes)
  | .local names es => do
    let needs ← exprs s s.free es
    if 1 < (names.filter fun (_, a) => a = .close).length then .error .syntaxError
    let after ← s.declare (declared s names es)
    return (needs.join { places := after.free }, after)
  | .assign _ ts es => do
    let (needs, free) ← targets s s.free ts
    return (needs.join (← exprs s free es), s)
  | .call e => do return (← expr s s.free e, s)
  | .block ss => do return ((← block s ss).1, s)
  | .whileDo c ss => do return ((← expr s s.free c).join (← block s ss).1, s)
  | .repeatUntil ss c => do
    let (needs, inner) ← block s ss
    return (needs.join (← expr inner inner.free c), s)
  | .ifThen c ss other => do
    let first ← expr s s.free c
    return (first.join ((← block s ss).1.join (← block s other).1), s)
  | .numericFor _ x start stop step ss => do
    let limits := (← expr s s.free start).join (← expr s (s.free + 1) stop)
    let step ← match step with
      | some e => expr s (s.free + 2) e
      | none => Except.ok { places := s.free + 3 }
    let inner ← s.declare (loopVariables 3 [x])
    return ((limits.join step).join (← block inner ss).1, s)
  | .genericFor _ names es ss => do
    let needs ← exprs s s.free es
    let inner ← s.declare (loopVariables 4 names)
    return ((needs.join { places := inner.free + 3 }).join (← block inner ss).1, s)
  | .localFunction x b => do
    let after ← s.declare [⟨x, .plain, false⟩]
    return ((← function after b).join { places := after.free }, after)
  | .ret es => do return (← exprs s s.free es, s)
  | _ => .ok ({}, s)

/-- What the statements of a block need, and the variables in scope at its end. -/
def block (s : Scopes) : List Stat → Check (Needs × Scopes)
  | [] => .ok ({ places := s.free }, s)
  | st :: rest => do
    let (needs, s) ← stat s st
    let (more, inner) ← block s rest
    return (needs.join more, inner)

end

/-- Whether a chunk, which is a function around which there is the environment only, can be
compiled. -/
def check (chunk : Chunk) : Check Unit := do
  let _ ← function ⟨[⟨environmentName, .plain, false⟩], []⟩ (.mk [] true chunk)

end Tasklang.Lua.Binding
