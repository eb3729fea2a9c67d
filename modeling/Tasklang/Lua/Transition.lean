import Tasklang.Lua.Frame
import Tasklang.Lua.Library

/-! # Steps of evaluation

One step of evaluation: what is done next, and what waits for it, give what is done after that.
Calls from Lua code push frames. Metamethods and library functions call functions by a parameter,
so that a step needs no evaluator.
-/

namespace Tasklang.Lua

open Code

namespace Transition

variable (apply : Apply)

/-- Go on with something else. -/
def go (c : Control) (k : List Frame) : Code Value State := return .running c k

/-- Evaluate an expression for what waits for one value. -/
def evalFor (env : Env) (e : Expr) (f : ValueFrame) (k : List Frame) : Code Value State :=
  go (.eval env e) (.value f :: k)

/-- The function that a call of a value comes to, with its arguments: a value that is no function
is the first argument of its metamethod. -/
def resolve (c : Caller) : Nat → Value → List Value → Code Value (Function × List Value)
  | _, .function f, args => return (f, args)
  | 0, _, _ => c.raise "stack overflow"
  | hops + 1, v, args => do
    match ← metamethod v "__call" with
    | .nil => c.raise ("attempt to call a " ++ v.typeName ++ " value")
    | handler => resolve c hops handler (v :: args)

/-- Enter the body of a function. -/
def enter (site : Site) (ref : Nat) (args : List Value) (k : List Frame) : Code Value State := do
  let c : Caller := ⟨site, apply⟩
  match (← get).closures[ref]? with
  | none => c.raise "attempt to call a function value"
  | some f =>
    let params := f.body.params
    let variadic := f.body.variadic
    let base := if variadic then site.top + args.length + 1 else site.top
    if Site.stackLimit < base + params.length then c.raise "stack overflow"
    let env : Env := {
      locals := f.captured
      activation := {
        chunk := f.chunk
        varargs := if variadic then args.drop params.length else []
        trace := site.trace
        levels := site.levels
        base } }
    let env ← env.extendAll params args
    go (.exec (.block env f.body.stats)) (.flow .body :: k)

/-- Call a value at a site. -/
def call (site : Site) (callee : Value) (args : List Value) (k : List Frame) :
    Code Value State := do
  let c : Caller := ⟨site, apply⟩
  match ← resolve c Site.stackLimit callee args with
  | (.closure ref, args) => enter apply site ref args k
  | (f, args) => go (.giveAll (← applyLibrary c f args)) k

/-- Call a value from code. A tail call takes the place of the function that makes it; the call of
a library function leaves it until that is done. -/
def callFrom (env : Env) (line : Nat) (name : CalleeName) (tail : Bool) (callee : Value)
    (args : List Value) (k : List Frame) : Code Value State := do
  let site := env.site line name
  if !tail then call apply site callee args k
  else
    let c : Caller := ⟨site, apply⟩
    match ← resolve c Site.stackLimit callee args with
    | (.closure ref, args) =>
      enter apply { site with trace := env.activation.trace, top := env.activation.base } ref args
        (callerFrames k)
    | (f, args) => go (.leave (.returned (← applyLibrary c f args))) k

/-- Evaluate a call, whose results are those of the function that makes it when it is a tail
call. -/
def evalCall (env : Env) (e : Expr) (tail : Bool) (k : List Frame) : Code Value State :=
  match e with
  | .call line f args => evalFor env f (.callee env line f.calleeName args tail) k
  | .method line o name args => evalFor env o (.receiver env line name args tail) k
  | e => go (.eval env e) k

/-- Evaluate an expression. -/
def eval (env : Env) (e : Expr) (k : List Frame) : Code Value State := do
  if !e.hasCall then
    match e with
    | .varargs => go (.giveAll env.activation.varargs) k
    | e => go (.give (← env.value apply e)) k
  else
    match e with
    | .paren e => evalFor env e .only k
    | .unary line op e => evalFor env e (.unary env line op) k
    | .binary line op l r =>
      match env.heldLeft? op l with
      | some c => evalFor env r (.rightOperand env line op (.cell c)) k
      | none => evalFor env l (.leftOperand env line op r) k
    | .and l r => evalFor env l (.shortcut env true r) k
    | .or l r => evalFor env l (.shortcut env false r) k
    | .index line o key =>
      match env.heldObject? o with
      | some c => evalFor env key (.key env line (.cell c)) k
      | none => evalFor env o (.object env line key) k
    | .table line fs => do go (.fill env line (← Filling.start fs) fs) k
    | .call .. => evalCall env e false k
    | .method .. => evalCall env e false k
    | _ => go (.give .nil) k

/-- Evaluate the expressions of a list. -/
def list (env : Env) (done : List Value) (es : List Expr) (k : List Frame) : Code Value State :=
  match es with
  | [] => go (.giveAll done.reverse) k
  | [e] => go (.eval env e) (if done.isEmpty then k else .values (.listEnd done) :: k)
  | e :: es => do
    if e.hasCall then evalFor env e (.listItem env done es) k
    else go (.list env ((← env.value apply e) :: done) es) k

/-- Evaluate expressions for what waits for their values. -/
def listFor (env : Env) (es : List Expr) (f : ListFrame) (k : List Frame) : Code Value State := do
  if es.any Expr.hasCall then go (.list env [] es) (.values f :: k)
  else go (.giveAll (← env.values apply es)) (.values f :: k)

/-- Fill a table. -/
def fill (env : Env) (line : Nat) (f : Filling) (fs : List Field) (k : List Frame) :
    Code Value State := do
  match fs with
  | [] => go (.give (← f.finish [])) k
  | .item e :: fs =>
    let f ← f.ready
    if fs.isEmpty && e.isMultiple then go (.eval env e) (.values (.tableEnd f) :: k)
    else evalFor env e (.tableItem env line f fs) k
  | .entry key e :: fs =>
    let f ← f.ready
    match env.held? key with
    | some c => evalFor env e (.entryValue env line f (.cell c) fs) k
    | none => evalFor env key (.entryKey env line f e fs) k

/-- The value of a part of a target, if that is the variable with a cell: it is kept when the
variable is a target itself. -/
def keep (c : Nat) (o : Operand) : Code Value Operand :=
  match o with
  | .cell d => if c = d then do return .value (← cell c) else return o
  | .value _ => return o

/-- Evaluate the key of a target, after its object. -/
def targetKey (a : Assignment) (object : Operand) (key : Expr) (more : List Expr)
    (k : List Frame) : Code Value State :=
  let env := a.rest.env
  match env.held? key with
  | some c =>
    go (.assign { a with targets := more, evaluated := .slot object (.cell c) :: a.evaluated }) k
  | none => evalFor env key (.targetKey a object more) k

/-- Evaluate the targets of an assignment. -/
def assign (a : Assignment) (k : List Frame) : Code Value State := do
  let env := a.rest.env
  match a.targets with
  | [] => listFor apply env a.values (.stored a) k
  | .name x :: more =>
    match env.cell? x with
    | some c =>
      let evaluated ← a.evaluated.mapM fun t => (match t with
        | .cell d => return Target.cell d
        | .slot object key => return .slot (← keep c object) (← keep c key) : Code Value Target)
      go (.assign { a with targets := more, evaluated := .cell c :: evaluated }) k
    | none =>
      let object ← (match env.heldTarget? (.name environmentName) (nameKey x) with
        | some c => return Operand.cell c
        | none => return .value (← env.globals))
      let target := Target.slot object (.value (.ofString x))
      go (.assign { a with targets := more, evaluated := target :: a.evaluated }) k
  | .index _ o key :: more =>
    match env.heldTarget? o key with
    | some c => targetKey a (.cell c) key more k
    | none => evalFor env o (.targetObject a key more) k
  | _ :: more => go (.assign { a with targets := more }) k

/-- Store a value in a target. -/
def store (env : Env) (line : Nat) (t : Target) (v : Value) : Code Value Unit := do
  match t with
  | .cell c => setCell c v
  | .slot object key =>
    setIndex (env.caller apply line) metaHops (← object.read) (← key.read) v

/-- Store values in the targets of an assignment, the last one first. -/
def storeAll (a : Assignment) (vs : List Value) : Code Value Unit :=
  let n := a.evaluated.length
  let vs := (vs.take n ++ List.replicate (n - vs.length) Value.nil).reverse
  (a.evaluated.zip vs).forM fun (t, v) => store apply a.rest.env a.line t v

/-- Close a variable at the end of its scope, or because of an error. -/
def close (env : Env) (v thrown : Value) : Code Value Unit := do
  discard ((env.caller apply 0).call (← metamethod v "__close") [v, thrown])

/-- Let a variable be closed at the end of its scope, unless its value needs that not. -/
def pushClosing (env : Env) (name : String) (v : Value) (k : List Frame) :
    Code Value (List Frame) := do
  if !v.truthy then return k
  match ← metamethod v "__close" with
  | .nil =>
    (env.caller apply 0).raise ("variable '" ++ name ++ "' got a non-closable value")
  | _ => return .flow (.closing env v) :: k

/-- Declare variables for the rest of a block. -/
def declare (rest : Rest) (names : List (String × Attribute)) (vs : List Value) (k : List Frame) :
    Code Value State := do
  let env ← rest.env.extendAll (names.map (·.1)) vs
  match names.findIdx? fun (_, a) => a == .close with
  | none => go (.exec { rest with env }) k
  | some i =>
    let k := Rest.push { rest with stats := [] } k
    let k ← pushClosing apply env ((names.getD i ("", .plain)).1) (vs.getD i .nil) k
    go (.exec (.block { env with closing := true } rest.stats)) k

/-- Test the condition of a loop. -/
def test (env : Env) (condition : Expr) (stats : List Stat) (k : List Frame) : Code Value State :=
  evalFor env condition (.loopTest env condition stats) k

/-- Run the body of a loop over integers. -/
def countInts (env : Env) (name : String) (at_ step : Int64) (more : Nat) (stats : List Stat)
    (k : List Frame) : Code Value State := do
  let inner ← env.extend name (.int at_)
  go (.exec (.block inner stats)) (.flow (.countInts env name at_ step more stats) :: k)

/-- Run the body of a loop over doubles. -/
def countDoubles (env : Env) (name : String) (at_ stop step : Double) (stats : List Stat)
    (k : List Frame) : Code Value State := do
  let inner ← env.extend name (.float at_)
  go (.exec (.block inner stats)) (.flow (.countDoubles env name at_ stop step stats) :: k)

/-- Call the function of a loop and run the body, unless its first result is nil. -/
def iterate (env : Env) (line : Nat) (names : List String) (f state control : Value)
    (stats : List Stat) (k : List Frame) : Code Value State := do
  let vs ← (env.caller apply line).call f [state, control]
  match first vs with
  | .nil => go .finish k
  | control =>
    let inner ← env.extendAll names vs
    go (.exec (.block inner stats)) (.flow (.iterating env line names f state control stats) :: k)

/-- Execute statements. -/
def exec (rest : Rest) (k : List Frame) : Code Value State := do
  let env := rest.env
  match rest.stats with
  | [] => go .finish k
  | s :: more =>
    let after : Rest := { rest with stats := more }
    match s with
    | .label name => go (.exec { after with labels := (name, env, more) :: rest.labels }) k
    | .local names es => listFor apply env es (.declaration after names) k
    | .assign line targets values => assign apply ⟨after, line, targets, values, []⟩ k
    | .call e => go (.eval env e) (.values (.dropped after) :: k)
    | .block ss => go (.exec (.block env ss)) (after.push k)
    | .whileDo c ss => test env c ss (after.push k)
    | .repeatUntil ss c =>
      let stats := ss ++ [.ifThen c [.brk] []]
      go (.exec (.block env stats)) (.flow (.repeating env stats) :: after.push k)
    | .ifThen c yes no => evalFor env c (.choice env yes no) (after.push k)
    | .numericFor line name start stop step ss =>
      listFor apply env [start, stop, step.getD (.int 1), .nil] (.range env line name ss)
        (after.push k)
    | .genericFor line names es ss =>
      listFor apply env es (.iterator { env with closing := true } line names ss) (after.push k)
    | .localFunction name b =>
      let env ← env.extend name .nil
      let f ← env.closure b
      match env.ownCell? name with
      | some c => setCell c f
      | none => Pure.pure ()
      go (.exec { after with env }) k
    | .ret [e] =>
      if e.isMultiple && e.hasCall && !env.closing then evalCall env e true k
      else listFor apply env [e] .ret k
    | .ret es => listFor apply env es .ret k
    | .brk => go (.leave .brk) k
    | .goto name => match after.jump? name with
      | some target => go (.exec target) k
      | none => go (.leave (.jump name)) k

/-- Give a value to what waits for it. -/
def resumeValue (f : ValueFrame) (v : Value) (k : List Frame) : Code Value State := do
  match f with
  | .only => go (.give v) k
  | .leftOperand env line op right => evalFor env right (.rightOperand env line op (.value v)) k
  | .rightOperand env line op left =>
    go (.give (← binary (env.caller apply line) op (← left.read) v)) k
  | .unary env line op => go (.give (← unary (env.caller apply line) op v)) k
  | .shortcut env when_ right =>
    if v.truthy == when_ then evalFor env right .only k else go (.give v) k
  | .object env line key => evalFor env key (.key env line (.value v)) k
  | .key env line object =>
    go (.give (← index (env.caller apply line) metaHops (← object.read) v)) k
  | .callee env line name args tail => listFor apply env args (.arguments env line name v tail) k
  | .receiver env line name args tail =>
    let f ← index (env.caller apply line) metaHops v (.ofString name)
    go (.list env [v] args) (.values (.arguments env line (.method name) f tail) :: k)
  | .listItem env done more => go (.list env (v :: done) more) k
  | .tableItem env line f more => go (.fill env line (f.add v) more) k
  | .entryKey env line f value more => evalFor env value (.entryValue env line f (.value v) more) k
  | .entryValue env line f key more =>
    rawSet (env.caller apply line) f.table (← key.read) v
    go (.fill env line f more) k
  | .choice env yes no => go (.exec (.block env (if v.truthy then yes else no))) k
  | .loopTest env condition stats =>
    if v.truthy then
      go (.exec (.block env stats)) (.flow (.whileDo env condition stats) :: k)
    else go .finish k
  | .targetObject a key more => targetKey a (.value v) key more k
  | .targetKey a object more =>
    go (.assign { a with targets := more, evaluated := .slot object (.value v) :: a.evaluated }) k

/-- Give values to what waits for them. -/
def resumeList (f : ListFrame) (vs : List Value) (k : List Frame) : Code Value State := do
  match f with
  | .listEnd done => go (.giveAll (done.reverse ++ vs)) k
  | .arguments env line name callee tail => callFrom apply env line name tail callee vs k
  | .tableEnd f => go (.give (← f.finish vs)) k
  | .ret => go (.leave (.returned vs)) k
  | .dropped rest => go (.exec rest) k
  | .declaration rest names => declare apply rest names vs k
  | .stored a =>
    storeAll apply a vs
    go (.exec a.rest) k
  | .range env line name stats =>
    match Range.of? (vs.getD 0 .nil) (vs.getD 1 .nil) (vs.getD 2 .nil) with
    | .error message => (env.caller apply line).raise message
    | .ok .empty => go .finish k
    | .ok (.ints start step more) => countInts env name start step more stats k
    | .ok (.doubles start stop step) => countDoubles env name start stop step stats k
  | .iterator env line names stats =>
    let k ← pushClosing apply env "(for state)" (vs.getD 3 .nil) k
    iterate apply env line names (vs.getD 0 .nil) (vs.getD 1 .nil) (vs.getD 2 .nil) stats k

/-- End statements. -/
def finish (f : FlowFrame) (k : List Frame) : Code Value State := do
  match f with
  | .next rest => go (.exec rest) k
  | .body => go (.giveAll []) k
  | .closing env v =>
    close apply env v .nil
    go .finish k
  | .whileDo env condition stats => test env condition stats k
  | .repeating env stats => go (.exec (.block env stats)) (.flow (.repeating env stats) :: k)
  | .countInts env name at_ step more stats => match more with
    | 0 => go .finish k
    | more + 1 => countInts env name (at_ + step) step more stats k
  | .countDoubles env name at_ stop step stats =>
    let at_ := at_.combine (· + ·) step
    if Range.goesOn at_ stop step then countDoubles env name at_ stop step stats k
    else go .finish k
  | .iterating env line names f state control stats =>
    iterate apply env line names f state control stats k

/-- End statements other than at their end. -/
def leave (x : Exit) (f : FlowFrame) (k : List Frame) : Code Value State := do
  match f, x with
  | .closing env v, x =>
    close apply env v .nil
    go (.leave x) k
  | .body, .returned vs => go (.giveAll vs) k
  | .body, _ => go (.giveAll []) k
  | .next rest, .jump label => match rest.jump? label with
    | some target => go (.exec target) k
    | none => go (.leave x) k
  | .next _, x => go (.leave x) k
  | _, .brk => go .finish k
  | _, x => go (.leave x) k

end Transition

open Transition in
/-- One step of evaluation. -/
def step (apply : Apply) (c : Control) (k : List Frame) : Code Value State := do
  match c with
  | .call site callee args => call apply site callee args k
  | .eval env e => eval apply env e k
  | .list env done es => list apply env done es k
  | .fill env line f fs => fill env line f fs k
  | .assign a => assign apply a k
  | .exec rest => exec apply rest k
  | .test env condition stats => test env condition stats k
  | .unwind env v thrown =>
    close apply env v thrown
    throw thrown
  | .give v => match k with
    | .value f :: k => resumeValue apply f v k
    | .values f :: k => resumeList apply f [v] k
    | _ => return .ended [v]
  | .giveAll vs => match k with
    | .value f :: k => resumeValue apply f (first vs) k
    | .values f :: k => resumeList apply f vs k
    | _ => return .ended vs
  | .finish => match k with
    | .flow f :: k => finish apply f k
    | _ => return .ended []
  | .leave x => match k with
    | .flow f :: k => leave apply x f k
    | _ => return .ended []

end Tasklang.Lua
