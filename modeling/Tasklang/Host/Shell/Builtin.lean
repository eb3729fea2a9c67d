import Tasklang.Host.Shell.Condition
import Tasklang.Host.Shell.Listing
import Tasklang.Host.Shell.Mask
import Tasklang.Host.Shell.Session
import Tasklang.Host.Shell.Signal
import Tasklang.Host.Shell.Token

/-! # Commands of the shell itself

The commands that need no program and run no other commands. A mistake in the arguments of a
special command ends the shell; other commands fail with a code.
-/

namespace Tasklang.Shell

open Tasklang.Shell.Action

namespace Builtin

/-- A text of digits as a number. -/
def natOf (text : String) : Action Nat :=
  match text.toNat? with
  | some n => if text.all Char.isDigit then return n else fail ("Illegal number: " ++ text)
  | none => fail ("Illegal number: " ++ text)

/-- The number that the first argument says. -/
def firstNat (args : List String) (otherwise : Nat) : Action Nat :=
  match args with
  | [] => return otherwise
  | a :: _ => natOf a

/-- The options at the start of arguments, and the other arguments. -/
def optionsOf (known : List (Char × Bool)) (args : List String) :
    Action (List (Char × String) × List String) :=
  match Options.read known args with
  | .ok found => return found
  | .error complaint => fail complaint

/-- The arguments after options without values. -/
def argumentsOf (letters : List Char) (args : List String) : Action (List String) := do
  return (← optionsOf (letters.map (·, false)) args).2

/-- Refuse what cannot be the name of a variable. -/
def checkName (name : String) : Action Unit :=
  if isName name.toList then return () else fail (name ++ ": bad variable name")

/-- Leave a number of loops, or go on with the next round of the last of them. -/
def leaveLoops (jump : Nat → Jump) (args : List String) : Action Unit := do
  let n ← firstNat args 1
  if n = 0 then fail "Illegal number: 0"
  setStatus 0
  let s ← get
  let levels := min n s.loops
  if 0 < levels then throw (jump levels)

/-- Drop arguments. -/
def shift (args : List String) : Action Unit := do
  let n ← firstNat args 1
  let s ← get
  if s.parameters.length < n then fail "can't shift that many"
  set { s with parameters := s.parameters.drop n, status := 0, optionPlace := {} }

/-- Set one option or not. -/
def setOption (isOn : Bool) (letter : Char) : Action Unit := do
  if Options.letters.contains letter then
    modify fun s => { s with options := Options.change s.options isOn letter }
  else fail ("Illegal option -" ++ String.ofList [letter])

/-- Set the options that letters name; the names of others come from the arguments, which are left. -/
def setLetters (isOn : Bool) : List Char → List String → Action (List String)
  | [], rest => return rest
  | 'o' :: cs, [] => do
    let s ← get
    emitLines (if isOn then Options.table s.options else Options.commands s.options)
    setLetters isOn cs []
  | 'o' :: cs, name :: rest => do
    match Options.settings.lookup name with
    | none => fail ("Illegal option -o " ++ name)
    | some letter =>
      if let some c := letter then setOption isOn c
      setLetters isOn cs rest
  | c :: cs, rest => do
    setOption isOn c
    setLetters isOn cs rest

/-- Set options, and give the other arguments if there are some or none are asked for. -/
def setOptions : Nat → List String → Action (Option (List String))
  | 0, _ | _, [] => return none
  | n + 1, a :: rest => do
    match a.toList with
    | ['-', '-'] => return some rest
    | ['-'] =>
      modify fun s => { s with options := s.options.filter fun c => c != 'x' && c != 'v' }
      return if rest.isEmpty then none else some rest
    | '-' :: cs => setOptions n (← setLetters true cs rest)
    | '+' :: cs => setOptions n (← setLetters false cs rest)
    | _ => return some (a :: rest)

/-- List variables after a word, each with its value. -/
def listVariables (word : String) (bindings : List (String × Variable)) : Action Unit := do
  emitLines ((Listing.byName (·.1) bindings).map fun (x, v) =>
    word ++ x ++ match v.value with
      | some value => "=" ++ Listing.quoted value
      | none => "")

/-- Set options and arguments, or list the variables. -/
def setCommand (args : List String) : Action Unit := do
  if args.isEmpty then
    listVariables "" ((← get).bindings.filter fun (_, v) => v.value.isSome)
  else
    match ← setOptions (args.length + 1) args with
    | some parameters => modify fun s => { s with parameters, optionPlace := {} }
    | none => pure ()
  setStatus 0

/-- The name and the value of an assignment, when a text is one. -/
def assignment? (text : String) : String × Option String :=
  let name := text.toList.takeWhile (· != '=')
  match text.toList.drop name.length with
  | _ :: value => (String.ofList name, some (String.ofList value))
  | [] => (text, none)

/-- Give variables an attribute, and values to those that come with one; without any, list those that
have it. -/
def mark (word : String) (has : Variable → Bool) (give : Variable → Variable)
    (args : List String) : Action Unit := do
  let names ← argumentsOf ['p'] args
  if names.isEmpty then
    listVariables (word ++ " ") ((← get).bindings.filter fun (_, v) => has v)
  else
    names.forM fun a => do
      let (x, value) := assignment? a
      checkName x
      match value with
      | some value => assign x value
      | none => pure ()
      modify fun s => s.setVariable x (some (give (s.variableOf x)))
  setStatus 0

/-- Hide variables until the end of the current function. One without a new value keeps its own. -/
def hide (args : List String) : Action Unit := do
  if (← get).hidden.isNone then fail "not in a function"
  args.forM fun a => do
    let (x, value) := assignment? a
    checkName x
    modify fun s =>
      { s with hidden := s.hidden.map fun hidden =>
          if hidden.any (·.1 == x) then hidden else (x, s.bindings.lookup x) :: hidden }
    match value with
    | some value => assign x value
    | none => pure ()
  setStatus 0

/-- Remove variables or functions. -/
def unset (args : List String) : Action Unit := do
  let (options, names) ← optionsOf [('v', false), ('f', false)] args
  names.forM fun x => do
    if (options.getLast?.map (·.1)) == some 'f' then
      modify fun s => { s with functions := s.functions.filter (·.1 != x) }
    else
      checkName x
      if ((← get).variableOf x).isConstant then fail (x ++ ": is read only")
      modify fun s => s.setVariable x none
  setStatus 0

/-- Go to a directory. -/
def changeDirectory (args : List String) : Action Unit := do
  let args ← argumentsOf ['L', 'P'] args
  let s ← get
  let target := match args with
    | [] => s.valueOf? "HOME"
    | "-" :: _ => s.valueOf? "OLDPWD"
    | path :: _ => some path
  match target with
  | none | some "" => setStatus 0
  | some path =>
    match s.files.resolve s.cwd path with
    | .ok place =>
      if s.files.isDirectory s.cwd path then
        modify fun s => { s with cwd := place, status := 0 }
        let after ← get
        assign "OLDPWD" s.directory
        assign "PWD" after.directory
        modify fun s =>
          let seen (x : String) (s : Session) : Session :=
            s.setVariable x (some { s.variableOf x with exported := true })
          seen "PWD" (seen "OLDPWD" s)
        if args.head? = some "-" then emitLines [after.directory]
      else fail ("can't cd to " ++ path)
    | .error _ => fail ("can't cd to " ++ path)

/-- A byte of a line, and whether a backslash takes away its meaning. -/
abbrev LineByte := UInt8 × Bool

/-- The input up to a line feed that no backslash joins with the next line; what is left; and whether
there was a line feed. In a `raw` text backslashes have no meaning. -/
def takeLine (raw : Bool) : Bytes → List LineByte × Bytes × Bool
  | [] => ([], [], false)
  | 0x0A :: rest => ([], rest, true)
  | b :: rest =>
    if b = 0x5C && !raw then
      match rest with
      | [] => ([], [], false)
      | c :: rest =>
        let (line, left, ended) := takeLine raw rest
        (if c = 0x0A then line else (c, true) :: line, left, ended)
    else
      let (line, left, ended) := takeLine raw rest
      ((b, false) :: line, left, ended)

/-- Whether a byte separates fields. -/
def separates (separators : List Char) (b : LineByte) : Bool :=
  !b.2 && separators.contains (Char.ofNat b.1.toNat)

/-- Whether a byte is a blank that separates fields. -/
def isLooseBlank (separators : List Char) (b : LineByte) : Bool :=
  separates separators b && (b.1 == 32 || b.1 == 9 || b.1 == 10)

/-- What follows a field: without blanks, and without one other separator. -/
def afterField (separators : List Char) (bs : List LineByte) : List LineByte :=
  match bs.dropWhile (isLooseBlank separators) with
  | b :: rest =>
    if separates separators b then rest.dropWhile (isLooseBlank separators) else b :: rest
  | [] => []

/-- Split a line into as many fields as there are names; the last one is the rest of the line, but for
a separator that only ends it. -/
def splitLine (separators : List Char) : List String → List LineByte → List (String × Bytes)
  | [], _ => []
  | x :: xs, bs =>
    let bs := bs.dropWhile (isLooseBlank separators)
    let field := bs.takeWhile fun b => !separates separators b
    let after := afterField separators (bs.drop field.length)
    let text (bs : List LineByte) : Bytes := bs.map (·.1)
    if xs.isEmpty && !after.isEmpty then
      [(x, text (bs.reverse.dropWhile (isLooseBlank separators)).reverse)]
    else (x, text field) :: splitLine separators xs after

/-- Read a line of the input into variables. -/
def read (args : List String) : Action Unit := do
  let (options, names) ← optionsOf [('p', true), ('r', false)] args
  if names.isEmpty then fail "arg count"
  let s ← get
  let (line, left, complete) := takeLine (options.any (·.1 == 'r')) s.input
  set (s.withInput left)
  names.forM checkName
  assignAll ((splitLine s.separators names line).map fun (x, bs) => (x, Bytes.decodeLossy bs))
  setStatus (if complete then 0 else 1)

/-- What is wrong with no arguments for the command that sends signals. -/
def killUsage : String :=
  "Usage: kill [-s sigspec | -signum | -sigspec] [pid | job]... or\nkill -l [exitstatus]"

/-- The name of the signal with a number, or of the one that an exit code tells of. -/
def listSignals (args : List String) : Action Unit := do
  match args with
  | [] => emitLines ("0" :: (List.range Signal.greatest).map fun n => Signal.name (n + 1))
  | a :: _ =>
    let code ← natOf a
    let n := if 128 < code then code - 128 else code
    if 0 < n ∧ n ≤ Signal.greatest then emitLines [Signal.name n]
    else fail ("invalid signal number or exit status: " ++ a)
  setStatus 0

/-- Send a signal to the shell itself, the only process that there is. -/
def send (signal : Nat) (targets : List String) : Action Unit := do
  setStatus 0
  targets.forM fun target => do
    if target.startsWith "%" then fail ("No such job: " ++ target)
    let p ← natOf target
    let s ← get
    if p != s.processId then
      complain "No such process\n"
      setStatus 1
    else match s.traps.lookup signal with
      | some action =>
        if !action.isEmpty then set { s with pending := s.pending ++ [signal] }
      | none => if !Signal.harmless.contains signal then throw (.killed signal)

/-- Send a signal, or list the signals. -/
def kill (args : List String) : Action Unit := do
  if args.isEmpty then fail killUsage
  match args.headD "" |>.toList with
  | '-' :: cs =>
    match Signal.ofText? 1 (String.ofList cs) with
    | some signal => withSignal signal args.tail
    | none =>
      if String.ofList cs = "0" then withSignal 0 args.tail
      else
        let (options, targets) ← optionsOf [('l', false), ('s', true)] args
        match options with
        | [] => withSignal 15 targets
        | ('l', _) :: _ => listSignals targets
        | (_, name) :: _ => match Signal.ofText? 0 name with
          | some signal => withSignal signal targets
          | none => fail ("invalid signal number or name: " ++ name)
  | _ => send 15 args
where
  /-- A signal needs a target. -/
  withSignal (signal : Nat) (targets : List String) : Action Unit :=
    if targets.isEmpty then fail killUsage else send signal targets

/-- Say what is done when signals come, or list it. -/
def trap (args : List String) : Action Unit := do
  let args ← argumentsOf [] args
  setStatus 0
  match args with
  | [] =>
    let traps := (← get).traps.mergeSort fun a b => a.1 ≤ b.1
    emitLines (traps.map fun (n, action) => "trap -- " ++ Listing.quoted action ++ " " ++ Signal.name n)
  | [signal] => change none [signal]
  | action :: signals =>
    if !action.isEmpty && action.all Char.isDigit && (Signal.ofText? 0 action).isSome then
      change none args
    else change (if action = "-" then none else some action) signals
where
  /-- Change what is done for signals. -/
  change (action : Option String) : List String → Action Unit
    | [] => return ()
    | name :: rest => do
      match Signal.ofText? 0 name with
      | none =>
        emit 2 (Programs.lines ["trap: " ++ name ++ ": bad trap"])
        setStatus 1
      | some n =>
        modify fun s =>
          let others := s.traps.filter (·.1 != n)
          { s with traps := match action with
              | some text => (n, text) :: others
              | none => others }
        change action rest

/-- Set or show the rights that new files do not get. -/
def umask (args : List String) : Action Unit := do
  let (options, args) ← optionsOf [('S', false)] args
  let s ← get
  setStatus 0
  match args with
  | [] => emitLines [if options.isEmpty then Mask.octal s.mask else Mask.symbolic s.mask]
  | text :: _ =>
    let isOctal := (text.toList.head?.map Char.isDigit) == some true
    match (if isOctal then Mask.ofOctal? text else Mask.change? s.mask text) with
    | some mask => modify fun s => { s with mask := mask % (Mask.all + 1) }
    | none => fail ((if isOctal then "Illegal number: " else "Illegal mode: ") ++ text)

/-- Read the next option among the arguments into a variable. -/
def getopts (args : List String) : Action Unit := do
  match ← argumentsOf [] args with
  | description :: name :: more =>
    let s ← get
    let args := if more.isEmpty then s.parameters else more
    let place := if args.length + 1 < s.optionPlace.index then {} else s.optionPlace
    let found := Options.scan description.toList args place
    match found.complaint with
    | some text => emit 2 (Programs.lines [text])
    | none => pure ()
    match found.value with
    | none => pure ()
    | some none => modify fun s => s.setVariable "OPTARG" none
    | some (some value) => assign "OPTARG" value
    assign "OPTIND" (Nat.repr found.place.index)
    checkName name
    assign name (String.ofList [found.letter])
    modify fun s => { s with optionPlace := found.place, status := if found.isOver then 1 else 0 }
  | _ => fail "Usage: getopts optstring var [arg...]"

/-- How an alias is listed. -/
def aliasLine (entry : String × String) : String := entry.1 ++ "=" ++ Listing.quoted entry.2

/-- Define or list aliases. -/
def alias_ (args : List String) : Action Unit := do
  setStatus 0
  if args.isEmpty then
    let entries := (← get).aliases.reverse
    emitLines ((Listing.inBuckets 39 (·.1) entries).map aliasLine)
  args.forM fun a => do
    let (name, text) := assignment? a
    match text, (← get).aliases.lookup a with
    | some text, _ =>
      modify fun s => { s with aliases := (name, text) :: s.aliases.filter (·.1 != name) }
    | none, some text => emitLines [aliasLine (a, text)]
    | none, none =>
      emit 2 (Programs.lines ["alias: " ++ a ++ " not found"])
      setStatus 1

/-- Remove aliases. -/
def unalias (args : List String) : Action Unit := do
  let (options, names) ← optionsOf [('a', false)] args
  setStatus 0
  if !options.isEmpty then modify fun s => { s with aliases := [] }
  else
    names.forM fun name => do
      if ((← get).aliases.lookup name).isNone then
        emit 2 (Programs.lines ["unalias: " ++ name ++ " not found"])
        setStatus 1
      modify fun s => { s with aliases := s.aliases.filter (·.1 != name) }

/-- The commands of the shell itself by name. -/
def names : List String :=
  specialCommands ++
    ["[", "alias", "bg", "cd", "chdir", "command", "echo", "false", "fg", "getopts", "hash", "jobs",
     "kill", "printf", "pwd", "read", "test", "true", "type", "ulimit", "umask", "unalias", "wait"]

/-- Remember where a program is. -/
def locate (program : String) (path : String) : Action (Option String) := do
  match Session.locate? path program with
  | some place =>
    modify fun s =>
      if s.located.contains place then s else { s with located := s.located ++ [place] }
    return some place
  | none => return none

/-- Say what a command is, at length or only what it is called by; whether there is one. -/
def describe (isLong : Bool) (name : String) (path : Option String) : Action Bool := do
  let s ← get
  let say (what : String) : Action Bool := do
    emitLines [if isLong then name ++ what else name]
    return true
  if keywords.contains name then say " is a shell keyword"
  else match s.aliases.lookup name with
    | some text =>
      emitLines [if isLong then name ++ " is an alias for " ++ text else "alias " ++ aliasLine (name, text)]
      return true
    | none =>
      if specialCommands.contains name then say " is a special shell builtin"
      else if (s.functions.lookup name).isSome then say " is a shell function"
      else if names.contains name then say " is a shell builtin"
      else if name.contains '/' then
        let found := Programs.isKnown (Programs.bareName name)
          || (s.files.stat s.cwd name matches .ok _)
        if found then say (" is " ++ name) else missing
      else
        let path := path.getD s.path
        let isLocated := match Session.locate? path name with
          | some place => s.located.contains place
          | none => false
        match ← locate name path with
        | none => missing
        | some place =>
          emitLines [if isLong then
            name ++ (if isLocated then " is a tracked alias for " else " is ") ++ place else place]
          return true
where
  /-- Nothing is known by the name. -/
  missing : Action Bool := do
    if isLong then emitLines [name ++ ": not found"]
    return false

/-- Say what commands are. -/
def type (args : List String) : Action Unit := do
  setStatus 0
  args.forM fun name => do
    if !(← describe true name none) then setStatus 127

/-- Say what a command is, as options ask for. -/
def command (args : List String) : Action Unit := do
  let (options, args) ← optionsOf [('p', false), ('v', false), ('V', false)] args
  let given (c : Char) : Bool := options.any (·.1 == c)
  match args with
  | name :: _ =>
    if given 'v' || given 'V' then
      let found ← describe (given 'V') name (if given 'p' then some standardPath else none)
      setStatus (if found then 0 else 127)
    else setStatus 0
  | [] => setStatus 0

/-- Remember, forget or list where programs are. -/
def hash (args : List String) : Action Unit := do
  let (options, args) ← optionsOf [('r', false), ('v', false)] args
  setStatus 0
  if options.any (·.1 == 'r') then modify fun s => { s with located := [] }
  else if args.isEmpty then
    emitLines (Listing.inBuckets 31 Programs.bareName (← get).located)
  else
    args.forM fun name => do
      let s ← get
      if !(names.contains name || (s.functions.lookup name).isSome) then
        if (← locate name s.path).isNone then
          complain (name ++ ": not found")
          setStatus 1

/-- Write arguments by a format. -/
def printf (args : List String) : Action Unit := do
  match ← argumentsOf [] args with
  | [] => fail "usage: printf format [arg ...]"
  | format :: rest =>
    let w := Printf.write .builtin format rest
    emit 1 w.out
    for c in w.complaints do complain c
    setStatus w.code

/-- Write arguments, separated by blanks. -/
def echo (args : List String) : Action Unit := do
  if (← get).isWritable 1 then
    emit 1 (Programs.shellEcho args).out
    setStatus 0
  else refuse "echo: I/O error" 1

/-- Test a condition. -/
def test (name : String) (args : List String) : Action Unit := do
  let s ← get
  match Condition.run s.files s.cwd name args with
  | .ok true => setStatus 0
  | .ok false => setStatus 1
  | .error e => fail e.message

/-- Wait for programs, none of which is ever running. -/
def wait (args : List String) : Action Unit := do
  setStatus 0
  args.forM fun a => do
    if a.startsWith "%" then fail ("No such job: " ++ a)
    discard (natOf a)
    setStatus 127

/-- Show a limit, which there is not, or accept one. -/
def ulimit (args : List String) : Action Unit := do
  let args ← argumentsOf "HSatfdscmlpnvwr".toList args
  if args.isEmpty then emitLines ["unlimited"]
  setStatus 0

/-- A command of the shell itself, if there is one of that name. -/
def run? (name : String) (args : List String) : Option (Action Unit) :=
  match name with
  | ":" | "true" => some (setStatus 0)
  | "false" => some (setStatus 1)
  | "echo" => some (echo args)
  | "printf" => some (printf args)
  | "test" | "[" => some (test name args)
  | "pwd" => some do
    discard (argumentsOf ['L', 'P'] args)
    emitLines [(← get).directory]
    setStatus 0
  | "cd" | "chdir" => some (changeDirectory args)
  | "exit" => some do throw (.exit ((← firstNat args (← get).status) % 256))
  | "return" => some do throw (.returned ((← firstNat args (← get).status) % 256))
  | "break" => some (leaveLoops .breakLoop args)
  | "continue" => some (leaveLoops .continueLoop args)
  | "export" => some (mark name (·.exported) (fun v => { v with exported := true }) args)
  | "readonly" => some (mark name (·.isConstant) (fun v => { v with isConstant := true }) args)
  | "local" => some (hide args)
  | "unset" => some (unset args)
  | "set" => some (setCommand args)
  | "shift" => some (shift args)
  | "read" => some (read args)
  | "kill" => some (kill args)
  | "trap" => some (trap args)
  | "umask" => some (umask args)
  | "getopts" => some (getopts args)
  | "alias" => some (alias_ args)
  | "unalias" => some (unalias args)
  | "type" => some (type args)
  | "command" => some (command args)
  | "hash" => some (hash args)
  | "jobs" => some (setStatus 0)
  | "fg" | "bg" => some (fail "No current job")
  | "wait" => some (wait args)
  | "ulimit" => some (ulimit args)
  | "times" => some do
    emitLines ["0m0.000000s 0m0.000000s", "0m0.000000s 0m0.000000s"]
    setStatus 0
  | _ => none

end Builtin

end Tasklang.Shell
