import Tasklang.Host.Shell.Arithmetic
import Tasklang.Host.Shell.Builtin
import Tasklang.Host.Shell.Expansion
import Tasklang.Host.Shell.Reader

/-! # Running commands

Words are expanded, streams are connected, and commands run: those of the shell itself, functions,
and programs, one of which is the shell again. All functions take a bound on the depth of the
recursion.
-/

namespace Tasklang.Shell

open Tasklang.Shell.Action

/-- Bytes without line feeds at their end. -/
def withoutFinalNewlines (bs : Bytes) : Bytes := (bs.reverse.dropWhile (· == 10)).reverse

/-- The state in which a shell starts, with what it sees of a session. -/
def Session.child (s : Session) (name : String) : Session :=
  let own (x value : String) : String × Variable := (x, { value := some value })
  let preset :=
    [own "IFS" " \t\n", own "OPTIND" "1", own "PS1" "# ", own "PS2" "> ", own "PS4" "+ "]
  let directory : String × Variable := ("PWD", { value := some s.directory, exported := true })
  let seen := s.bindings.filter fun (x, v) =>
    v.exported && x != "PWD" && !preset.any (·.1 == x)
  { files := s.files
    cwd := s.cwd
    name
    processId := s.processId + 1
    bindings := directory :: preset ++ seen.map fun (x, v) => (x, { v with isConstant := false })
    traps := s.traps.filter (·.2.isEmpty)
    mask := s.mask
    buffers := s.buffers
    inputs := s.inputs
    streams := s.streams }

/-- What the arguments of the shell ask for. -/
structure Invocation where
  options : List Char := []
  /-- Whether the script is an argument. -/
  isText : Bool := false
  args : List String := []

/-- The options that letters ask for. -/
def Invocation.letters (i : Invocation) (isOn : Bool) :
    List Char → List String → Except String (Invocation × List String)
  | [], rest => .ok (i, rest)
  | 'c' :: cs, rest => { i with isText := true }.letters isOn cs rest
  | 'l' :: cs, rest => i.letters isOn cs rest
  | 'o' :: cs, name :: rest =>
    match Options.settings.lookup name with
    | some (some c) => { i with options := Options.change i.options isOn c }.letters isOn cs rest
    | some none => i.letters isOn cs rest
    | none => .error ("Illegal option -o " ++ name)
  | 'o' :: cs, [] => i.letters isOn cs []
  | c :: cs, rest =>
    if Options.letters.contains c then
      { i with options := Options.change i.options isOn c }.letters isOn cs rest
    else .error ("Illegal option -" ++ String.ofList [c])

/-- Read the options at the start of the arguments. -/
def Invocation.read : Nat → Invocation → List String → Except String Invocation
  | 0, i, args => .ok { i with args }
  | _ + 1, i, [] => .ok i
  | n + 1, i, a :: rest => do
    match a.toList with
    | ['-'] | ['-', '-'] => return { i with args := rest }
    | '-' :: cs =>
      let (i, rest) ← i.letters true cs rest
      Invocation.read n i rest
    | '+' :: cs =>
      let (i, rest) ← i.letters false cs rest
      Invocation.read n i rest
    | _ => return { i with args := a :: rest }

/-- What messages call a failure to use a file. -/
def reasonOf (e : IoError) : String := (e.message.splitOn " (os error").headD ""

/-- Make a stream lead to a file. -/
def openFile (stream : Nat) (writing : Writing) (path : String) : Action (Option String) := do
  let s ← get
  if path = "/dev/null" then
    set (s.connect stream .nowhere)
    return none
  else if path = "/dev/stdout" ∨ path = "/dev/stderr" then
    let other := if path = "/dev/stdout" then 1 else 2
    set (s.connect stream ((s.streams.lookup other).getD .nowhere))
    return none
  else if writing = .create && s.has 'C' && s.files.isFile s.cwd path then
    return some ("cannot create " ++ path ++ ": File exists")
  else
    let before := match writing, s.files.read s.cwd path with
      | .append, .ok contents => contents
      | _, _ => []
    match s.files.write s.cwd path before, s.files.resolve s.cwd path with
    | .ok files, .ok place =>
      set ({ s with files }.connect stream (.file place))
      return none
    | .error .notFound, _ | .error .notADirectory, _ =>
      return some ("cannot create " ++ path ++ ": Directory nonexistent")
    | .error e, _ | _, .error e => return some ("cannot create " ++ path ++ ": " ++ reasonOf e)

/-- Let a stream read a file, which is made if it is missing and that is asked for. -/
def openInput (stream : Nat) (missing : Bool) (path : String) : Action (Option String) := do
  let s ← get
  if path = "/dev/null" then
    set (s.connectInput stream [])
    return none
  else match s.files.read s.cwd path with
    | .ok contents =>
      set (s.connectInput stream contents)
      return none
    | .error .notFound | .error .notADirectory =>
      if missing then
        match s.files.write s.cwd path [] with
        | .ok files =>
          set ({ s with files }.connectInput stream [])
          return none
        | .error _ => return some ("cannot create " ++ path ++ ": Directory nonexistent")
      else return some ("cannot open " ++ path ++ ": No such file")
    | .error _ =>
      set (s.connectInput stream [])
      return none

/-- Make a stream lead where another does, or close it. -/
def duplicate (stream : Nat) (other : Option Nat) : Action (Option String) := do
  let s ← get
  match other with
  | none =>
    set (s.disconnect stream)
    return none
  | some o =>
    match s.streams.lookup o with
    | some to_ =>
      set (s.connect stream to_)
      return none
    | none => return some (Nat.repr o ++ ": Bad file descriptor")

/-- Bring back where the streams led. -/
def restoreStreams (before after : Session) : Session := { after with streams := before.streams }

/-- End the shell when its option says so and the last command failed. -/
def checkFailure (tested : Bool) : Action Unit := do
  let s ← get
  if s.has 'e' && !tested && s.status != 0 then throw (.exit s.status)

/-- Show a command among the messages before it runs, when the option for that is set. -/
def trace (streams : List (Nat × Stream)) (words : List String) : Action Unit := do
  let s ← get
  if s.has 'x' then
    let line := ((s.valueOf? "PS4").getD "") ++ " ".intercalate words
    set (restoreStreams s ({ s with streams }.write 2 (Programs.lines [line])))

/-- The words of a simple command after those that let functions be passed over, whether there are
some, and the directories to look for programs in, if they say that. -/
def directly : Nat → List String → List String × Bool × Option String
  | n + 1, "command" :: rest =>
    match Options.read [('p', false)] rest with
    | .ok (options, name :: args) =>
      let (words, _, path) := directly n (name :: args)
      (words, true, path.or (if options.isEmpty then none else some standardPath))
    | _ => ("command" :: rest, false, none)
  | _, words => (words, false, none)

mutual

/-- What pieces of a word expand to. -/
def expand : Nat → List Piece → Action (List Atom)
  | 0, _ => throw (.exit 2)
  | _ + 1, [] => return []
  | n + 1, p :: ps => do
    let atoms ← expandPiece n p
    return atoms ++ (← expand n ps)

/-- What a piece of a word expands to. -/
def expandPiece : Nat → Piece → Action (List Atom)
  | 0, _ => throw (.exit 2)
  | _ + 1, .plain text => return text.map fun c => .letter ⟨c, false⟩
  | _ + 1, .quoted text => return .presence :: Atom.literal text
  | _ + 1, .invalid => fail "Bad substitution"
  | n + 1, .output inQuotes body => do
    let before := (← get).status
    let bs ← capture (isolate (untilExit n (runCommand n false body)))
    modify fun s => { s with substituted := s.status, status := before }
    let text := Bytes.decodeLossy ((withoutFinalNewlines bs).filter (· != 0))
    return Atom.value inQuotes text.toList
  | n + 1, .sum inQuotes expression => do
    let text ← charsOf n expression
    let s ← get
    match arithmetic (fun x => (s.valueOf? x).getD "") text with
    | .error e => fail (e.message (String.ofList text))
    | .ok (v, assigned) =>
      assignAll assigned.reverse
      return Atom.value inQuotes (Int.repr v).toList
  | n + 1, .parameter inQuotes name form => do
    let s ← get
    let value := s.parameter? name
    let isSet (orEmpty : Bool) : Bool := match value with
      | some text => !(orEmpty && text.isEmpty)
      | none => false
    let shown : List Atom :=
      if name = "@" ∨ (name = "*" ∧ !inQuotes) then Atom.arguments inQuotes s.parameters
      else Atom.value inQuotes (value.getD "").toList
    let wordAtoms (w : List Piece) : Action (List Atom) := do
      if inQuotes then expand n w
      else return (← expand n (Word.withHome (s.valueOf? "HOME") false w)).map Atom.loosen
    match form with
    | .value =>
      if s.has 'u' && value.isNone && name != "@" && name != "*" then
        fail (name ++ ": parameter not set")
      return shown
    | .length => return Atom.value inQuotes (Nat.repr (value.getD "").utf8ByteSize).toList
    | .fallback orEmpty w => if isSet orEmpty then return shown else wordAtoms w
    | .alternative orEmpty w => if isSet orEmpty then wordAtoms w else return []
    | .assign orEmpty w =>
      if isSet orEmpty then return shown
      else
        let text ← charsOf n w
        assign name (String.ofList text)
        return Atom.value inQuotes text
    | .demand orEmpty w =>
      if isSet orEmpty then return shown
      else
        let text := String.ofList (← charsOf n w)
        let unset := if orEmpty then "parameter not set or null" else "parameter not set"
        fail (name ++ ": " ++ if text.isEmpty then unset else text)
    | .strip atEnd longest w =>
      let p := Pattern.ofLetters (← lettersOf n w)
      let cs := (value.getD "").toList
      return Atom.value inQuotes
        (if atEnd then Pattern.stripEnd p longest cs else Pattern.stripStart p longest cs)

/-- The letters of pieces that make one text. -/
def lettersOf : Nat → List Piece → Action (List Letter)
  | 0, _ => throw (.exit 2)
  | n + 1, ps => do
    let atoms ← expand n ps
    return Atom.letters (← get).joint.toList atoms

/-- The characters of pieces that make one text. -/
def charsOf : Nat → List Piece → Action (List Char)
  | 0, _ => throw (.exit 2)
  | n + 1, ps => do return (← lettersOf n ps).map (·.char)

/-- The text of a word that is one field. -/
def textOf : Nat → Word → Action String
  | 0, _ => throw (.exit 2)
  | n + 1, w => do
    return String.ofList (← charsOf n (Word.withHome ((← get).valueOf? "HOME") false w))

/-- The fields of words. -/
def fieldsOf : Nat → List Word → Action (List String)
  | 0, _ => throw (.exit 2)
  | _ + 1, [] => return []
  | n + 1, w :: ws => do
    let atoms ← expand n (Word.withHome ((← get).valueOf? "HOME") false w)
    let s ← get
    let texts := (Atom.fields s.separators none false atoms).flatMap s.fieldTexts
    return texts ++ (← fieldsOf n ws)

/-- The value of an assignment. -/
def valueOf : Nat → Word → Action String
  | 0, _ => throw (.exit 2)
  | n + 1, w => do
    return String.ofList (← charsOf n (Word.withHome ((← get).valueOf? "HOME") true w))

/-- Make assignments, one after the other; the variables become visible to programs when they are
`exported`. -/
def assignInTurn : Nat → Bool → List (String × Word) → Action (List (String × String))
  | 0, _, _ => throw (.exit 2)
  | _ + 1, _, [] => return []
  | n + 1, exported, (x, w) :: rest => do
    let value ← valueOf n w
    assign x value
    if exported then modify fun s => s.setVariable x (some { s.variableOf x with exported })
    return (x, value) :: (← assignInTurn n exported rest)

/-- The fields of the words of a command. After the name of a command that gives attributes to
variables, assignments are single fields. -/
def commandFields : Nat → Bool → List Word → Action (List String)
  | 0, _, _ => throw (.exit 2)
  | _ + 1, _, [] => return []
  | n + 1, assigns, w :: ws => do
    match assigns, w.assignment? with
    | true, some (x, value) =>
      let value ← valueOf n value
      return (x ++ "=" ++ value) :: (← commandFields n true ws)
    | true, none => return (← fieldsOf n [w]) ++ (← commandFields n true ws)
    | false, _ =>
      let name := (w.spelling?.map String.ofList).getD ""
      if name = "command" then return name :: (← commandFields n false ws)
      else if ["export", "readonly", "local"].contains name then
        return name :: (← commandFields n true ws)
      else fieldsOf n (w :: ws)

/-- Connect the streams of a command; gives a complaint when that cannot be done. -/
def redirect : Nat → List Redirection → Action (Option String)
  | 0, _ => throw (.exit 2)
  | _ + 1, [] => return none
  | n + 1, r :: rs => do
    let complaint ← match r with
      | .input stream missing path => do openInput stream missing (← textOf n path)
      | .document stream text => do
        let bs := Bytes.ofString (← textOf n text)
        modify (·.connectInput stream bs)
        pure none
      | .output stream writing path => do openFile stream writing (← textOf n path)
      | .duplicate stream other => duplicate stream other
    match complaint with
    | some text => return some text
    | none => redirect n rs

/-- Run an action with its streams connected. When they cannot be, it fails, and a special command
ends the shell. -/
def redirecting : Nat → List Redirection → Bool → Action Unit → Action Unit
  | 0, _, _, _ => throw (.exit 2)
  | n + 1, rs, special, x =>
    restoring restoreStreams do
      match ← redirect n rs with
      | none => x
      | some complaint => if special then fail complaint else refuse complaint 2

/-- Run a command. A tested one may fail without ending the shell. -/
def runCommand : Nat → Bool → Command → Action Unit
  | 0, _, _ => throw (.exit 2)
  | n + 1, tested, c => do
    if (← get).has 'n' then return ()
    match c with
    | .nothing => return ()
    | .simple line assignments words rs =>
      modify fun s => { s with line, substituted := 0 }
      runSimple n tested assignments words rs
      checkFailure tested
      answerSignals n
    | .define name body =>
      modify fun s => { s with functions := (name, body) :: s.functions, status := 0 }
    | .redirected body rs => redirecting n rs false (runCommand n tested body)
    | .subshell body =>
      isolate (untilExit n (runCommand n tested body))
      checkFailure tested
      answerSignals n
    | .background body =>
      isolate (untilExit n (runCommand n true body))
      setStatus 0
    | .pipeline stages =>
      runStages n stages
      checkFailure tested
    | .negation body =>
      runCommand n true body
      modify fun s => { s with status := if s.status = 0 then 1 else 0 }
    | .both first second =>
      runCommand n true first
      if (← get).status = 0 then runCommand n tested second
    | .either first second =>
      runCommand n true first
      if (← get).status != 0 then runCommand n tested second
    | .sequence first second =>
      runCommand n tested first
      runCommand n tested second
    | .conditional condition yes no =>
      runCommand n true condition
      let holds := (← get).status == 0
      setStatus 0
      runCommand n tested (if holds then yes else no)
    | .loop untilTrue condition body =>
      setStatus 0
      runLoop n tested untilTrue condition body
    | .forEach name words body =>
      let fields ← fieldsOf n words
      setStatus 0
      runFor n tested name fields body
    | .choice word branches =>
      let text ← textOf n word
      setStatus 0
      runChoice n tested text.toList branches

/-- Run a body as long as a condition holds. -/
def runLoop : Nat → Bool → Bool → Command → Command → Action Unit
  | 0, _, _, _, _ => throw (.exit 2)
  | n + 1, tested, untilTrue, condition, body => do
    let before := (← get).status
    let goesOn ← iteration do
      runCommand n true condition
      if ((← get).status == 0) == untilTrue then
        setStatus before
        throw (.breakLoop 1)
      runCommand n tested body
    if goesOn then runLoop n tested untilTrue condition body

/-- Run a body for every field. -/
def runFor : Nat → Bool → String → List String → Command → Action Unit
  | 0, _, _, _, _ => throw (.exit 2)
  | _ + 1, _, _, [], _ => return ()
  | n + 1, tested, name, field :: rest, body => do
    assign name field
    let goesOn ← iteration (runCommand n tested body)
    if goesOn then runFor n tested name rest body

/-- Run the first branch with a pattern that matches a text. -/
def runChoice : Nat → Bool → List Char → List (List Word × Command) → Action Unit
  | 0, _, _, _ => throw (.exit 2)
  | _ + 1, _, _, [] => return ()
  | n + 1, tested, text, (patterns, body) :: rest => do
    if ← anyMatch n text patterns then runCommand n tested body
    else runChoice n tested text rest

/-- Whether a pattern among some matches a text. -/
def anyMatch : Nat → List Char → List Word → Action Bool
  | 0, _, _ => throw (.exit 2)
  | _ + 1, _, [] => return false
  | n + 1, text, w :: ws => do
    let w := Word.withHome ((← get).valueOf? "HOME") false w
    let p := Pattern.ofLetters (← lettersOf n w)
    if Pattern.isMatch p text then return true else anyMatch n text ws

/-- Run commands of which each reads what the one before writes. -/
def runStages : Nat → List Command → Action Unit
  | 0, _ => throw (.exit 2)
  | _ + 1, [] => return ()
  | n + 1, [c] => isolate (untilExit n (runCommand n true c))
  | n + 1, c :: cs => do
    let before := (← get).streams
    let bs ← capture (isolate (untilExit n (runCommand n true c)))
    modify (·.connectInput 0 bs)
    runStages n cs
    modify fun s => { s with streams := before }

/-- Do what is to be done for the signals that have come. -/
def answerSignals : Nat → Action Unit
  | 0 => throw (.exit 2)
  | n + 1 => do
    let s ← get
    match s.pending with
    | [] => return ()
    | signal :: rest =>
      set { s with pending := rest }
      match s.traps.lookup signal with
      | none => return ()
      | some action =>
        runLines n { chars := action.toList }
        setStatus s.status
      answerSignals n

/-- Run an action that a shell ends with, and then what is to be done at its end. -/
def untilExit : Nat → Action Unit → Action Unit
  | 0, _ => throw (.exit 2)
  | n + 1, x => do
    let ending ← try
        x
        pure none
      catch
        | .killed signal => throw (.killed signal)
        | j => pure (some j)
    let s ← get
    let code := match ending with
      | some (.exit code) | some (.returned code) => code
      | some .mistake => mistakeCode
      | _ => s.status
    set { s with traps := s.traps.filter (·.1 != 0), status := code }
    match s.traps.lookup 0 with
    | none => return ()
    | some action =>
      try runLines n { chars := action.toList }
      catch
        | .mistake => setStatus mistakeCode; throw .mistake
        | j => throw j
      setStatus code

/-- Run a simple command. -/
def runSimple : Nat → Bool → List (String × Word) → List Word → List Redirection → Action Unit
  | 0, _, _, _, _ => throw (.exit 2)
  | n + 1, tested, assignments, words, rs => do
    let fields ← commandFields n false words
    let streams := (← get).streams
    let assigning (values : List (String × String)) : List String :=
      values.map fun (x, value) => x ++ "=" ++ value
    match fields with
    | [] =>
      redirecting n rs false do
        let values ← assignInTurn n false assignments
        if !values.isEmpty then trace streams (assigning values)
        modify fun s => { s with status := s.substituted }
    | ["exec"] =>
      match ← redirect n rs with
      | none => setStatus 0
      | some complaint => fail complaint
    | fields =>
      let (words, isDirect, path) := directly fields.length fields
      let name := words.headD ""
      let args := words.tail
      let special := !isDirect && specialCommands.contains name
      redirecting n rs special do
        let before ← get
        let restore (_ after : Session) : Session :=
          if special then after
          else assignments.foldl (fun s (x, _) => s.setVariable x (before.bindings.lookup x)) after
        restoring restore do
          let values ← assignInTurn n (!special) assignments
          trace streams (assigning values ++ fields)
          match if isDirect || special then none else before.functions.lookup name with
          | some body => calling args (runCommand n tested body)
          | none => runNamed n special path name args

/-- Run a command of the shell itself or a program. A mistake of the shell's own command ends the
shell when that is special. -/
def runNamed : Nat → Bool → Option String → String → List String → Action Unit
  | 0, _, _, _, _ => throw (.exit 2)
  | n + 1, special, path, name, args => do
    let own ← match name, Builtin.run? name args with
      | _, some x => pure (some x)
      | "eval", _ => pure (some do
          setStatus 0
          runLines n { chars := (" ".intercalate args).toList })
      | "exec", _ => pure (some do
          match args with
          | [] => setStatus 0
          | program :: rest =>
            runProgram n none program rest
            modify fun s => { s with traps := s.traps.filter (·.1 != 0) }
            throw (.exit (← get).status))
      | ".", _ => pure (some do
          match ← Builtin.argumentsOf [] args with
          | [] => setStatus 0
          | file :: _ =>
            let s ← get
            let places := if file.contains '/' then [file]
              else ((s.path.splitOn ":").map (· ++ "/" ++ file)).filter (s.files.isFile s.cwd)
            match places with
            | [] => fail (file ++ ": not found")
            | place :: _ => match s.files.read s.cwd place with
              | .ok contents =>
                naming place (runLines n { chars := (Bytes.decodeLossy contents).toList })
              | .error _ => fail ("cannot open " ++ place ++ ": No such file"))
      | _, none => pure none
    match own with
    | none => runProgram n path name args
    | some x =>
      try naming name x
      catch
        | .mistake => if special then throw .mistake else setStatus mistakeCode
        | j => throw j

/-- Run a program, looked for in the directories of the session or in others. -/
def runProgram : Nat → Option String → String → List String → Action Unit
  | 0, _, _, _ => throw (.exit 2)
  | n + 1, path, program, args => do
    let s ← get
    let place ← if program.contains '/' then pure (some program)
      else Builtin.locate program (path.getD s.path)
    let bare := Programs.bareName (place.getD "")
    if place.isSome && bare = "sh" then runShell n program args
    else match (if place.isSome then Programs.run? s.files s.cwd s.input bare args else none) with
      | some _ =>
        let done := (Programs.run? s.files s.cwd s.input program args).getD {}
        if bare = "cat" && Programs.Cat.readsInput args then modify (·.withInput [])
        emit 1 done.out
        emit 2 done.err
        setStatus done.code
      | none =>
        match program.contains '/', s.files.stat s.cwd program with
        | true, .ok _ => refuse (program ++ ": Permission denied") 126
        | false, .error .notFound =>
          if program.isEmpty then refuse ": Permission denied" 127
          else refuse (program ++ ": not found") 127
        | _, _ => refuse (program ++ ": not found") 127

/-- Run the shell in a shell. A signal that ends it is told among the messages. -/
def runShell : Nat → String → List String → Action Unit
  | 0, _, _ => throw (.exit 2)
  | n + 1, program, args => do
    let before ← get
    set (before.child program)
    let ending ← try
        isolate (runArguments n args)
        pure none
      catch
        | .killed signal => pure (some signal)
        | j => throw j
    modify fun s =>
      { before with files := s.files, buffers := s.buffers, inputs := s.inputs, status := s.status }
    match ending with
    | none => return ()
    | some signal =>
      setStatus (128 + signal)
      if Signal.message signal != "" then emit 2 (Programs.lines [Signal.message signal])

/-- Run what the arguments of a shell ask for: a script that is an argument, a file, or the input. -/
def runArguments : Nat → List String → Action Unit
  | 0, _ => throw (.exit 2)
  | n + 1, args => untilExit n do
    match Invocation.read (args.length + 1) {} args with
    | .error complaint =>
      modify fun s => { s with line := 0 }
      fail complaint
    | .ok i =>
      modify fun s => { s with options := i.options }
      match i.isText, i.args with
      | true, [] =>
        modify fun s => { s with line := 0 }
        fail "-c requires an argument"
      | true, script :: rest =>
        modify fun s => { s with name := rest.headD s.name, parameters := rest.tail }
        runLines n { chars := script.toList }
      | false, [] =>
        let s ← get
        set (s.withInput [])
        runLines n { chars := (Bytes.decodeLossy s.input).toList }
      | false, path :: rest =>
        let s ← get
        match s.has 's', s.files.read s.cwd path with
        | true, _ =>
          set { s.withInput [] with parameters := path :: rest }
          runLines n { chars := (Bytes.decodeLossy s.input).toList }
        | false, .ok contents =>
          set { s with name := path, parameters := rest }
          runLines n { chars := (Bytes.decodeLossy contents).toList }
        | false, .error .isADirectory => set { s with name := path, parameters := rest }
        | false, .error _ =>
          set { s with line := 0 }
          fail ("cannot open " ++ path ++ ": No such file")

/-- Run the lines of a script, one after the other. -/
def runLines : Nat → Input → Action Unit
  | 0, _ => throw (.exit 2)
  | n + 1, i => do
    match { i with aliases := (← get).aliases }.next with
    | .error e =>
      modify fun s => { s with line := e.line }
      fail ("Syntax error: " ++ e.cause.message)
    | .ok none => return ()
    | .ok (some (c, rest)) =>
      runCommand n false c
      runLines n rest

end

end Tasklang.Shell
