import Tasklang.Host.Programs
import Tasklang.Host.Shell.Options
import Tasklang.Host.Shell.Pattern
import Tasklang.Host.Shell.Syntax

/-! # Sessions of the shell

What a running shell holds: files and a directory, variables and functions, and where its streams
lead. Commands are actions on it, and some of them jump: out of a loop, out of a function, or out of
the shell.
-/

namespace Tasklang.Shell

/-- What a stream is connected with. -/
inductive Stream where
  /-- One of the texts that are gathered. -/
  | buffer (n : Nat)
  /-- A file that is written. -/
  | file (place : Place)
  /-- One of the inputs that are read. -/
  | input (n : Nat)
  | nowhere
  deriving DecidableEq, Repr

/-- A variable. It may have attributes before it has a value. -/
structure Variable where
  value : Option String
  /-- Whether programs see it. -/
  exported : Bool := false
  /-- Whether its value stays. -/
  isConstant : Bool := false
  deriving DecidableEq, Repr

/-- The state of a shell. -/
structure Session where
  files : FileSystem
  cwd : Place
  /-- What complaints call the shell. -/
  name : String := "sh"
  processId : Nat := 4321
  parameters : List String := []
  bindings : List (String × Variable) := []
  functions : List (String × Command) := []
  /-- The variables that the current function hides, as they were; none outside of functions. -/
  hidden : Option (List (String × Option Variable)) := none
  aliases : List (String × String) := []
  /-- What is done when a signal comes. -/
  traps : List (Nat × String) := []
  /-- The signals that have come and are not answered yet. -/
  pending : List Nat := []
  /-- The options that are set. -/
  options : List Char := []
  /-- How far the options among the arguments are read. -/
  optionPlace : Options.Place := {}
  /-- The rights that new files do not get. -/
  mask : Nat := 0o022
  /-- The programs whose places are known. -/
  located : List String := []
  /-- The texts that are gathered: the output, the messages, and those of substitutions. -/
  buffers : List Bytes := [[], []]
  /-- What is left of the inputs. -/
  inputs : List Bytes := [[]]
  streams : List (Nat × Stream) := [(0, .input 0), (1, .buffer 0), (2, .buffer 1)]
  /-- The exit code of the last command. -/
  status : Nat := 0
  /-- The exit code of the last substitution in the current command. -/
  substituted : Nat := 0
  line : Nat := 1
  /-- The command of the shell itself that runs, which complaints name. -/
  command : Option String := none
  /-- How many loops run around the current command. -/
  loops : Nat := 0

/-- A jump out of the commands that run. -/
inductive Jump where
  | exit (code : Nat)
  /-- A mistake was made that ends the shell, unless a command of the shell itself made it. -/
  | mistake
  | killed (signal : Nat)
  | breakLoop (levels : Nat)
  | continueLoop (levels : Nat)
  | returned (code : Nat)
  deriving DecidableEq, Repr

/-- The exit code of a shell that a mistake ends. -/
def mistakeCode : Nat := 2

/-- An action of a shell. -/
abbrev Action := ExceptT Jump (StateM Session)

namespace Session

/-- The directory of a session as a path. -/
def directory (s : Session) : String := "/" ++ "/".intercalate s.cwd

/-- Whether an option is set. -/
def has (s : Session) (option : Char) : Bool := s.options.contains option

/-- Append bytes to what a stream leads to. -/
def write (s : Session) (stream : Nat) (bs : Bytes) : Session :=
  match s.streams.lookup stream with
  | some (.buffer n) => { s with buffers := s.buffers.modify n (· ++ bs) }
  | some (.file place) =>
    match s.files.lookup place with
    | some (.file contents) => { s with files := s.files.put place (.file (contents ++ bs)) }
    | _ => s
  | _ => s

/-- Whether a stream can be written. -/
def isWritable (s : Session) (stream : Nat) : Bool :=
  match s.streams.lookup stream with
  | none | some (.input _) => false
  | _ => true

/-- Connect a stream. -/
def connect (s : Session) (stream : Nat) (to_ : Stream) : Session :=
  { s with streams := (stream, to_) :: s.streams.filter (·.1 != stream) }

/-- Close a stream. -/
def disconnect (s : Session) (stream : Nat) : Session :=
  { s with streams := s.streams.filter (·.1 != stream) }

/-- Connect a stream with a new input. -/
def connectInput (s : Session) (stream : Nat) (bs : Bytes) : Session :=
  { s with inputs := s.inputs ++ [bs] }.connect stream (.input s.inputs.length)

/-- What is left to read. -/
def input (s : Session) : Bytes :=
  match s.streams.lookup 0 with
  | some (.input n) => s.inputs.getD n []
  | _ => []

/-- Leave something to read. -/
def withInput (s : Session) (bs : Bytes) : Session :=
  match s.streams.lookup 0 with
  | some (.input n) => { s with inputs := s.inputs.set n bs }
  | _ => s

/-- The value of a variable. -/
def valueOf? (s : Session) (name : String) : Option String :=
  (s.bindings.lookup name).bind (·.value)

/-- Put a variable in place of the one of its name, or remove that. -/
def setVariable (s : Session) (name : String) (v : Option Variable) : Session :=
  let others := s.bindings.filter (·.1 != name)
  { s with bindings := match v with
      | some v => (name, v) :: others
      | none => others }

/-- The variable of a name, or one without a value. -/
def variableOf (s : Session) (name : String) : Variable :=
  (s.bindings.lookup name).getD { value := none }

/-- Give a variable a value; its attributes stay. -/
def assign (s : Session) (name value : String) : Session :=
  let v := s.variableOf name
  let s := if name = "PATH" then { s with located := [] } else s
  s.setVariable name (some { v with value := some value, exported := v.exported || s.has 'a' })

/-- The characters that separate fields. -/
def separators (s : Session) : List Char :=
  ((s.valueOf? "IFS").getD " \t\n").toList

/-- What stands between the arguments in the list of all of them. -/
def joint (s : Session) : String := String.ofList (s.separators.take 1)

/-- The value of a parameter: a variable, an argument, or one of those with a sign for a name. -/
def parameter? (s : Session) (name : String) : Option String :=
  if name = "?" then some (Nat.repr s.status)
  else if name = "#" then some (Nat.repr s.parameters.length)
  else if name = "$" then some (Nat.repr s.processId)
  else if name = "-" then some (Options.shown s.options)
  else if name = "!" then none
  else if name = "0" then some s.name
  else if name = "@" ∨ name = "*" then
    if s.parameters.isEmpty then none else some (s.joint.intercalate s.parameters)
  else match name.toList with
    | c :: _ =>
      if c.isDigit then
        match name.toNat? with
        | some (n + 1) => s.parameters[n]?
        | _ => none
      else s.valueOf? name
    | [] => none

/-- Where a program is, looked for in the directories of a list with colons. -/
def locate? (path program : String) : Option String :=
  if program.contains '/' then none
  else ((path.splitOn ":").map (· ++ "/" ++ program)).find? fun p =>
    Programs.isKnown (Programs.bareName p)

/-- The directories in which programs are looked for. -/
def path (s : Session) : String := (s.valueOf? "PATH").getD ""

end Session

/-- The directories in which the standard programs are. -/
def standardPath : String := "/usr/sbin:/usr/bin:/sbin:/bin"

namespace Action

/-- Write to a stream. -/
def emit (stream : Nat) (bs : Bytes) : Action Unit := modify (·.write stream bs)

/-- Write lines to the output. -/
def emitLines (ls : List String) : Action Unit := emit 1 (Programs.lines ls)

/-- Set the exit code of a command. -/
def setStatus (code : Nat) : Action Unit := modify fun s => { s with status := code }

/-- Complain among the messages. -/
def complain (text : String) : Action Unit := do
  let s ← get
  let command := match s.command with
    | some c => c ++ ": "
    | none => ""
  emit 2 (Bytes.ofString
    (s.name ++ ": " ++ Nat.repr s.line ++ ": " ++ command ++ text ++ "\n"))

/-- Complain about a mistake. -/
def fail {α : Type} (text : String) : Action α := do
  complain text
  throw .mistake

/-- Complain; the command fails with a code. -/
def refuse (text : String) (code : Nat) : Action Unit := do
  complain text
  setStatus code

/-- Give a variable a value, unless that stays as it is. -/
def assign (name value : String) : Action Unit := do
  let s ← get
  if (s.variableOf name).isConstant then fail (name ++ ": is read only")
  if name = "OPTIND" then
    if value.isEmpty || !value.all Char.isDigit then fail ("Illegal number: " ++ value)
    set { s.assign name value with optionPlace := ⟨max 1 (value.toNat?.getD 1), none⟩ }
  else set (s.assign name value)

/-- Give variables values. -/
def assignAll (values : List (String × String)) : Action Unit :=
  values.forM fun (x, value) => assign x value

/-- Run an action and bring some of the session back afterwards, also when the action jumps. -/
def restoring {α : Type} (restore : Session → Session → Session) (x : Action α) : Action α :=
  ExceptT.mk fun s =>
    let (result, after) := x.run.run s
    (result, restore s after)

/-- Run a command of the shell itself, which complaints name. -/
def naming {α : Type} (name : String) (x : Action α) : Action α := do
  let before := (← get).command
  modify fun s => { s with command := some name }
  restoring (fun _ after => { after with command := before }) x

/-- Run an action that keeps its changes to itself, other than files and what was read and written. A
jump out of it ends it; only a signal goes further. -/
def isolate (x : Action Unit) : Action Unit :=
  ExceptT.mk fun s =>
    let (result, after) := x.run.run { s with traps := s.traps.filter (·.2.isEmpty) }
    let kept (code : Nat) : Session :=
      { s with
        files := after.files, buffers := after.buffers, inputs := after.inputs, status := code }
    match result with
    | .ok () => (.ok (), kept after.status)
    | .error (.exit code) => (.ok (), kept code)
    | .error .mistake => (.ok (), kept mistakeCode)
    | .error (.returned code) => (.ok (), kept code)
    | .error (.killed signal) =>
      match s.traps.lookup signal with
      | some action =>
        (.ok (), { kept 0 with pending := if action.isEmpty then [] else s.pending ++ [signal] })
      | none => (.error (.killed signal), kept after.status)
    | .error _ => (.ok (), kept after.status)

/-- What an action writes to the output. -/
def capture (x : Action Unit) : Action Bytes := do
  let s ← get
  let k := s.buffers.length
  set ({ s with buffers := s.buffers ++ [[]] }.connect 1 (.buffer k))
  x
  let t ← get
  set { t with buffers := t.buffers.take k, streams := s.streams }
  return t.buffers.getD k []

/-- Run a function with arguments. Variables that it hides come back at its end. -/
def calling (args : List String) (body : Action Unit) : Action Unit := do
  let before ← get
  set { before with parameters := args, hidden := some [], loops := 0, optionPlace := {} }
  let restore (_ after : Session) : Session :=
    let t := (after.hidden.getD []).foldl (fun t (x, v) => t.setVariable x v) after
    { t with
      parameters := before.parameters
      hidden := before.hidden
      loops := before.loops
      optionPlace := before.optionPlace }
  restoring restore do
    try body
    catch
      | .returned code => setStatus code
      | j => throw j

/-- Run the body of a loop once; tells whether the loop goes on. -/
def iteration (body : Action Unit) : Action Bool := do
  try
    modify fun s => { s with loops := s.loops + 1 }
    restoring (fun _ after => { after with loops := after.loops - 1 }) body
    return true
  catch
    | .breakLoop n => if n ≤ 1 then return false else throw (.breakLoop (n - 1))
    | .continueLoop n => if n ≤ 1 then return true else throw (.continueLoop (n - 1))
    | j => throw j

end Action

end Tasklang.Shell
