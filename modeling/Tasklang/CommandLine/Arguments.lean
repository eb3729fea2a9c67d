/-! # Arguments of the command line

A command line is options, the name of a command, and the options and files of that command. Options
that every command has may stand before and after its name. An option's value is checked when the
next argument that is no value of it has been understood, so of two faults the later one may be told.
-/

namespace Tasklang.CommandLine

/-- Why arguments are answered without running anything. -/
inductive Usage where
  | help
  | version
  /-- There is nothing to do, so the help is shown. -/
  | helpForMissing
  | unknownArgument
  | invalidValue
  | tooManyValues
  | argumentConflict
  | missingCommand
  | invalidCommand
  deriving DecidableEq, Repr

/-- The exit code after such an answer: success where it was asked for. -/
def Usage.code : Usage → Nat
  | .help | .version => 0
  | _ => 2

/-- An option. -/
inductive Switch where
  | verbose
  | logLevel
  | config
  | all
  | directory
  | dist
  | runtime
  | help
  | version
  deriving DecidableEq, Repr

/-- What is before and after the name of a command. -/
inductive Level where
  | program
  | run
  | build
  deriving DecidableEq, Repr

namespace Switch

/-- The options of a level. -/
def available : Level → List Switch
  | .program => [verbose, logLevel, config, help, version]
  | .run => [verbose, logLevel, config, help, all, directory]
  | .build => [verbose, logLevel, config, help, all, directory, dist, runtime]

/-- The long name of an option. -/
def long : Switch → String
  | verbose => "verbose"
  | logLevel => "log-level"
  | config => "config"
  | all => "all"
  | directory => "dir"
  | dist => "dist"
  | runtime => "runtime"
  | help => "help"
  | version => "version"

/-- The letter of an option. -/
def short? : Switch → Option Char
  | verbose => some 'v'
  | all => some 'A'
  | directory => some 'd'
  | help => some 'h'
  | version => some 'V'
  | _ => none

/-- Whether an option takes a value. -/
def takesValue : Switch → Bool
  | logLevel | config | directory | dist => true
  | _ => false

/-- Whether an option may be given more than once. -/
def repeats : Switch → Bool
  | directory => true
  | _ => false

/-- Whether a value is one for an option. -/
def accepts (o : Switch) (value : String) : Bool :=
  match o with
  | logLevel => ["debug", "info", "warn", "error"].contains value
  | _ => !value.isEmpty

/-- The option of a long name. -/
def ofLong? (level : Level) (name : String) : Option Switch :=
  (available level).find? fun o => o.long = name

/-- The option of a letter. -/
def ofShort? (level : Level) (letter : Char) : Option Switch :=
  (available level).find? fun o => o.short? = some letter

end Switch

/-- What was understood of the arguments of one level. -/
structure Understood where
  options : List (Switch × String) := []
  /-- An option that waits to be checked, with its value if that has come. -/
  pending : Option (Switch × Option String) := none
  files : List String := []
  deriving Repr

namespace Understood

/-- Whether an option waits for its value. -/
def awaitsValue (u : Understood) : Bool :=
  match u.pending with
  | some (_, none) => true
  | _ => false

/-- Take an option with its value; a flag has the empty one. -/
def take (u : Understood) (o : Switch) (value : String) : Except Usage Understood :=
  match o with
  | .help => .error .help
  | .version => .error .version
  | _ =>
    if !o.repeats && u.options.any (·.1 = o) then .error .argumentConflict
    else if o.takesValue && !o.accepts value then .error .invalidValue
    else .ok { u with options := u.options ++ [(o, value)] }

/-- Check the option that waits. -/
def settle (u : Understood) : Except Usage Understood :=
  match u.pending with
  | none => .ok u
  | some (_, none) => .error .invalidValue
  | some (o, some value) => { u with pending := none }.take o value

/-- Take an option, after the one that waits. -/
def takeNext (u : Understood) (o : Switch) (value : String) : Except Usage Understood := do
  (← u.settle).take o value

/-- Let an option wait for its value. -/
def await (u : Understood) (o : Switch) : Except Usage Understood := do
  return { ← u.settle with pending := some (o, none) }

/-- Take an option by its long name, with the value that an equal sign attaches. -/
def long (u : Understood) (level : Level) (name : String) (attached : Option String) :
    Except Usage Understood :=
  match Switch.ofLong? level name with
  | none => .error .unknownArgument
  | some o =>
    if o.takesValue then match attached with
      | some value => u.takeNext o value
      | none => u.await o
    else match attached with
      | some _ => .error .tooManyValues
      | none => u.takeNext o ""

/-- Take options by their letters. What follows the letter of an option with a value is the value. -/
def letters (u : Understood) (level : Level) : List Char → Except Usage Understood
  | [] => .ok u
  | c :: cs =>
    match Switch.ofShort? level c with
    | none => .error .unknownArgument
    | some o =>
      if o.takesValue then match cs with
        | [] => u.await o
        | '=' :: value => u.takeNext o (String.ofList value)
        | value => u.takeNext o (String.ofList value)
      else match u.takeNext o "" with
        | .error e => .error e
        | .ok u => letters u level cs

/-- Take a file. -/
def file (u : Understood) (name : String) : Except Usage Understood := do
  let u ← u.settle
  return { u with files := u.files ++ [name] }

/-- Give the option that waits its value. -/
def supply (u : Understood) (value : String) : Understood :=
  { u with pending := u.pending.map fun (o, _) => (o, some value) }

/-- The last value of an option. -/
def value? (u : Understood) (o : Switch) : Option String := u.options.reverse.lookup o

/-- All values of an option. -/
def values (u : Understood) (o : Switch) : List String :=
  u.options.filterMap fun (p, v) => if p = o then some v else none

/-- Whether an option was given. -/
def has (u : Understood) (o : Switch) : Bool := u.options.any (·.1 = o)

end Understood

/-- What an argument looks like. -/
inductive Form where
  /-- Two dashes, after which everything is a file. -/
  | endOfOptions
  | long (name : String) (attached : Option String)
  | letters (cs : List Char)
  | plain
  deriving DecidableEq, Repr

/-- The form of an argument. A single dash is a plain one. -/
def formOf (arg : String) : Form :=
  match arg.toList with
  | ['-', '-'] => .endOfOptions
  | '-' :: '-' :: r =>
    let name := String.ofList (r.takeWhile (· != '='))
    match r.dropWhile (· != '=') with
    | [] => .long name none
    | _ :: value => .long name (some (String.ofList value))
  | '-' :: c :: r => .letters (c :: r)
  | _ => .plain

/-- Understand the arguments of a command. `open_` says whether options may still come. -/
def readCommand (level : Level) : Bool → Understood → List String → Except Usage Understood
  | _, u, [] => u.settle
  | false, u, a :: rest => do readCommand level false (← u.file a) rest
  | true, u, a :: rest =>
    match formOf a with
    | .endOfOptions => readCommand level false u rest
    | .long name attached => do readCommand level true (← u.long level name attached) rest
    | .letters cs => do readCommand level true (← u.letters level cs) rest
    | .plain =>
      if u.awaitsValue then readCommand level true (u.supply a) rest
      else do readCommand level true (← u.file a) rest

/-- The answer to a request for help on commands. -/
def helpOn : List String → Usage
  | [] => .help
  | [name] => if name = "run" ∨ name = "build" ∨ name = "help" then .help else .invalidCommand
  | _ => .invalidCommand

/-- Understand the arguments of the program: its own, the command, and the command's own. -/
def readProgram : Bool → Understood → List String →
    Except Usage (Understood × Level × Understood)
  | _, u, [] => do
    let u ← u.settle
    .error (if u.options.isEmpty then .helpForMissing else .missingCommand)
  | false, _, a :: _ =>
    .error (if a = "run" ∨ a = "build" ∨ a = "help" then .unknownArgument else .invalidCommand)
  | true, u, a :: rest =>
    let command (level : Level) : Except Usage (Understood × Level × Understood) := do
      let own ← readCommand level true {} rest
      return (← u.settle, level, own)
    if !u.awaitsValue && a = "run" then command .run
    else if !u.awaitsValue && a = "build" then command .build
    else if !u.awaitsValue && a = "help" then .error (helpOn rest)
    else match formOf a with
      | .endOfOptions => readProgram false u rest
      | .long name attached => do readProgram true (← u.long .program name attached) rest
      | .letters cs => do readProgram true (← u.letters .program cs) rest
      | .plain => if u.awaitsValue then readProgram true (u.supply a) rest else .error .invalidCommand

/-- What a command is to do with the task files. -/
inductive Command where
  | run
  /-- Write the compiled files below a directory, perhaps with the texts for a host. -/
  | build (dist : String) (withRuntime : Bool)
  deriving DecidableEq, Repr

/-- What the arguments ask for. -/
structure Request where
  command : Command
  config : Option String
  patterns : List String
  directories : List String
  all : Bool
  deriving DecidableEq, Repr

/-- Where built files go unless another directory is named. -/
def defaultDist : String := "dist"

/-- The request of arguments. An option after the name of the command counts before the same one in
front of it. -/
def Request.parse (args : List String) : Except Usage Request := do
  let (before, level, own) ← readProgram true {} args
  return {
    command := if level = .build then
      .build ((own.value? .dist).getD defaultDist) (own.has .runtime) else .run
    config := (own.value? .config).or (before.value? .config)
    patterns := own.files
    directories := own.values .directory
    all := own.has .all }

end Tasklang.CommandLine
