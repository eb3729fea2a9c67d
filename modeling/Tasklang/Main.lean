import Tasklang.CommandLine.App

/-! # The program

Files come into the program through a list of their names on the standard input, one a line and
relative to the current directory. What a run writes is put back on disk when it has ended.
-/

open Tasklang Tasklang.CommandLine

/-- The variables of the environment, as the system lists them. -/
def readEnvironment : IO (List (String × String)) := do
  let bytes ← IO.FS.readBinFile "/proc/self/environ"
  let entries := (Bytes.decodeLossy bytes.toList).splitOn "\x00"
  return entries.filterMap fun e => match e.splitOn "=" with
    | name :: rest => if rest.isEmpty then none else some (name, "=".intercalate rest)
    | [] => none

/-- The names that the standard input lists. -/
def readNames : IO (List String) := do
  let input ← IO.getStdin
  let bytes ← input.readToEnd
  return (bytes.splitOn "\n").filter fun name => name != ""

/-- The world of the current directory. -/
def readWorld : IO World := do
  let environment ← readEnvironment
  let cwd := Path.normalNames ((environment.lookup "PWD").getD "/")
  let mut files := ({} : FileSystem).putDirectories cwd
  for name in ← readNames do
    let place := cwd ++ Path.normalNames name
    let contents ← IO.FS.readBinFile name
    files := (files.putDirectories place.dropLast).put place (.file contents.toList)
  return { files, cwd, environment }

/-- Put on disk what differs between two worlds. -/
def writeChanges (before after : World) : IO Unit :=
  for (place, entry) in after.files.entries do
    if before.files.lookup place ≠ some entry then
      let path := "/" ++ "/".intercalate place
      match entry with
      | .directory => IO.FS.createDirAll path
      | .file contents => IO.FS.writeBinFile path ⟨contents.toArray⟩

/-- Write what a run has printed. -/
def writeStreams (w : World) : IO Unit := do
  let output ← IO.getStdout
  output.write ⟨w.output.toArray⟩
  let errors ← IO.getStderr
  errors.write ⟨w.err.toArray⟩

/-- The answer to arguments that ask for no run. -/
def usageText : Usage → String
  | .version => "ys 0.1.0"
  | .help | .helpForMissing => "Usage: ys [OPTIONS] <run|build> [FILES]..."
  | .unknownArgument => "error: unexpected argument"
  | .invalidValue => "error: invalid value"
  | .tooManyValues => "error: unexpected value"
  | .argumentConflict => "error: the argument cannot be used multiple times"
  | .missingCommand => "error: a subcommand is required"
  | .invalidCommand => "error: unrecognized subcommand"

/-- Carry out the arguments in the current directory. -/
def main (args : List String) : IO UInt32 := do
  match Request.parse args with
  | .error usage =>
    if usage.code = 0 then IO.println (usageText usage) else IO.eprintln (usageText usage)
    return UInt32.ofNat usage.code
  | .ok request =>
    let before ← readWorld
    let (result, after) := request.execute before.cwdPath before
    writeChanges before after
    writeStreams after
    match result with
    | .ok code => return UInt32.ofNat code
    | .error e =>
      IO.eprintln ("Error: " ++ e.message)
      return 1
