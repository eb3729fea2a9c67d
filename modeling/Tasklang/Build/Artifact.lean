import Tasklang.Host.FileSystem
import Tasklang.Program.Fragment

/-! # Built files

Where the texts of a compiled task file are written: below an output directory, at the path of the
task file and with another ending. What leads out of the output directory is left out of the path.
-/

namespace Tasklang.Artifact

/-- The ending of modules. -/
def moduleEnding : String := ".lua"

/-- The ending of the texts that run inside a host. -/
def runtimeEnding : String := ".runtime.lua"

/-- A name up to its last dot, unless the dot is the first character. -/
def withoutExtension (name : List Char) : List Char :=
  if name.contains '.' then
    let stem := ((name.reverse.dropWhile (· != '.')).drop 1).reverse
    if stem.isEmpty then name else stem
  else name

/-- A name without the mark of task files at its end. -/
def withoutMark (name : List Char) : List Char :=
  match name.reverse with
  | 's' :: 'y' :: '.' :: r => r.reverse
  | _ => name

/-- A name without its extension and the mark of task files before it. -/
def stem (name : String) : String := String.ofList (withoutMark (withoutExtension name.toList))

/-- A path with another ending; one that ends in no name stays as it is. -/
def changeEnding (path ending : String) : String :=
  match Path.fileName? path with
  | none => path
  | some name => Path.withFileName path (stem name ++ ending)

/-- The path in the output directory for a task file. -/
def pathIn (dist path ending : String) : String :=
  Path.join dist (changeEnding ("/".intercalate (Path.normalNames path)) ending)

/-- The paths and texts that are written for a task file. -/
def all (p : CompiledProgram) (path dist : String) (withRuntime : Bool) : List (String × String) :=
  (pathIn dist path moduleEnding, p.modulePayload)
    :: if withRuntime then [(pathIn dist path runtimeEnding, p.runtimePayload)] else []

/-- Write a file and the missing directories above it. The files are given back also when that fails,
as some directories may have been made. -/
def writeFile (fs : FileSystem) (place : Place) (path text : String) :
    Except IoError Unit × FileSystem :=
  let made := match Path.parent? path with
    | some above => fs.makeDirectories place above
    | none => .ok fs
  match made with
  | .error e => (.error e, fs)
  | .ok fs => match fs.write place path (Bytes.ofString text) with
    | .error e => (.error e, fs)
    | .ok fs => (.ok (), fs)

/-- Write files in order, up to the first that fails; the paths of those written. -/
def writeAll (fs : FileSystem) (place : Place) :
    List (String × String) → Except IoError (List String) × FileSystem
  | [] => (.ok [], fs)
  | (path, text) :: rest =>
    match writeFile fs place path text with
    | (.error e, fs) => (.error e, fs)
    | (.ok (), fs) => match writeAll fs place rest with
      | (.error e, fs) => (.error e, fs)
      | (.ok paths, fs) => (.ok (path :: paths), fs)

end Tasklang.Artifact
