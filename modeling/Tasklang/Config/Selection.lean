import Tasklang.Config.Error
import Tasklang.Host.Glob

/-! # Choosing task files

Which files a command works on: the files that are named, then those below the working directory if
all are asked for, those below some directories, and those that match patterns. A file counts once
for each way to write its path by components, and paths are shown relative to the working directory
where they lie below it.
-/

namespace Tasklang

/-- What task files are asked for. -/
structure Selection where
  /-- Paths of files, and patterns for them. -/
  patterns : List String := []
  directories : List String := []
  /-- Whether all files below the working directory are meant. -/
  all : Bool := false
  deriving DecidableEq, Repr, Inhabited

namespace Selection

/-- The end of the names of task files. -/
def taskFileSuffix : String := ".ys.yml"

/-- The pattern of the task files below a directory. -/
def allBelow (directory : String) : String := Glob.escape directory ++ "/**/*" ++ taskFileSuffix

/-- The pattern of a text, which starts at the working directory unless it is absolute. -/
def fullPattern (cwd text : String) : String :=
  if Path.isAbsolute text then text else Glob.escape cwd ++ "/" ++ text

/-- The patterns for the directories, each of which has to exist. -/
def directoryPatterns (fs : FileSystem) (place : Place) (cwd : String) (directories : List String) :
    Except ConfigError (List String) :=
  directories.mapM fun d =>
    let path := Path.join cwd d
    if fs.isDirectory place path then .ok (allBelow path) else .error (.notFound path)

/-- The paths of the files that are named, each of which has to exist. -/
def namedFiles (fs : FileSystem) (place : Place) (cwd : String) (texts : List String) :
    Except ConfigError (List String) :=
  (texts.filter fun t => !Glob.isPattern t).mapM fun t =>
    let path := Path.join cwd t
    if fs.isFile place path then .ok path else .error (.notFound t)

/-- All patterns to search for. -/
def allPatterns (s : Selection) (cwd : String) (fromDirectories : List String) : List String :=
  (if s.all then [allBelow cwd] else []) ++ fromDirectories
    ++ (s.patterns.filter Glob.isPattern).map (fullPattern cwd)

/-- The files that match patterns. -/
def search (fs : FileSystem) (place : Place) (patterns : List String) :
    Except ConfigError (List String) := do
  let found ← patterns.mapM fun p =>
    match Glob.search fs p with
    | some paths => .ok (paths.filter (fs.isFile place))
    | none => .error (.badPattern p)
  return found.flatten

/-- A path as it is shown: relative to the working directory if it lies below it. -/
def shown (cwd path : String) : String := (Path.stripPrefix? path cwd).getD path

/-- Keep the first of all paths with the same components. `seen` are the ones before. -/
def distinct (seen : List (List Path.Component)) : List String → List String
  | [] => []
  | p :: ps =>
    let cs := Path.components p
    if seen.contains cs then distinct seen ps else p :: distinct (cs :: seen) ps

/-- The chosen files in order. `place` is where relative paths start, and `cwd` the path of the working
directory. -/
def files (s : Selection) (fs : FileSystem) (place : Place) (cwd : String) :
    Except ConfigError (List String) := do
  let fromDirectories ← directoryPatterns fs place cwd s.directories
  let named ← namedFiles fs place cwd s.patterns
  let found ← search fs place (s.allPatterns cwd fromDirectories)
  let chosen := distinct [] ((named ++ found).map (shown cwd))
  if chosen.isEmpty then .error .noFiles else .ok chosen

end Selection

end Tasklang
