import Tasklang.Host.FileSystem

/-! # Errors of configuration

What can be wrong with the files that a project is made of, before anything is compiled.
-/

namespace Tasklang

/-- What is wrong with the files of a project. -/
inductive ConfigError where
  | notFound (path : String)
  | unreadable (path : String) (cause : IoError)
  /-- A file is no well-formed document, or its values have the wrong kinds. -/
  | malformed
  /-- A task file holds something else than a list. -/
  | notATaskList
  /-- A pattern for file names is not well formed. -/
  | badPattern (pattern : String)
  | noFiles
  deriving DecidableEq, Repr

/-- The message of an error. -/
def ConfigError.message : ConfigError → String
  | .notFound path => "File not found: " ++ path
  | .unreadable path cause => "Failed to read '" ++ path ++ "': " ++ cause.message
  | .malformed => "the document is malformed"
  | .notATaskList => "Invalid configuration: a task file must contain a list of tasks"
  | .badPattern pattern => "Invalid configuration: bad pattern '" ++ pattern ++ "'"
  | .noFiles => "No task files given, pass files, --dir or --all"

/-- The text of a file of a project. -/
def readProjectFile (fs : FileSystem) (cwd : Place) (path : String) : Except ConfigError String :=
  if !fs.isFile cwd path then .error (.notFound path)
  else match fs.readText cwd path with
    | .ok text => .ok text
    | .error cause => .error (.unreadable path cause)

end Tasklang
