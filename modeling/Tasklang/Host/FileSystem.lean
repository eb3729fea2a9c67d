import Tasklang.Host.Path
import Tasklang.Text.Bytes

/-! # Files

A tree of directories and files without links, as a value. Paths are resolved piece by piece, so a
path through a missing name or through a file fails the way it does on disk.
-/

namespace Tasklang

/-- Why an operation on files failed. -/
inductive IoError where
  | notFound
  | permissionDenied
  | alreadyExists
  | notADirectory
  | isADirectory
  | nameTooLong
  | nulInPath
  | nulInArgument
  | notUtf8
  deriving DecidableEq, Repr

namespace IoError

/-- The message of an error. -/
def message : IoError → String
  | .notFound => "No such file or directory (os error 2)"
  | .permissionDenied => "Permission denied (os error 13)"
  | .alreadyExists => "File exists (os error 17)"
  | .notADirectory => "Not a directory (os error 20)"
  | .isADirectory => "Is a directory (os error 21)"
  | .nameTooLong => "File name too long (os error 36)"
  | .nulInPath => "file name contained an unexpected NUL byte"
  | .nulInArgument => "nul byte found in provided data"
  | .notUtf8 => "stream did not contain valid UTF-8"

/-- The name of the kind of an error. -/
def kind : IoError → String
  | .notFound => "NotFound"
  | .permissionDenied => "PermissionDenied"
  | .alreadyExists => "AlreadyExists"
  | .notADirectory => "NotADirectory"
  | .isADirectory => "IsADirectory"
  | .nameTooLong => "InvalidFilename"
  | .nulInPath => "InvalidInput"
  | .nulInArgument => "InvalidInput"
  | .notUtf8 => "InvalidData"

end IoError

/-- What stands at a place of the tree. -/
inductive Entry where
  | file (contents : Bytes)
  | directory
  deriving DecidableEq, Repr

/-- A place of the tree: the names from the root down. -/
abbrev Place := List String

/-- A tree of files. The root always exists and is not listed. -/
structure FileSystem where
  entries : List (Place × Entry) := []
  deriving DecidableEq, Repr

namespace FileSystem

/-- What stands at a place. -/
def lookup (fs : FileSystem) (place : Place) : Option Entry :=
  if place = [] then some .directory else fs.entries.lookup place

/-- Put an entry at a place, replacing what was there. -/
def put (fs : FileSystem) (place : Place) (entry : Entry) : FileSystem :=
  ⟨replace fs.entries⟩
where
  /-- The entries with one of them replaced or added at the end. -/
  replace : List (Place × Entry) → List (Place × Entry)
    | [] => [(place, entry)]
    | (p, e) :: rest => if p = place then (place, entry) :: rest else (p, e) :: replace rest

/-- Remove the entry at a place. -/
def remove (fs : FileSystem) (place : Place) : FileSystem :=
  ⟨fs.entries.filter fun (p, _) => p != place⟩

/-- Put directories at a place and at all places above it. -/
def putDirectories (fs : FileSystem) (place : Place) : FileSystem :=
  (List.range place.length).foldl
    (fun fs n =>
      let above := place.take (n + 1)
      if (fs.lookup above).isSome then fs else fs.put above .directory) fs

/-- The names in a directory. -/
def children (fs : FileSystem) (place : Place) : List String :=
  fs.entries.filterMap fun (p, _) =>
    match p.getLast? with
    | some name => if p.dropLast = place then some name else none
    | none => none

/-- Follow the pieces of a path from a place. Every place that is left behind must be a
directory; the last one need not exist. -/
def walk (fs : FileSystem) : Place → List String → Except IoError Place
  | place, [] => .ok place
  | place, piece :: rest =>
    match fs.lookup place with
    | none => .error .notFound
    | some (.file _) => .error .notADirectory
    | some .directory =>
      if piece = "" ∨ piece = "." then walk fs place rest
      else if piece = ".." then walk fs place.dropLast rest
      else if 255 < piece.utf8ByteSize then .error .nameTooLong
      else walk fs (place ++ [piece]) rest

/-- The place of a path, relative paths starting at `cwd`. -/
def resolve (fs : FileSystem) (cwd : Place) (path : String) : Except IoError Place :=
  if path.isEmpty then .error .notFound
  else if Text.has '\x00' path then .error .nulInPath
  else fs.walk (if Path.isAbsolute path then [] else cwd) (Path.pieces path)

/-- What a path names. -/
def stat (fs : FileSystem) (cwd : Place) (path : String) : Except IoError Entry :=
  match fs.resolve cwd path with
  | .error e => .error e
  | .ok place => match fs.lookup place with
    | none => .error .notFound
    | some entry => .ok entry

/-- Whether a path names a file. -/
def isFile (fs : FileSystem) (cwd : Place) (path : String) : Bool :=
  match fs.stat cwd path with
  | .ok (.file _) => true
  | _ => false

/-- Whether a path names a directory. -/
def isDirectory (fs : FileSystem) (cwd : Place) (path : String) : Bool :=
  match fs.stat cwd path with
  | .ok .directory => true
  | _ => false

/-- The contents of a file. -/
def read (fs : FileSystem) (cwd : Place) (path : String) : Except IoError Bytes :=
  match fs.stat cwd path with
  | .error e => .error e
  | .ok .directory => .error .isADirectory
  | .ok (.file contents) => .ok contents

/-- The contents of a file as text. -/
def readText (fs : FileSystem) (cwd : Place) (path : String) : Except IoError String :=
  match fs.read cwd path with
  | .error e => .error e
  | .ok contents => match Bytes.decode? contents with
    | some text => .ok text
    | none => .error .notUtf8

/-- Write a file, in a directory that exists. A path that ends in a slash names no file. -/
def write (fs : FileSystem) (cwd : Place) (path : String) (contents : Bytes) :
    Except IoError FileSystem :=
  match fs.resolve cwd (Path.withoutTrailingSlashes path) with
  | .error e => .error e
  | .ok place => if path.endsWith "/" then .error .isADirectory else match fs.lookup place with
    | some .directory => .error .isADirectory
    | some (.file _) => .ok (fs.put place (.file contents))
    | none => match fs.lookup place.dropLast with
      | some .directory => .ok (fs.put place (.file contents))
      | some (.file _) => .error .notADirectory
      | none => .error .notFound

/-- Make one directory. -/
def makeDirectory (fs : FileSystem) (cwd : Place) (path : String) : Except IoError FileSystem :=
  match fs.resolve cwd path with
  | .error e => .error e
  | .ok place => match fs.lookup place with
    | some _ => .error .alreadyExists
    | none => match fs.lookup place.dropLast with
      | some .directory => .ok (fs.put place .directory)
      | some (.file _) => .error .notADirectory
      | none => .error .notFound

/-- Make a directory and the missing ones above it. -/
def makeDirectories (fs : FileSystem) (cwd : Place) (path : String) : Except IoError FileSystem :=
  go (Path.pieces path).length fs path
where
  /-- Make a path, its missing parents first; `n` bounds how many there are. -/
  go : Nat → FileSystem → String → Except IoError FileSystem
    | 0, fs, _ => .ok fs
    | n + 1, fs, path =>
      if path.isEmpty then .ok fs
      else match fs.makeDirectory cwd path with
        | .ok fs => .ok fs
        | .error .notFound => match Path.parent? path with
          | none => .error .notFound
          | some above => match go n fs above with
            | .error e => .error e
            | .ok fs => match fs.makeDirectory cwd path with
              | .ok fs => .ok fs
              | .error e => if fs.isDirectory cwd path then .ok fs else .error e
        | .error e => if fs.isDirectory cwd path then .ok fs else .error e

end FileSystem

end Tasklang
