import Tasklang.Text.Split

/-! # Paths

Paths as texts with slashes. What counts are the components: empty pieces and inner dots drop out,
a dot counts only at the start of a relative path, and two dots always count. Operations that cut a
path keep the spelling of what remains.
-/

namespace Tasklang.Path

/-- One component of a path. -/
inductive Component where
  | root
  | current
  | parent
  | normal (name : String)
  deriving DecidableEq, Repr

/-- The pieces between slashes. -/
def pieces (path : String) : List String := Text.split '/' path

/-- Whether a path starts at the root. -/
def isAbsolute (path : String) : Bool := path.startsWith "/"

/-- Whether the piece at a position counts as a component. -/
def counts (position : Nat) (piece : String) : Bool :=
  piece != "" && (piece != "." || position == 0)

/-- The component of a piece that counts. -/
def componentOf (piece : String) : Component :=
  if piece = "." then .current else if piece = ".." then .parent else .normal piece

/-- The components of a path. -/
def components (path : String) : List Component :=
  (if isAbsolute path then [.root] else [])
    ++ ((pieces path).zipIdx.filter fun (p, i) => counts i p).map fun (p, _) => componentOf p

/-- The names among the components. -/
def normalNames (path : String) : List String :=
  (components path).filterMap fun
    | .normal name => some name
    | _ => none

/-- A path below another. An absolute path stands for itself, and a missing one leaves a slash. -/
def join (base path : String) : String :=
  if isAbsolute path then path
  else if base.isEmpty || base.endsWith "/" then base ++ path
  else base ++ "/" ++ path

/-- The positions of the pieces that count. -/
def positions (path : String) : List Nat :=
  ((pieces path).zipIdx.filter fun (p, i) => counts i p).map (·.2)

/-- A path without the slashes at its end; the root stays. -/
def withoutTrailingSlashes (path : String) : String :=
  match path.toList.reverse.dropWhile (· == '/') with
  | [] => if isAbsolute path then "/" else path
  | cs => String.ofList cs.reverse

/-- The beginning of a path, up to and including the piece at a position. -/
def upTo (path : String) (position : Nat) : String :=
  "/".intercalate ((pieces path).take (position + 1))

/-- The path without its last component; the root and the empty path have none. -/
def parent? (path : String) : Option String :=
  match (positions path).reverse with
  | [] => none
  | [_] => some (if isAbsolute path then "/" else "")
  | _ :: before :: _ => some (upTo path before)

/-- The last component, when it is a name. -/
def fileName? (path : String) : Option String :=
  match (components path).getLast? with
  | some (.normal name) => some name
  | _ => none

/-- The path with its last name replaced, or with the name added when it ends in no name. -/
def withFileName (path name : String) : String :=
  match fileName? path, parent? path with
  | some _, some dir => join dir name
  | _, _ => join path name

/-- The text that is left after the first `n` components, cut at both ends. -/
def dropComponents (path : String) (n : Nat) : String :=
  match (positions path).drop n with
  | [] => ""
  | first :: rest =>
    let last := rest.getLast?.getD first
    "/".intercalate (((pieces path).drop first).take (last + 1 - first))

/-- The path relative to another that its components start with. -/
def stripPrefix? (path base : String) : Option String :=
  let cs := components path
  let bs := components base
  if bs.isPrefixOf cs then
    some (dropComponents path (bs.filter (· != .root)).length)
  else none

end Tasklang.Path
