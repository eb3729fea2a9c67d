import Tasklang.Host.FileSystem

/-! # Patterns

Patterns of the shell: a star stands for any text, a question mark for any character, and brackets
for one of a set. Characters that were quoted stand for themselves. A pattern matches texts, and
names files piece by piece.
-/

namespace Tasklang.Shell

/-- A character of a word after its expansion, and whether it stands for itself. -/
structure Letter where
  char : Char
  literal : Bool
  deriving DecidableEq, Repr

/-- A part of a pattern. -/
inductive PatternPart where
  | char (c : Char)
  | anyChar
  | anyText
  /-- One of the characters in ranges, or none of them. -/
  | oneOf (negated : Bool) (ranges : List (Char × Char))
  deriving DecidableEq, Repr

/-- A pattern. -/
abbrev Pattern := List PatternPart

namespace Pattern

/-- The ranges of characters between brackets. -/
def ranges : List Char → List (Char × Char)
  | a :: '-' :: b :: rest => (a, b) :: ranges rest
  | c :: rest => (c, c) :: ranges rest
  | [] => []

/-- What stands between brackets, after the opening one, and the rest; the closing bracket may
stand for itself as the first character. -/
def bracketed? (ls : List Letter) : Option (PatternPart × List Letter) :=
  let (negated, ls) := match ls with
    | ⟨'!', false⟩ :: rest => (true, rest)
    | ls => (false, ls)
  match ls with
  | [] => none
  | first :: others =>
    let inside := others.takeWhile (·.char != ']')
    match others.drop inside.length with
    | [] => none
    | _ :: rest => some (.oneOf negated (ranges ((first :: inside).map (·.char))), rest)

theorem length_of_bracketed? {ls rest : List Letter} {p : PatternPart}
    (h : bracketed? ls = some (p, rest)) : rest.length < ls.length := by
  have drop_lt (os : List Letter) (k : Nat) (o : Letter) (r : List Letter)
      (hd : os.drop k = o :: r) : r.length < os.length := by
    have := congrArg List.length hd
    simp only [List.length_drop, List.length_cons] at this
    omega
  unfold bracketed? at h
  split at h
  rename_i negated inner heq
  have inner_le : inner.length ≤ ls.length := by
    split at heq <;> cases heq <;> simp
  split at h
  · cases h
  · dsimp only at h
    split at h
    · cases h
    · rename_i hd
      cases h
      have := drop_lt _ _ _ _ hd
      simp only [List.length_cons] at inner_le
      omega

/-- The pattern of a text. -/
def ofLetters (ls : List Letter) : Pattern :=
  match ls with
  | [] => []
  | ⟨c, true⟩ :: rest => .char c :: ofLetters rest
  | ⟨c, false⟩ :: rest =>
    if c = '*' then .anyText :: ofLetters rest
    else if c = '?' then .anyChar :: ofLetters rest
    else if c = '[' then
      match _h : bracketed? rest with
      | some (p, after) => p :: ofLetters after
      | none => .char c :: ofLetters rest
    else .char c :: ofLetters rest
termination_by ls.length
decreasing_by
  · simp
  · simp
  · simp
  · have shorter := length_of_bracketed? _h
    simp only [List.length_cons]
    omega
  · simp
  · simp

/-- Whether a character fits a part other than any text. -/
def fits (p : PatternPart) (c : Char) : Bool :=
  match p with
  | .char d => c == d
  | .anyChar | .anyText => true
  | .oneOf negated ranges => (ranges.any fun (a, b) => a ≤ c && c ≤ b) != negated

/-- Whether a pattern matches a whole text. -/
def isMatch : Pattern → List Char → Bool
  | [], cs => cs.isEmpty
  | .anyText :: ps, [] => isMatch ps []
  | .anyText :: ps, c :: cs => isMatch ps (c :: cs) || isMatch (.anyText :: ps) cs
  | _ :: _, [] => false
  | p :: ps, c :: cs => fits p c && isMatch ps cs
termination_by ps cs => ps.length + cs.length

/-- Whether a pattern is more than a text. -/
def isProper (p : Pattern) : Bool :=
  p.any fun
    | .char _ => false
    | _ => true

/-- The text of a pattern that is no more than that. -/
def text (p : Pattern) : String :=
  String.ofList (p.filterMap fun
    | .char c => some c
    | _ => none)

/-- A text without the shortest or longest part at its start that a pattern matches. -/
def stripStart (p : Pattern) (longest : Bool) (cs : List Char) : List Char :=
  let sizes := List.range (cs.length + 1)
  match (if longest then sizes.reverse else sizes).find? fun k => isMatch p (cs.take k) with
  | some k => cs.drop k
  | none => cs

/-- A text without the shortest or longest part at its end that a pattern matches. -/
def stripEnd (p : Pattern) (longest : Bool) (cs : List Char) : List Char :=
  let sizes := List.range (cs.length + 1)
  match (if longest then sizes else sizes.reverse).find? fun k => isMatch p (cs.drop k) with
  | some k => cs.take k
  | none => cs

/-- The pieces of a text between its slashes. -/
def segments : List Letter → List (List Letter)
  | [] => [[]]
  | l :: ls =>
    if l.char = '/' then [] :: segments ls
    else match segments ls with
      | s :: ss => (l :: s) :: ss
      | [] => [[l]]

/-- Whether a pattern matches a name in a directory. Names that start with a dot are matched only
by patterns that do. -/
def matchesName (p : Pattern) (name : String) : Bool :=
  let shown := match p with
    | .char '.' :: _ => true
    | _ => !name.startsWith "."
  shown && isMatch p name.toList

/-- The paths that segments of a pattern name below a path. -/
def pathsBelow (files : FileSystem) (cwd : Place) : String → List (List Letter) → List String
  | path, [] => [path]
  | path, segment :: rest =>
    let p := ofLetters segment
    let slash := if rest.isEmpty then "" else "/"
    let next (name : String) : List String := pathsBelow files cwd (path ++ name ++ slash) rest
    if isProper p then
      match files.resolve cwd (if path.isEmpty then "." else path) with
      | .error _ => []
      | .ok place =>
        let names := ("." :: ".." :: files.children place).filter (matchesName p)
        (names.mergeSort fun a b => !Bytes.lt (Bytes.ofString b) (Bytes.ofString a)).flatMap next
    else next (String.ofList (segment.map (·.char)))

/-- The paths that a field names when it is a pattern that matches any. -/
def paths (files : FileSystem) (cwd : Place) (field : List Letter) : List String :=
  if isProper (ofLetters field) then
    (pathsBelow files cwd "" (segments field)).filter fun path =>
      match files.stat cwd path with
      | .ok _ => true
      | .error _ => false
  else []

end Pattern

end Tasklang.Shell
