import Tasklang.Host.Shell.Session

/-! # Fields

The last part of the expansion of words. What pieces of a word give are atoms: characters, some of
which may separate fields, and marks. Fields are cut out of them, and those that are patterns stand
for the names of files.
-/

namespace Tasklang.Shell

/-- What the expansion of a word consists of. -/
inductive Atom where
  /-- A character that belongs to its field. -/
  | letter (l : Letter)
  /-- A character of a value, which may separate fields. -/
  | loose (c : Char)
  /-- Quotes, which make a field even when nothing is in them. -/
  | presence
  /-- The end of an argument in the list of all arguments. -/
  | boundary
  deriving DecidableEq, Repr

namespace Atom

/-- The atoms of a text that stands for itself. -/
def literal (cs : List Char) : List Atom := cs.map fun c => .letter ⟨c, true⟩

/-- The atoms of a value, which are separated unless they are in quotes. -/
def value (inQuotes : Bool) (cs : List Char) : List Atom :=
  if inQuotes then literal cs else cs.map .loose

/-- The atoms of the list of all arguments. -/
def arguments (inQuotes : Bool) : List String → List Atom
  | [] => []
  | [a] => (if inQuotes then [.presence] else []) ++ value inQuotes a.toList
  | a :: rest =>
    (if inQuotes then [.presence] else []) ++ value inQuotes a.toList
      ++ .boundary :: arguments inQuotes rest

/-- An atom whose character may separate fields, unless it was quoted. -/
def loosen : Atom → Atom
  | .letter ⟨c, false⟩ => .loose c
  | a => a

/-- The letters of atoms that make one text, with a joint between arguments. -/
def letters (joint : List Char) (atoms : List Atom) : List Letter :=
  atoms.flatMap fun
    | .letter l => [l]
    | .loose c => [⟨c, false⟩]
    | .presence => []
    | .boundary => joint.map fun c => ⟨c, false⟩

/-- The fields of atoms, the letters of the current one in reverse order. Blanks among the
separators are skipped together; any other separator ends a field, even an empty one. `ended` tells
that blanks have just ended a field, which such a separator may still belong to. -/
def fields (separators : List Char) : Option (List Letter) → Bool → List Atom → List (List Letter)
  | current, _, [] => current.toList.map List.reverse
  | current, _, .letter l :: rest => fields separators (some (l :: current.getD [])) false rest
  | current, _, .presence :: rest => fields separators (some (current.getD [])) false rest
  | current, _, .boundary :: rest =>
    current.toList.map List.reverse ++ fields separators none false rest
  | current, ended, .loose c :: rest =>
    if !separators.contains c then
      fields separators (some (⟨c, false⟩ :: current.getD [])) false rest
    else if c = ' ' ∨ c = '\t' ∨ c = '\n' then
      match current with
      | some letters => letters.reverse :: fields separators none true rest
      | none => fields separators none ended rest
    else if current.isNone && ended then fields separators none false rest
    else (current.getD []).reverse :: fields separators none false rest

end Atom

/-- The texts of a field: the files that it names as a pattern, or the field itself. -/
def Session.fieldTexts (s : Session) (field : List Letter) : List String :=
  match if s.has 'f' then [] else Pattern.paths s.files s.cwd field with
  | [] => [String.ofList (field.map (·.char))]
  | paths => paths

end Tasklang.Shell
