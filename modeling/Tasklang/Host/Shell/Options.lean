/-! # Options

The options of the shell itself, and the options in the arguments of commands: letters after a
hyphen, some of which take a value.
-/

namespace Tasklang.Shell.Options

/-- The options of the shell by name and letter; the last ones have no letter. -/
def settings : List (String × Option Char) :=
  [("errexit", some 'e'), ("noglob", some 'f'), ("ignoreeof", some 'I'), ("interactive", some 'i'),
   ("monitor", some 'm'), ("noexec", some 'n'), ("stdin", some 's'), ("xtrace", some 'x'),
   ("verbose", some 'v'), ("vi", some 'V'), ("emacs", some 'E'), ("noclobber", some 'C'),
   ("allexport", some 'a'), ("notify", some 'b'), ("nounset", some 'u'), ("privileged", some 'p'),
   ("nolog", none), ("debug", none)]

/-- The letters of the options. -/
def letters : List Char := settings.filterMap (·.2)

/-- Options in the order in which they are shown. -/
def shown (given : List Char) : String :=
  String.ofList (letters.reverse.filter given.contains)

/-- The table of the options. -/
def table (given : List Char) : List String :=
  "Current option settings" :: settings.map fun (name, letter) =>
    let isOn := match letter with
      | some c => given.contains c
      | none => false
    name ++ String.ofList (List.replicate (16 - name.length) ' ') ++ (if isOn then "on" else "off")

/-- The commands that bring the options back. -/
def commands (given : List Char) : List String :=
  settings.map fun (name, letter) =>
    let isOn := match letter with
      | some c => given.contains c
      | none => false
    "set " ++ (if isOn then "-o " else "+o ") ++ name

/-- Options with one of them set or not. -/
def change (given : List Char) (isOn : Bool) (letter : Char) : List Char :=
  let others := given.filter (· != letter)
  if isOn then letter :: others else others

/-- The letters of one argument with their values, and a letter whose value is the next argument. -/
def ofLetters (known : List (Char × Bool)) :
    List Char → Except String (List (Char × String) × Option Char)
  | [] => .ok ([], none)
  | c :: cs =>
    match known.lookup c with
    | none => .error ("Illegal option -" ++ String.ofList [c])
    | some true => .ok (if cs.isEmpty then ([], some c) else ([(c, String.ofList cs)], none))
    | some false => do
      let (given, last) ← ofLetters known cs
      return ((c, "") :: given, last)

/-- The options at the start of arguments, and the arguments after them. `known` tells which options
there are and which of them take a value. -/
def read (known : List (Char × Bool)) :
    List String → Except String (List (Char × String) × List String)
  | [] => .ok ([], [])
  | a :: rest =>
    match a.toList with
    | ['-', '-'] => .ok ([], rest)
    | '-' :: c :: cs => do
      let (given, last) ← ofLetters known (c :: cs)
      match last, rest with
      | none, rest =>
        let (more, args) ← read known rest
        return (given ++ more, args)
      | some c, value :: rest =>
        let (more, args) ← read known rest
        return (given ++ (c, value) :: more, args)
      | some c, [] => .error ("No arg for -" ++ String.ofList [c] ++ " option")
    | _ => .ok ([], a :: rest)

/-- How far the options in some arguments are read: the place of the next argument, and the next
character in the one before, if there is one left. -/
structure Place where
  index : Nat := 1
  offset : Option Nat := none
  deriving DecidableEq, Repr, Inhabited

/-- What reading one option gives. -/
structure Scanned where
  /-- Whether there was none. -/
  isOver : Bool := false
  letter : Char := '?'
  /-- The value of the option, when it is set to something or removed. -/
  value : Option (Option String) := none
  complaint : Option String := none
  place : Place
  deriving Repr

/-- The part of an argument from a place on; none when nothing is left of it. -/
def remaining (args : List String) (p : Place) : List Char :=
  match p.offset, p.index with
  | some offset, index + 2 => ((args[index]?).getD "").toList.drop offset
  | _, _ => []

/-- Read an option of a description: letters, each followed by a colon if it takes a value. A
description that starts with a colon asks for silence. -/
def scan (description : List Char) (args : List String) (p : Place) : Scanned :=
  let isSilent := description.head? == some ':'
  let begun := remaining args p
  let (letters, index) : Option (List Char) × Nat :=
    if begun.isEmpty then
      match (args[p.index - 1]?).map String.toList with
      | some ['-', '-'] => (none, p.index + 1)
      | some ('-' :: c :: cs) => (some (c :: cs), p.index + 1)
      | _ => (none, p.index)
    else (some begun, p.index)
  match letters with
  | none | some [] => { isOver := true, place := ⟨index, none⟩ }
  | some (c :: cs) =>
    let whole := ((args[index - 2]?).getD "").length
    let after : Place := ⟨index, some (whole - cs.length)⟩
    let text := String.ofList [c]
    match lookUp c description with
    | none =>
      if isSilent then { value := some (some text), place := after }
      else { value := some none, complaint := some ("Illegal option -" ++ text), place := after }
    | some false => { letter := c, value := some (some ""), place := after }
    | some true =>
      match cs, args[index - 1]? with
      | [], none =>
        if isSilent then { letter := ':', value := some (some text), place := ⟨index, none⟩ }
        else
          { value := some none, complaint := some ("No arg for -" ++ text ++ " option")
            place := ⟨index, none⟩ }
      | [], some value => { letter := c, value := some (some value), place := ⟨index + 1, none⟩ }
      | cs, _ => { letter := c, value := some (some (String.ofList cs)), place := ⟨index, none⟩ }
where
  /-- Whether a letter is described and takes a value. -/
  lookUp (c : Char) : List Char → Option Bool
    | [] => none
    | [d] => if d = c then some false else none
    | d :: e :: rest =>
      if d = c then some (e == ':')
      else if e = ':' then lookUp c rest
      else lookUp c (e :: rest)

end Tasklang.Shell.Options
