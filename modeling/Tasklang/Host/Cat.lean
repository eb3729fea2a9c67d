import Tasklang.Host.FileSystem

/-! # Showing contents

The program `cat`: the contents of files one after the other, as they are, or with numbers before
lines and marks for what cannot be seen.
-/

namespace Tasklang

/-- What a finished program leaves behind. -/
structure Finished where
  out : Bytes := []
  err : Bytes := []
  code : Nat := 0
  deriving DecidableEq, Repr, Inhabited

namespace Programs

/-- Lines, each with a line feed. -/
def lines (ls : List String) : Bytes := Bytes.ofString (String.join (ls.map (· ++ "\n")))

/-- A program that complains about its arguments. -/
def misused (name complaint : String) : Finished where
  err := lines [name ++ ": " ++ complaint, "Try '" ++ name ++ " --help' for more information."]
  code := 1

/-- Whether a character needs no quotes in a message. -/
def isSafe (c : Char) : Bool := c.isAlphanum || "%+,-./@]^_\x7b\x7d#~".contains c

/-- A name in a message, quoted when a shell would need that. -/
def shown (name : String) : String :=
  if name.isEmpty then "''"
  else if name.all isSafe && !name.startsWith "#" && !name.startsWith "~" then name
  else if name.contains '\'' then "\"" ++ name ++ "\""
  else "'" ++ name ++ "'"

namespace Cat

/-- How contents are shown. -/
structure Look where
  /-- Whether lines are numbered. -/
  numbers : Bool := false
  /-- Whether empty lines are left out when lines are numbered. -/
  skipsEmpty : Bool := false
  /-- Whether only one of several empty lines in a row is shown. -/
  squeezes : Bool := false
  /-- Whether the ends of lines are marked. -/
  ends : Bool := false
  /-- Whether tabulators are marked. -/
  tabs : Bool := false
  /-- Whether other characters that cannot be seen are marked. -/
  controls : Bool := false
  deriving DecidableEq, Repr

/-- The look with an option, if there is one of that letter. -/
def Look.option? (l : Look) (letter : Char) : Option Look :=
  match letter with
  | 'b' => some { l with numbers := true, skipsEmpty := true }
  | 'e' => some { l with ends := true, controls := true }
  | 'n' => some { l with numbers := true }
  | 's' => some { l with squeezes := true }
  | 't' => some { l with tabs := true, controls := true }
  | 'u' => some l
  | 'v' => some { l with controls := true }
  | 'A' => some { l with ends := true, tabs := true, controls := true }
  | 'E' => some { l with ends := true }
  | 'T' => some { l with tabs := true }
  | _ => none

/-- The long options and the letters that mean the same. -/
def longOptions : List (String × Char) :=
  [("number-nonblank", 'b'), ("number", 'n'), ("squeeze-blank", 's'), ("show-nonprinting", 'v'),
   ("show-ends", 'E'), ("show-tabs", 'T'), ("show-all", 'A')]

/-- The look with the options of letters; a letter that is none is told. -/
def Look.letters (l : Look) : List Char → Except String Look
  | [] => .ok l
  | c :: cs => match l.option? c with
    | some l => l.letters cs
    | none => .error ("invalid option -- '" ++ String.ofList [c] ++ "'")

/-- The letter of a long option, which may be cut as long as it is clear what is meant. -/
def longOption (text : String) : Except String Char :=
  let name := String.ofList (text.toList.takeWhile (· != '='))
  let meant := longOptions.filter fun (x, _) => x.startsWith name
  match longOptions.lookup name, meant with
  | some c, _ => whole name c
  | none, [(x, c)] => whole x c
  | none, [] => .error ("unrecognized option '--" ++ text ++ "'")
  | none, _ =>
    .error ("option '--" ++ text ++ "' is ambiguous; possibilities:"
      ++ String.join (meant.map fun (x, _) => " '--" ++ x ++ "'"))
where
  /-- An option takes no argument. -/
  whole (name : String) (c : Char) : Except String Char :=
    if text.contains '=' then .error ("option '--" ++ name ++ "' doesn't allow an argument") else .ok c

/-- The look that options ask for, and the arguments that are none. Options may stand anywhere, up
to a pair of hyphens. -/
def Look.read (l : Look) : List String → Except String (Look × List String)
  | [] => .ok (l, [])
  | a :: rest => do
    match a.toList with
    | ['-', '-'] => return (l, rest)
    | '-' :: '-' :: cs =>
      let l ← l.letters [← longOption (String.ofList cs)]
      l.read rest
    | '-' :: c :: cs =>
      let l ← l.letters (c :: cs)
      l.read rest
    | _ =>
      let (l, paths) ← l.read rest
      return (l, a :: paths)

/-- A number brought to six places, and a tabulator. -/
def lineMark (n : Nat) : Bytes :=
  let digits := Nat.toDigits 10 n
  Bytes.ofChars (List.replicate (6 - digits.length) ' ' ++ digits ++ ['\t'])

/-- A byte below 128 with a mark if it cannot be seen. -/
def markedLow (b : UInt8) : Bytes :=
  if b < 32 then [0x5E, b + 64] else if b = 127 then [0x5E, 0x3F] else [b]

/-- A byte of a line, marked as a look says; a carriage return is marked with the end of its line. -/
def Look.byte (l : Look) (b : UInt8) (next : Option UInt8) : Bytes :=
  if b = 9 then if l.tabs then markedLow b else [b]
  else if l.controls then
    if b < 128 then markedLow b else [0x4D, 0x2D] ++ markedLow (b - 128)
  else if b = 13 ∧ next = some 10 ∧ l.ends then markedLow b
  else [b]

/-- Bytes as a look shows them, with the number of the next line. `feeds` counts the line feeds in
a row before, the start of everything being one. -/
def Look.show (l : Look) : Nat → Nat → Bytes → Bytes
  | _, _, [] => []
  | number, feeds, b :: bs =>
    if b = 10 then
      if 2 ≤ feeds && l.squeezes then l.show number (feeds + 1) bs
      else
        let marked := 0 < feeds && l.numbers && !l.skipsEmpty
        (if marked then lineMark number else []) ++ (if l.ends then [0x24] else []) ++
          b :: l.show (if marked then number + 1 else number) (feeds + 1) bs
    else
      let marked := 0 < feeds && l.numbers
      (if marked then lineMark number else []) ++ l.byte b bs.head? ++
        l.show (if marked then number + 1 else number) 0 bs

end Cat

/-- Whether the program reads its input. -/
def Cat.readsInput (args : List String) : Bool :=
  match Cat.Look.read {} args with
  | .ok (_, paths) => paths.isEmpty || paths.contains "-"
  | .error _ => false

/-- Write the contents of files, or the input, as a program of some name. -/
def cat (name : String) (files : FileSystem) (cwd : Place) (input : Bytes) (args : List String) :
    Finished :=
  match Cat.Look.read {} args with
  | .error complaint => misused name complaint
  | .ok (look, paths) =>
    let done := (if paths.isEmpty then ["-"] else paths).foldl contents ({}, input) |>.1
    { done with out := if look = {} then done.out else look.show 1 1 done.out }
where
  /-- Add the contents of a file, or a complaint about it. The input can be read once. -/
  contents (p : Finished × Bytes) (path : String) : Finished × Bytes :=
    let (done, input) := p
    if path = "-" then ({ done with out := done.out ++ input }, [])
    else if path = "/dev/null" then (done, input)
    else match files.read cwd path with
      | .ok bs => ({ done with out := done.out ++ bs }, input)
      | .error e =>
        let reason := (e.message.splitOn " (os error").headD ""
        let complaint := lines [name ++ ": " ++ shown path ++ ": " ++ reason]
        ({ done with err := done.err ++ complaint, code := 1 }, input)

end Programs

end Tasklang
