import Tasklang.Host.Cat
import Tasklang.Host.Printf

/-! # External programs

The few external programs that tasks run: `echo`, `printf`, `cat`, `true` and `false`. They read
files and their input and give output, messages and an exit code.
-/

namespace Tasklang

namespace Programs

/-- The options of `echo` at the start of its arguments: whether a line feed follows, and whether
escapes are replaced. -/
def echoOptions : Bool → Bool → List String → Bool × Bool × List String
  | line, escapes, [] => (line, escapes, [])
  | line, escapes, a :: rest =>
    match a.toList with
    | '-' :: o :: os =>
      let letters := o :: os
      if letters.all fun c => c == 'n' || c == 'e' || c == 'E' then
        echoOptions (line && !letters.contains 'n')
          (letters.foldl (fun e c => if c = 'e' then true else if c = 'E' then false else e) escapes)
          rest
      else (line, escapes, a :: rest)
    | _ => (line, escapes, a :: rest)

/-- Write the arguments, separated by blanks. -/
def echo (args : List String) : Finished :=
  let (line, escapes, words) := echoOptions true false args
  let text := " ".intercalate words
  let stop : Bytes := if line then [10] else []
  if escapes then
    let (bs, stopped) := Escape.replaceAll .program false text
    { out := if stopped then bs else bs ++ stop }
  else { out := Bytes.ofString text ++ stop }

/-- Write the arguments the way a shell does by itself: escapes are always replaced. -/
def shellEcho (args : List String) : Finished :=
  let (line, words) := match args with
    | "-n" :: rest => (false, rest)
    | _ => (true, args)
  let text := " ".intercalate words
  let (bs, stopped) := Escape.replaceAll .builtin false text
  { out := if stopped || !line then bs else bs ++ [10] }

/-- Write arguments by a format, as a program of some name. -/
def printf (name : String) (args : List String) : Finished :=
  match args with
  | [] | ["--"] => misused name "missing operand"
  | "--" :: format :: rest => finish (Printf.write .program format rest)
  | format :: rest => finish (Printf.write .program format rest)
where
  /-- What the program leaves behind. -/
  finish (w : Printf.Written) : Finished :=
    { out := w.out, err := lines (w.complaints.map fun c => name ++ ": " ++ c), code := w.code }

/-- The name of a program without the directories in which programs are. -/
def bareName (program : String) : String :=
  let names := program.splitOn "/"
  if program.startsWith "/bin/" || program.startsWith "/usr/bin/" then names.getLastD "" else program

/-- Whether there is a program of a name without directories. -/
def isKnown (name : String) : Bool :=
  ["cat", "echo", "false", "printf", "sh", "true"].contains name

/-- Run a program other than the shell, if there is one of that name. -/
def run? (files : FileSystem) (cwd : Place) (input : Bytes) (program : String)
    (args : List String) : Option Finished :=
  match bareName program with
  | "echo" => some (echo args)
  | "printf" => some (printf program args)
  | "cat" => some (cat program files cwd input args)
  | "true" => some {}
  | "false" => some { code := 1 }
  | _ => none

end Programs

end Tasklang
