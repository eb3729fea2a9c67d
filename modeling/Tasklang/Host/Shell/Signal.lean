/-! # Signals

The signals by name and number. The end of a shell counts as a signal with number zero.
-/

namespace Tasklang.Shell.Signal

/-- The names of the signals with the numbers from one on; those without a name are empty. -/
def names : List String :=
  ["HUP", "INT", "QUIT", "ILL", "TRAP", "ABRT", "BUS", "FPE", "KILL", "USR1", "SEGV", "USR2", "PIPE",
   "ALRM", "TERM", "", "CHLD", "CONT", "STOP", "TSTP", "TTIN", "TTOU", "URG", "XCPU", "XFSZ",
   "VTALRM", "PROF", "WINCH", "IO", "PWR", "SYS"]

/-- The greatest number. -/
def greatest : Nat := 64

/-- The name of a signal, or its number. -/
def name (n : Nat) : String :=
  if n = 0 then "EXIT"
  else match names[n - 1]? with
    | some text => if text.isEmpty then Nat.repr n else text
    | none =>
      if n < 34 then Nat.repr n
      else if n = 34 then "RTMIN"
      else if n < 50 then "RTMIN+" ++ Nat.repr (n - 34)
      else if n < 64 then "RTMAX-" ++ Nat.repr (64 - n)
      else "RTMAX"

/-- The signal that a text names, which may be its number, if that is not below a least one. -/
def ofText? (least : Nat) (text : String) : Option Nat :=
  let numbers := (List.range (greatest + 1)).filter (least ≤ ·)
  if !text.isEmpty && text.all Char.isDigit then numbers.find? (some · == text.toNat?)
  else numbers.find? fun n => name n == text.toUpper

/-- The signals that do nothing to a program unless it asks for that. -/
def harmless : List Nat := [0, 17, 18, 23, 28]

/-- How messages call a signal that ended a program. -/
def message (n : Nat) : String :=
  if n = 1 then "Hangup"
  else if n = 3 then "Quit"
  else if n = 4 then "Illegal instruction"
  else if n = 5 then "Trace/breakpoint trap"
  else if n = 6 then "Aborted"
  else if n = 7 then "Bus error"
  else if n = 8 then "Floating point exception"
  else if n = 9 then "Killed"
  else if n = 10 then "User defined signal 1"
  else if n = 11 then "Segmentation fault"
  else if n = 12 then "User defined signal 2"
  else if n = 14 then "Alarm clock"
  else if n = 15 then "Terminated"
  else if n = 16 then "Stack fault"
  else if n = 24 then "CPU time limit exceeded"
  else if n = 25 then "File size limit exceeded"
  else if n = 26 then "Virtual timer expired"
  else if n = 27 then "Profiling timer expired"
  else if n = 29 then "I/O possible"
  else if n = 30 then "Power failure"
  else if n = 31 then "Bad system call"
  else ""

end Tasklang.Shell.Signal
