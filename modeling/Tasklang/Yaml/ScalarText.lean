import Tasklang.Yaml.Cursor

/-! # The text of YAML scalars

The four ways in which a scalar is written: plain, in quotes, literal and folded blocks. Line ends
inside are folded: one becomes a space, and of more the first is dropped.
-/

namespace Tasklang.Yaml

/-- Blanks and line ends that were read but whose meaning depends on what follows. -/
structure Gap where
  /-- Blanks before the first line end. -/
  blanks : String := ""
  firstBreak : String := ""
  moreBreaks : String := ""
  /-- Whether a line end was met. -/
  broken : Bool := false
  deriving Repr

namespace Gap

/-- What a gap becomes between two pieces of text. -/
def text (g : Gap) : String :=
  if g.broken then
    if g.firstBreak = "\n" then (if g.moreBreaks.isEmpty then " " else g.moreBreaks)
    else g.firstBreak ++ g.moreBreaks
  else g.blanks

/-- Read blanks and line ends. A tab before the column `indent` of a further line is an error;
`fuel` bounds the length of the gap. -/
def read (indent : Nat) : Nat → Gap → Cursor → Option (Gap × Cursor)
  | 0, g, c => some (g, c)
  | fuel + 1, g, c =>
    match c.rest with
    | [] => some (g, c)
    | x :: _ =>
      if isSpaceOrTab x then
        if g.broken then
          if x = '\t' ∧ c.column < indent then none else read indent fuel g (c.skip 1)
        else read indent fuel { g with blanks := g.blanks.push x } (c.skip 1)
      else if isBreak x then
        let (text, c) := c.readBreak
        if g.broken then read indent fuel { g with moreBreaks := g.moreBreaks ++ text } c
        else read indent fuel { g with blanks := "", firstBreak := text, broken := true } c
      else some (g, c)

end Gap

namespace Scalar

/-- Whether a plain scalar ends at a character inside a flow collection. -/
def endsInFlow (c : Char) : Bool := c == ',' || c == '[' || c == ']' || c == '\x7b' || c == '\x7d'

/-- Whether a colon may not stand before this character inside a flow collection. -/
def clashesWithColon (c : Char) : Bool := endsInFlow c || c == '?'

/-- The word at the start of a text, up to a blank or an indicator that ends a plain scalar. -/
def plainWord (inFlow : Bool) : List Char → Option (List Char)
  | [] => some []
  | c :: r =>
    if isSpaceOrTab c || isBreak c then some []
    else if inFlow && c == ':' && r.head?.any clashesWithColon then none
    else if c == ':' && startsBlank r then some []
    else if inFlow && endsInFlow c then some []
    else (plainWord inFlow r).map (c :: ·)

/-- Read a plain scalar: its text, whether a line end follows it, and what comes then. -/
def readPlain (inFlow : Bool) (indent : Nat) :
    Nat → String → Gap → Cursor → Option (String × Bool × Cursor)
  | 0, text, gap, c => some (text, gap.broken, c)
  | fuel + 1, text, gap, c =>
    if c.atDocumentMark || c.rest.head? == some '#' then some (text, gap.broken, c)
    else do
      let word ← plainWord inFlow c.rest
      let (text, gap) := if word.isEmpty then (text, gap)
        else (text ++ gap.text ++ String.ofList word, {})
      let c := c.skip word.length
      match c.rest with
      | [] => some (text, gap.broken, c)
      | x :: _ =>
        if isSpaceOrTab x || isBreak x then
          let (gap, c) ← gap.read indent c.rest.length c
          if !inFlow && c.column < indent then some (text, gap.broken, c)
          else readPlain inFlow indent fuel text gap c
        else some (text, gap.broken, c)

/-- The number that hexadecimal digits form. -/
def hexValue? (cs : List Char) : Option Nat :=
  cs.foldl (fun acc c => do
    let n ← acc
    let d ← if c.isDigit then some (c.toNat - 48)
      else if 'a' ≤ c ∧ c ≤ 'f' then some (c.toNat - 87)
      else if 'A' ≤ c ∧ c ≤ 'F' then some (c.toNat - 55)
      else none
    return n * 16 + d) (some 0)

/-- The character of a code of so many hexadecimal digits. -/
def codeEscape (digits : Nat) (cs : List Char) : Option Char :=
  let code := cs.take digits
  if code.length < digits then none
  else match hexValue? code with
    | some n => if n < 0xD800 ∨ (0xDFFF < n ∧ n ≤ 0x10FFFF) then some (Char.ofNat n) else none
    | none => none

/-- The character of an escape after its backslash, and how long the escape is. -/
def escape (cs : List Char) : Option (Char × Nat) :=
  match cs with
  | [] => none
  | c :: r =>
    match c with
    | '0' => some ('\x00', 1)
    | 'a' => some ('\x07', 1)
    | 'b' => some ('\x08', 1)
    | 't' => some ('\t', 1)
    | '\t' => some ('\t', 1)
    | 'n' => some ('\n', 1)
    | 'v' => some ('\x0b', 1)
    | 'f' => some ('\x0c', 1)
    | 'r' => some ('\r', 1)
    | 'e' => some ('\x1b', 1)
    | ' ' => some (' ', 1)
    | '"' => some ('"', 1)
    | '/' => some ('/', 1)
    | '\\' => some ('\\', 1)
    | 'N' => some ('\u0085', 1)
    | '_' => some ('\u00a0', 1)
    | 'L' => some ('\u2028', 1)
    | 'P' => some ('\u2029', 1)
    | 'x' => (codeEscape 2 r).map fun x => (x, 3)
    | 'u' => (codeEscape 4 r).map fun x => (x, 5)
    | 'U' => (codeEscape 8 r).map fun x => (x, 9)
    | _ => none

/-- Read a scalar in quotes after the opening one: its text, and what follows the closing one. -/
def readQuoted (double : Bool) : Nat → String → Cursor → Option (String × Cursor)
  | 0, _, _ => none
  | fuel + 1, text, c =>
    if c.atDocumentMark then none
    else match c.rest with
      | [] => none
      | '\'' :: '\'' :: _ =>
        if double then readQuoted double fuel (text ++ "''") (c.skip 2)
        else readQuoted double fuel (text.push '\'') (c.skip 2)
      | x :: r =>
        if x = (if double then '"' else '\'') then some (text, c.skip 1)
        else if double ∧ x = '\\' then
          if r.head?.any isBreak then do
            let c := (c.skip 1).skipBreak
            let (gap, c) ← Gap.read 0 c.rest.length { broken := true } c
            readQuoted double fuel (text ++ gap.text) c
          else do
            let (e, n) ← escape r
            readQuoted double fuel (text.push e) (c.skip (n + 1))
        else if isSpaceOrTab x || isBreak x then do
          let (gap, c) ← Gap.read 0 c.rest.length {} c
          readQuoted double fuel (text ++ gap.text) c
        else readQuoted double fuel (text.push x) (c.skip 1)

/-- What a block scalar keeps of the line ends after its text. -/
inductive Chomping where
  | strip
  | clip
  | keep
  deriving DecidableEq, Repr

/-- The header of a block scalar after its indicator: chomping, and the depth of its lines if it is
given. -/
def readHeader (c : Cursor) : Option (Chomping × Nat × Cursor) :=
  let chomping? (x : Char) : Option Chomping :=
    if x = '+' then some .keep else if x = '-' then some .strip else none
  let depth? (x : Char) : Option Nat := if x.isDigit then some (x.toNat - 48) else none
  match c.rest with
  | x :: r =>
    match chomping? x, depth? x with
    | some chomping, _ => match r.head?.bind depth? with
      | some 0 => none
      | some n => some (chomping, n, c.skip 2)
      | none => some (chomping, 0, c.skip 1)
    | none, some 0 => none
    | none, some n => match r.head?.bind chomping? with
      | some chomping => some (chomping, n, c.skip 2)
      | none => some (.clip, n, c.skip 1)
    | none, none => some (.clip, 0, c)
  | [] => some (.clip, 0, c)

/-- Read the line ends and the indentation before a line of a block scalar. Where the depth is not
known yet (zero), the deepest of the lines read gives it. -/
def readIndentation (depth : Nat) :
    Nat → Nat → String → Cursor → Option (Nat × String × Cursor)
  | 0, deepest, breaks, c => some (deepest, breaks, c)
  | fuel + 1, deepest, breaks, c =>
    let spaces := (c.rest.takeWhile (· == ' ')).length
    let n := if depth = 0 then spaces else min spaces (depth - c.column)
    let c := c.skip n
    let deepest := max deepest c.column
    match c.rest with
    | [] => some (deepest, breaks, c)
    | x :: _ =>
      if x = '\t' ∧ (depth = 0 ∨ c.column < depth) then none
      else if isBreak x then
        let (text, c) := c.readBreak
        readIndentation depth fuel deepest (breaks ++ text) c
      else some (deepest, breaks, c)

/-- What was read of a block scalar: its text, the line end after its last line, the line ends after
that, and whether its last line starts with a blank. -/
structure BlockState where
  text : String := ""
  lastBreak : String := ""
  breaks : String := ""
  blankStart : Bool := false

/-- Read the lines of a block scalar. -/
def readLines (literal : Bool) (depth : Nat) :
    Nat → BlockState → Cursor → Option (BlockState × Cursor)
  | 0, s, c => some (s, c)
  | fuel + 1, s, c =>
    match c.rest with
    | [] => some (s, c)
    | x :: _ =>
      if c.column ≠ depth then some (s, c)
      else do
        let blank := isSpaceOrTab x
        let joint :=
          if !literal && s.lastBreak == "\n" && !s.blankStart && !blank then
            (if s.breaks.isEmpty then " " else "")
          else s.lastBreak
        let line := c.rest.takeWhile fun y => !isBreak y
        let (lineEnd, c) := (c.skip line.length).readBreak
        let (_, breaks, c) ← readIndentation depth (c.rest.length + 1) 0 "" c
        readLines literal depth fuel
          ⟨s.text ++ joint ++ s.breaks ++ String.ofList line, lineEnd, breaks, blank⟩ c

/-- Read a block scalar after its indicator, inside a block of some depth. -/
def readBlock (literal : Bool) (parent : Int) (c : Cursor) : Option (String × Cursor) := do
  let (chomping, given, c) ← readHeader c
  let c := c.skipWhile isSpaceOrTab
  let c := if c.rest.head? == some '#' then c.skipComment else c
  if !startsBreak c.rest then none
  let c := c.skipBreak
  let start := if given = 0 then 0 else if 0 ≤ parent then parent.toNat + given else given
  let (deepest, breaks, c) ← readIndentation start (c.rest.length + 1) 0 "" c
  let depth := if start = 0 then max (max deepest (parent + 1).toNat) 1 else start
  let (s, c) ← readLines literal depth (c.rest.length + 1) { breaks } c
  let tail := match chomping with
    | .strip => ""
    | .clip => s.lastBreak
    | .keep => s.lastBreak ++ s.breaks
  return (s.text ++ tail, c)

end Scalar

end Tasklang.Yaml
