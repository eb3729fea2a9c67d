import Tasklang.Text.Bytes

/-! # Patterns

Lua patterns: a pattern is read into pieces, and pieces are matched against a subject with
backtracking. A part that is malformed becomes a piece of its own, which fails only when matching
reaches it.
-/

namespace Tasklang.Lua.Pattern

/-- A class of bytes, named by a letter. An upper case letter names the complement. -/
def inNamedClass (b c : UInt8) : Option Bool :=
  let isUpper := 0x41 ≤ b && b ≤ 0x5A
  let isLower := 0x61 ≤ b && b ≤ 0x7A
  let isGraph := 0x21 ≤ b && b ≤ 0x7E
  let isAlnum := Bytes.isLetter b || Bytes.isDigit b
  let positive := match Char.ofNat (Bytes.toLower c).toNat with
    | 'a' => some (Bytes.isLetter b)
    | 'c' => some (b < 0x20 || b == 0x7F)
    | 'd' => some (Bytes.isDigit b)
    | 'g' => some isGraph
    | 'l' => some isLower
    | 'p' => some (isGraph && !isAlnum)
    | 's' => some (Bytes.isSpace b)
    | 'u' => some isUpper
    | 'w' => some isAlnum
    | 'x' => some (Bytes.hexValue? b).isSome
    | 'z' => some (b == 0)
    | _ => none
  if 0x41 ≤ c && c ≤ 0x5A then positive.map (!·) else positive

/-- Whether a byte belongs to what an escaped byte of a pattern stands for. -/
def inEscape (b c : UInt8) : Bool := (inNamedClass b c).getD (b == c)

/-- A member of a set. -/
inductive Member where
  | byte (b : UInt8)
  | range (low high : UInt8)
  | escape (c : UInt8)
  deriving DecidableEq, Repr

/-- A description of one byte. -/
inductive Single where
  | any
  | byte (b : UInt8)
  | escape (c : UInt8)
  | set (negated : Bool) (members : List Member)
  deriving DecidableEq, Repr

/-- Whether a byte is a member of a set. -/
def Member.holds (b : UInt8) : Member → Bool
  | .byte c => b == c
  | .range low high => low ≤ b && b ≤ high
  | .escape c => inEscape b c

/-- Whether a byte fits a description. -/
def Single.holds (b : UInt8) : Single → Bool
  | .any => true
  | .byte c => b == c
  | .escape c => inEscape b c
  | .set negated members => members.any (Member.holds b) != negated

/-- How often a byte may come. -/
inductive Repetition where
  | once
  | optional
  /-- Any number of times, as often as possible. -/
  | many
  /-- At least once, as often as possible. -/
  | some
  /-- Any number of times, as rarely as possible. -/
  | few
  deriving DecidableEq, Repr

/-- A piece of a pattern. -/
inductive Piece where
  | single (s : Single) (r : Repetition)
  | openCapture
  | positionCapture
  | closeCapture
  | balanced (opening closing : UInt8)
  | frontier (s : Single)
  | backReference (n : Nat)
  | subjectEnd
  | malformed (message : String)
  deriving DecidableEq, Repr

/-- The inside of a set and what follows its closing bracket. -/
def setInside : Bool → Bytes → Option (Bytes × Bytes)
  | _, [] => none
  | true, 0x25 :: c :: r => (setInside false r).map fun (i, r) => (0x25 :: c :: i, r)
  | true, c :: r => (setInside false r).map fun (i, r) => (c :: i, r)
  | false, 0x5D :: r => some ([], r)
  | false, 0x25 :: c :: r => (setInside false r).map fun (i, r) => (0x25 :: c :: i, r)
  | false, c :: r => (setInside false r).map fun (i, r) => (c :: i, r)

/-- The members that the inside of a set lists. -/
def members : Bytes → List Member
  | 0x25 :: c :: r => .escape c :: members r
  | low :: 0x2D :: high :: r => .range low high :: members r
  | c :: r => .byte c :: members r
  | [] => []

/-- A set after its opening bracket, and what follows. -/
def readSet (bs : Bytes) : Option (Single × Bytes) :=
  let (negated, bs) := match bs with
    | 0x5E :: r => (true, r)
    | r => (false, r)
  (setInside true bs).map fun (inside, rest) => (.set negated (members inside), rest)

/-- The description of one byte at the start of a pattern, and what follows. -/
def readSingle : Bytes → Except String (Single × Bytes)
  | [] => .error "malformed pattern"
  | [0x25] => .error "malformed pattern (ends with '%')"
  | 0x25 :: c :: r => .ok (.escape c, r)
  | 0x5B :: r => match readSet r with
    | some found => .ok found
    | none => .error "malformed pattern (missing ']')"
  | 0x2E :: r => .ok (.any, r)
  | c :: r => .ok (.byte c, r)

/-- The repetition at the start of a pattern, and what follows. -/
def readRepetition : Bytes → Repetition × Bytes
  | 0x3F :: r => (.optional, r)
  | 0x2A :: r => (.many, r)
  | 0x2B :: r => (.some, r)
  | 0x2D :: r => (.few, r)
  | r => (.once, r)

/-- The first piece of a pattern and what follows it. -/
def readPiece (bs : Bytes) : Piece × Bytes :=
  match bs with
  | 0x28 :: 0x29 :: r => (.positionCapture, r)
  | 0x28 :: r => (.openCapture, r)
  | 0x29 :: r => (.closeCapture, r)
  | [0x24] => (.subjectEnd, [])
  | 0x25 :: 0x62 :: r => match r with
    | x :: y :: r => (.balanced x y, r)
    | _ => (.malformed "malformed pattern (missing arguments to '%b')", [])
  | 0x25 :: 0x66 :: r => match r with
    | 0x5B :: r => match readSet r with
      | some (s, r) => (.frontier s, r)
      | none => (.malformed "malformed pattern (missing ']')", [])
    | _ => (.malformed "missing '[' after '%f' in pattern", [])
  | bs =>
    match (match bs with
      | 0x25 :: d :: r => if Bytes.isDigit d then some (d.toNat - 0x30, r) else none
      | _ => none) with
    | some (n, r) => (.backReference n, r)
    | none => match readSingle bs with
      | .ok (s, r) => let (rep, r) := readRepetition r; (.single s rep, r)
      | .error message => (.malformed message, [])

/-- The pieces of a pattern; `fuel` bounds how many there are. -/
def readPieces : Nat → Bytes → List Piece
  | 0, _ => []
  | _ + 1, [] => []
  | n + 1, bs => let (p, r) := readPiece bs; p :: readPieces n r

/-- The pieces of a pattern. -/
def parse (pattern : Bytes) : List Piece := readPieces pattern.length pattern

/-- How far a capture reaches. -/
inductive Extent where
  | unfinished
  | position
  | upTo (stop : Nat)
  deriving DecidableEq, Repr

/-- A captured part of the subject. -/
structure Capture where
  start : Nat
  extent : Extent
  deriving DecidableEq, Repr

/-- The end of a match and its captures, if there is one. -/
abbrev Result := Except String (Option (Nat × List Capture))

/-- The first result that is a match or an error, from a count down to zero. -/
def longest (attempt : Nat → Result) : Nat → Result
  | 0 => attempt 0
  | n + 1 => match attempt (n + 1) with
    | .ok none => longest attempt n
    | r => r

/-- The first result that is a match or an error, from a count upward in so many steps. -/
def shortest (attempt : Nat → Result) : Nat → Nat → Result
  | 0, i => attempt i
  | n + 1, i => match attempt i with
    | .ok none => shortest attempt n (i + 1)
    | r => r

/-- Whether the byte at a position fits a description. -/
def holdsAt (subject : Array UInt8) (s : Single) (i : Nat) : Bool :=
  match subject[i]? with
  | some b => s.holds b
  | none => false

/-- How many bytes from a position on fit a description, up to a bound. -/
def countFrom (subject : Array UInt8) (s : Single) (i : Nat) : Nat → Nat
  | 0 => 0
  | n + 1 => if holdsAt subject s i then countFrom subject s (i + 1) n + 1 else 0

/-- Where a balanced part ends whose opening byte stands just before `i`; `depth` of its openings
still have to be closed. -/
def balancedEnd (subject : Array UInt8) (opening closing : UInt8) :
    Nat → Nat → Nat → Option Nat
  | 0, _, _ => none
  | n + 1, i, depth => match subject[i]? with
    | none => none
    | some b =>
      if b = closing then
        if depth = 1 then some (i + 1)
        else balancedEnd subject opening closing n (i + 1) (depth - 1)
      else balancedEnd subject opening closing n (i + 1) (if b = opening then depth + 1 else depth)

/-- Close the last unfinished capture. -/
def closeLast (stop : Nat) : List Capture → Option (List Capture)
  | [] => none
  | c :: cs => match closeLast stop cs with
    | some cs => some (c :: cs)
    | none => if c.extent = .unfinished then some ({ c with extent := .upTo stop } :: cs) else none

/-- A part of the subject. -/
def part (subject : Array UInt8) (start stop : Nat) : Bytes := (subject.extract start stop).toList

/-- How many captures a match can have. -/
def captureLimit : Nat := 32

/-- How many attempts may nest, the outermost one not counted. -/
def depthLimit : Nat := 199

/-- An attempt one level further down. -/
def nested (attempt : Nat → Result) : Nat → Result
  | 0 => .error "pattern too complex"
  | room + 1 => attempt room

/-- Match pieces at a position; `room` says how many attempts may still nest. A repetition that
takes no byte is passed over, any other one attempts the rest of the pattern one level down, and so
does the start or the end of a capture. -/
def matchAt (subject : Array UInt8) : List Piece → Nat → Nat → List Capture → Result
  | [], _, i, caps => .ok (some (i, caps))
  | .single s rep :: ps, room, i, caps =>
    let below (i : Nat) : Result := nested (fun room => matchAt subject ps room i caps) room
    let count (_ : Unit) : Nat := countFrom subject s i (subject.size - i)
    if !holdsAt subject s i then
      match rep with
      | .once | .some => .ok none
      | .optional | .many | .few => matchAt subject ps room i caps
    else
      match rep with
      | .once => matchAt subject ps room (i + 1) caps
      | .optional => match below (i + 1) with
        | .ok none => matchAt subject ps room i caps
        | r => r
      | .many => longest (fun k => below (i + k)) (count ())
      | .some => longest (fun k => below (i + 1 + k)) (count () - 1)
      | .few => shortest (fun k => below (i + k)) (count ()) 0
  | .openCapture :: ps, room, i, caps =>
    if caps.length < captureLimit then
      nested (fun room => matchAt subject ps room i (caps ++ [⟨i, .unfinished⟩])) room
    else .error "too many captures"
  | .positionCapture :: ps, room, i, caps =>
    if caps.length < captureLimit then
      nested (fun room => matchAt subject ps room i (caps ++ [⟨i, .position⟩])) room
    else .error "too many captures"
  | .closeCapture :: ps, room, i, caps =>
    match closeLast i caps with
    | some caps => nested (fun room => matchAt subject ps room i caps) room
    | none => .error "invalid pattern capture"
  | .balanced opening closing :: ps, room, i, caps =>
    if subject[i]? = some opening then
      match balancedEnd subject opening closing (subject.size - i) (i + 1) 1 with
      | some stop => matchAt subject ps room stop caps
      | none => .ok none
    else .ok none
  | .frontier s :: ps, room, i, caps =>
    let before := if i = 0 then 0 else subject.getD (i - 1) 0
    if !s.holds before && s.holds (subject.getD i 0) then matchAt subject ps room i caps
    else .ok none
  | .backReference n :: ps, room, i, caps =>
    match (if n = 0 then none else caps[n - 1]?) with
    | some ⟨start, .upTo stop⟩ =>
      if part subject start stop = part subject i (i + (stop - start)) then
        matchAt subject ps room (i + (stop - start)) caps
      else .ok none
    | some ⟨_, .position⟩ => .ok none
    | _ => .error ("invalid capture index %" ++ Nat.repr n ++ " in pattern")
  | .subjectEnd :: ps, room, i, caps =>
    if i = subject.size then matchAt subject ps room i caps else .ok none
  | .malformed message :: _, _, _, _ => .error message

/-- A match: where it starts and ends, and its captures. -/
structure Match where
  start : Nat
  stop : Nat
  captures : List Capture
  deriving DecidableEq, Repr

/-- The first match from a position on within so many further positions. A match may not end at
`barred`, where the one before it ended. -/
def search (subject : Array UInt8) (pieces : List Piece) (barred : Option Nat) :
    Nat → Nat → Except String (Option Match)
  | more, i => match matchAt subject pieces depthLimit i [] with
    | .error e => .error e
    | .ok found =>
      let fresh := found.filter fun (stop, _) => barred != some stop
      match fresh, more with
      | some (stop, caps), _ => .ok (some ⟨i, stop, caps⟩)
      | none, 0 => .ok none
      | none, more + 1 => search subject pieces barred more (i + 1)

/-- Whether a pattern is bound to the start of a search, and the rest of it. -/
def anchored : Bytes → Bool × Bytes
  | 0x5E :: r => (true, r)
  | r => (false, r)

/-- Whether a pattern has a byte with a special meaning. -/
def hasSpecials (pattern : Bytes) : Bool :=
  pattern.any fun b => (Bytes.ofString "^$*+?.([%-").contains b

/-- Where a string first stands in the subject from a position on, within so many positions. -/
def findPlain (subject : Array UInt8) (text : Bytes) : Nat → Nat → Option Nat
  | more, i =>
    if part subject i (i + text.length) = text then some i
    else match more with
      | 0 => none
      | more + 1 => findPlain subject text more (i + 1)

end Tasklang.Lua.Pattern
