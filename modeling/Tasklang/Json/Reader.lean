import Tasklang.Json.Basic
import Tasklang.Number.Binary64

/-! # Reading structured values

A reader for the notation that `Json.print` writes, with blanks between tokens. Arrays and objects
may nest 127 deep. Of two entries with one key the later value stands, at the place of the earlier.

Numbers without fraction and exponent are integers while they fit sixty-four bits. Any other number
is a double computed from its leading digits, as many as fit sixty-four bits, and one scaling by a
power of ten.
-/

namespace Tasklang.Json

/-- A step of the reader: a result and the rest of the input. -/
abbrev Read (α : Type) := Option (α × List Char)

/-- Skip the blanks between tokens. -/
def skipBlanks (cs : List Char) : List Char :=
  cs.dropWhile fun c => c == ' ' || c == '\n' || c == '\t' || c == '\r'

/-- The value of a hexadecimal digit. -/
def hexValue? (c : Char) : Option Nat :=
  let n := c.toNat
  if 0x30 ≤ n ∧ n ≤ 0x39 then some (n - 0x30)
  else if 0x41 ≤ n ∧ n ≤ 0x46 then some (n - 0x37)
  else if 0x61 ≤ n ∧ n ≤ 0x66 then some (n - 0x57)
  else none

/-- Four hexadecimal digits. -/
def readHex4 : List Char → Read Nat
  | a :: b :: c :: d :: rest =>
    match hexValue? a, hexValue? b, hexValue? c, hexValue? d with
    | some a, some b, some c, some d => some (((a * 16 + b) * 16 + c) * 16 + d, rest)
    | _, _, _, _ => none
  | _ => none

/-- The code after `\u`; a character beyond the first plane takes two. -/
def readUnicode (cs : List Char) : Read Char :=
  match readHex4 cs with
  | none => none
  | some (hi, rest) =>
    if 0xD800 ≤ hi ∧ hi < 0xDC00 then
      match rest with
      | '\\' :: 'u' :: rest => match readHex4 rest with
        | none => none
        | some (lo, rest) =>
          if 0xDC00 ≤ lo ∧ lo < 0xE000 then
            some (Char.ofNat (0x10000 + (hi - 0xD800) * 1024 + (lo - 0xDC00)), rest)
          else none
      | _ => none
    else if 0xDC00 ≤ hi ∧ hi < 0xE000 then none
    else some (Char.ofNat hi, rest)

/-- The rest of a quoted text after its opening quote. -/
def readText : Nat → List Char → List Char → Read String
  | 0, _, _ => none
  | _ + 1, _, [] => none
  | n + 1, acc, c :: cs =>
    if c = '"' then some (String.ofList acc.reverse, cs)
    else if c = '\\' then
      match cs with
      | 'u' :: cs => match readUnicode cs with
        | some (c, cs) => readText n (c :: acc) cs
        | none => none
      | '"' :: cs => readText n ('"' :: acc) cs
      | '\\' :: cs => readText n ('\\' :: acc) cs
      | '/' :: cs => readText n ('/' :: acc) cs
      | 'b' :: cs => readText n ('\x08' :: acc) cs
      | 'f' :: cs => readText n ('\x0c' :: acc) cs
      | 'n' :: cs => readText n ('\n' :: acc) cs
      | 'r' :: cs => readText n ('\r' :: acc) cs
      | 't' :: cs => readText n ('\t' :: acc) cs
      | _ => none
    else if c.toNat < 0x20 then none
    else readText n (c :: acc) cs

/-- Take digits while the number they form fits sixty-four bits: the number, how many digits were
taken, and the rest. -/
def takeDigits : Nat → Nat → List Char → Nat × Nat × List Char
  | acc, count, [] => (acc, count, [])
  | acc, count, c :: cs =>
    if c.isDigit ∧ acc * 10 + (c.toNat - 48) < Nat.pow 2 64 then
      takeDigits (acc * 10 + (c.toNat - 48)) (count + 1) cs
    else (acc, count, c :: cs)

/-- Whether the input goes on with a digit. -/
def startsDigit : List Char → Bool
  | c :: _ => c.isDigit
  | [] => false

/-- `f · 10 ^ e` in doubles, the scaling done in steps of at most `10 ^ 308`; no value when it grows
beyond all doubles. -/
def scaled : Nat → Float → Int → Option Float
  | 0, f, _ => some f
  | n + 1, f, e =>
    if e.natAbs ≤ 308 then
      if 0 ≤ e then
        let g := f * Float.ofScientific 1 false e.natAbs
        if Number.isFinite g then some g else none
      else some (f / Float.ofScientific 1 false e.natAbs)
    else if f == 0.0 then some f
    else if 0 ≤ e then none
    else scaled n (f / Float.ofScientific 1 false 308) (e + 308)

/-- A double from its digits and power of ten. -/
def floatOf (negative : Bool) (digits : Nat) (e : Int) : Option Json :=
  (scaled 4 (Float.ofNat digits) e).map fun f => .float (if negative then -f else f)

/-- The exponent after `e`, if it is well formed, joined to a power of ten. An exponent beyond
thirty-one bits gives zero or no value. -/
def readExponent (negative : Bool) (digits : Nat) (e : Int) (cs : List Char) : Read Json :=
  let (down, cs) := match cs with
    | '+' :: cs => (false, cs)
    | '-' :: cs => (true, cs)
    | cs => (false, cs)
  if !startsDigit cs then none
  else
    let ds := cs.takeWhile Char.isDigit
    let rest := cs.dropWhile Char.isDigit
    let k : Nat := ds.foldl (fun acc c => min (acc * 10 + (c.toNat - 48)) (Nat.pow 2 31)) 0
    if k < Nat.pow 2 31 then
      (floatOf negative digits (if down then e - (k : Int) else e + (k : Int))).map (·, rest)
    else if digits ≠ 0 ∧ !down then none
    else some (.float (if negative then -0.0 else 0.0), rest)

/-- What may follow the digits of a double: an exponent, or nothing. -/
def readTail (negative : Bool) (digits : Nat) (e : Int) : List Char → Read Json
  | 'e' :: cs => readExponent negative digits e cs
  | 'E' :: cs => readExponent negative digits e cs
  | cs => (floatOf negative digits e).map (·, cs)

/-- The fraction after the point. Digits that no longer fit are dropped. -/
def readFraction (negative : Bool) (digits : Nat) (e : Int) (cs : List Char) : Read Json :=
  let (digits, count, rest) := takeDigits digits 0 cs
  if count = 0 ∧ !startsDigit rest then none
  else readTail negative digits (e - count) (rest.dropWhile Char.isDigit)

/-- A number after its sign. -/
def readUnsigned (negative : Bool) (cs : List Char) : Read Json :=
  match cs with
  | '0' :: rest =>
    if startsDigit rest then none else ending 0 rest
  | c :: _ =>
    if !c.isDigit then none
    else
      let (digits, _, rest) := takeDigits 0 0 cs
      if startsDigit rest then
        let more := rest.takeWhile Char.isDigit
        match rest.dropWhile Char.isDigit with
        | '.' :: rest => readFraction negative digits more.length rest
        | rest => readTail negative digits more.length rest
      else ending digits rest
  | [] => none
where
  /-- What follows digits that fit. -/
  ending (digits : Nat) (rest : List Char) : Read Json :=
    match rest with
    | '.' :: rest => readFraction negative digits 0 rest
    | 'e' :: rest => readExponent negative digits 0 rest
    | 'E' :: rest => readExponent negative digits 0 rest
    | rest =>
      if !negative then some (.int digits, rest)
      else if digits = 0 ∨ digits > Nat.pow 2 63 then some (.float (-(Float.ofNat digits)), rest)
      else some (.int (-(digits : Int)), rest)

/-- A number. -/
def readNumber : List Char → Read Json
  | '-' :: cs => readUnsigned true cs
  | cs => readUnsigned false cs

mutual

/-- A value, with `depth` levels of nesting left. -/
def readValue : Nat → Nat → List Char → Read Json
  | 0, _, _ => none
  | n + 1, depth, cs =>
    match skipBlanks cs with
    | 'n' :: 'u' :: 'l' :: 'l' :: cs => some (.null, cs)
    | 't' :: 'r' :: 'u' :: 'e' :: cs => some (.bool true, cs)
    | 'f' :: 'a' :: 'l' :: 's' :: 'e' :: cs => some (.bool false, cs)
    | '"' :: cs => (readText (cs.length + 1) [] cs).map fun (s, cs) => (.str s, cs)
    | '[' :: cs =>
      if depth ≤ 1 then none
      else match skipBlanks cs with
        | ']' :: cs => some (.arr [], cs)
        | cs => (readItems n (depth - 1) [] cs).map fun (vs, cs) => (.arr vs, cs)
    | '\x7b' :: cs =>
      if depth ≤ 1 then none
      else match skipBlanks cs with
        | '\x7d' :: cs => some (.obj [], cs)
        | cs => (readEntries n (depth - 1) [] cs).map fun (es, cs) => (.obj es, cs)
    | cs => readNumber cs

/-- The values of a nonempty sequence, up to its closing bracket. -/
def readItems : Nat → Nat → List Json → List Char → Read (List Json)
  | 0, _, _, _ => none
  | n + 1, depth, acc, cs =>
    match readValue n depth cs with
    | none => none
    | some (v, cs) => match skipBlanks cs with
      | ',' :: cs => readItems n depth (v :: acc) cs
      | ']' :: cs => some ((v :: acc).reverse, cs)
      | _ => none

/-- The entries of a nonempty mapping, up to its closing brace. -/
def readEntries : Nat → Nat → Bindings → List Char → Read Bindings
  | 0, _, _, _ => none
  | n + 1, depth, acc, cs =>
    match skipBlanks cs with
    | '"' :: cs => match readText (cs.length + 1) [] cs with
      | none => none
      | some (k, cs) => match skipBlanks cs with
        | ':' :: cs => match readValue n depth cs with
          | none => none
          | some (v, cs) => match skipBlanks cs with
            | ',' :: cs => readEntries n depth (acc.insert k v) cs
            | '\x7d' :: cs => some (acc.insert k v, cs)
            | _ => none
        | _ => none
    | _ => none

end

/-- The value that a text denotes, if the whole text denotes one. -/
def parse? (text : String) : Option Json :=
  let cs := text.toList
  match readValue (2 * cs.length + 2) 128 cs with
  | some (v, rest) => if skipBlanks rest = [] then some v else none
  | none => none

end Tasklang.Json
