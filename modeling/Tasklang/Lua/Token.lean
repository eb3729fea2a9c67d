import Tasklang.Lua.Numeral
import Tasklang.Lua.Quote

/-! # Lua tokens

Splitting source bytes into names, reserved words, numerals, strings and symbols. Blanks and
comments separate tokens and are dropped. A list of tokens ends with the end of the source or with
the first piece that is no token.
-/

namespace Tasklang.Lua

/-- A token of Lua source. -/
inductive Token where
  | name (n : String)
  | keyword (w : String)
  | number (n : Number)
  | str (s : Bytes)
  | symbol (s : String)
  /-- A byte that has no meaning in source. -/
  | stray (b : UInt8)
  /-- The end of the source. -/
  | done
  /-- A piece that is no token. -/
  | malformed
  deriving DecidableEq, Repr

/-- A token with the line on which it ends and the line on which the token before it ends. -/
structure Lexeme where
  token : Token
  line : Nat
  before : Nat
  deriving DecidableEq, Repr

namespace Token

/-- Where the reader of a short string is. -/
inductive Place where
  /-- Between characters. -/
  | plain
  /-- After `\z`, skipping blanks. -/
  | skip
  /-- Inside a braced code, after the digits read so far. -/
  | code (value : Nat)

/-- The bytes of a code point, up to six of them, for codes below `2 ^ 31`. -/
def encodeCode (n : Nat) : Bytes :=
  let tail (shift : Nat) : UInt8 := UInt8.ofNat (0x80 + n / Nat.pow 2 shift % 64)
  if n < 0x80 then [UInt8.ofNat n]
  else if n < 0x800 then [UInt8.ofNat (0xC0 + n / Nat.pow 2 6), tail 0]
  else if n < 0x10000 then [UInt8.ofNat (0xE0 + n / Nat.pow 2 12), tail 6, tail 0]
  else if n < 0x200000 then [UInt8.ofNat (0xF0 + n / Nat.pow 2 18), tail 12, tail 6, tail 0]
  else if n < 0x4000000 then
    [UInt8.ofNat (0xF8 + n / Nat.pow 2 24), tail 18, tail 12, tail 6, tail 0]
  else [UInt8.ofNat (0xFC + n / Nat.pow 2 30), tail 24, tail 18, tail 12, tail 6, tail 0]

/-- The byte of a one-letter escape. -/
def letterEscape? (b : UInt8) : Option UInt8 :=
  if b = 0x61 then some 0x07
  else if b = 0x62 then some 0x08
  else if b = 0x66 then some 0x0C
  else if b = 0x6E then some 0x0A
  else if b = 0x72 then some 0x0D
  else if b = 0x74 then some 0x09
  else if b = 0x76 then some 0x0B
  else if b = 0x5C ∨ b = 0x22 ∨ b = 0x27 then some b
  else none

/-- The value of a decimal digit byte. -/
def digitValue (b : UInt8) : Nat := b.toNat - 48

/-- Put bytes in front of what a reader returns. -/
def emit (bs : Bytes) (r : Option (Bytes × Bytes)) : Option (Bytes × Bytes) :=
  r.map fun (s, rest) => (bs ++ s, rest)

/-- The rest of a short string after its opening quote: its bytes, and what follows the closing
quote. A line end inside is an error unless a backslash precedes it. -/
def readShort (quote : UInt8) : Place → Bytes → Option (Bytes × Bytes)
  | _, [] => none
  | .code value, b :: bs =>
    if b = 0x7D then emit (encodeCode value) (readShort quote .plain bs)
    else match Bytes.hexValue? b with
      | some d =>
        if value * 16 + d < Nat.pow 2 31 then readShort quote (.code (value * 16 + d)) bs else none
      | none => none
  | place, b :: bs =>
    if place matches .skip ∧ Bytes.isSpace b then readShort quote .skip bs
    else if b = quote then some ([], bs)
    else if b = 0x0A ∨ b = 0x0D then none
    else if b ≠ 0x5C then emit [b] (readShort quote .plain bs)
    else match bs with
      | [] => none
      | 0x0A :: 0x0D :: bs => emit [0x0A] (readShort quote .plain bs)
      | 0x0D :: 0x0A :: bs => emit [0x0A] (readShort quote .plain bs)
      | 0x0A :: bs => emit [0x0A] (readShort quote .plain bs)
      | 0x0D :: bs => emit [0x0A] (readShort quote .plain bs)
      | 0x7A :: bs => readShort quote .skip bs
      | 0x78 :: h :: l :: bs =>
        match Bytes.hexValue? h, Bytes.hexValue? l with
        | some h, some l => emit [UInt8.ofNat (h * 16 + l)] (readShort quote .plain bs)
        | _, _ => none
      | 0x75 :: 0x7B :: d :: bs =>
        match Bytes.hexValue? d with
        | some d => readShort quote (.code d) bs
        | none => none
      | e :: bs =>
        match letterEscape? e with
        | some c => emit [c] (readShort quote .plain bs)
        | none =>
          if !Bytes.isDigit e then none
          else match bs with
            | [] => none
            | d :: ds =>
              if !Bytes.isDigit d then
                emit [UInt8.ofNat (digitValue e)] (readShort quote .plain (d :: ds))
              else match ds with
                | [] => none
                | c :: cs =>
                  if !Bytes.isDigit c then
                    emit [UInt8.ofNat (digitValue e * 10 + digitValue d)]
                      (readShort quote .plain (c :: cs))
                  else
                    let n := (digitValue e * 10 + digitValue d) * 10 + digitValue c
                    if n ≤ 255 then emit [UInt8.ofNat n] (readShort quote .plain cs) else none

/-- The level of an opening long bracket and what follows it, after its first bracket. -/
def openLong : Nat → Bytes → Option (Nat × Bytes)
  | level, 0x3D :: bs => openLong (level + 1) bs
  | level, 0x5B :: bs => some (level, bs)
  | _, _ => none

/-- What follows a closing long bracket of a level, after its first bracket. -/
def closeLong : Nat → Bytes → Option Bytes
  | 0, 0x5D :: bs => some bs
  | level + 1, 0x3D :: bs => closeLong level bs
  | _, _ => none

/-- The bytes of a long string up to its closing bracket. Line ends become single line feeds. -/
def readLong (level : Nat) : Bytes → Option (Bytes × Bytes)
  | [] => none
  | 0x0A :: 0x0D :: bs => emit [0x0A] (readLong level bs)
  | 0x0D :: 0x0A :: bs => emit [0x0A] (readLong level bs)
  | 0x0D :: bs => emit [0x0A] (readLong level bs)
  | 0x5D :: bs => match closeLong level bs with
    | some rest => some ([], rest)
    | none => emit [0x5D] (readLong level bs)
  | b :: bs => emit [b] (readLong level bs)

/-- Drop one line end. -/
def dropLineEnd : Bytes → Bytes
  | 0x0A :: 0x0D :: bs => bs
  | 0x0D :: 0x0A :: bs => bs
  | 0x0A :: bs => bs
  | 0x0D :: bs => bs
  | bs => bs

/-- What follows a comment, after its two dashes; no value when a long comment never ends. -/
def skipComment (bs : Bytes) : Option Bytes :=
  let line := some (bs.dropWhile fun b => b != 0x0A && b != 0x0D)
  match bs with
  | 0x5B :: r => match openLong 0 r with
    | some (level, r) => (readLong level r).map (·.2)
    | none => line
  | _ => line

/-- Whether a byte may start a name. -/
def startsName (b : UInt8) : Bool := Bytes.isLetter b || b == 0x5F

/-- Whether a byte may continue a name. -/
def continuesName (b : UInt8) : Bool := startsName b || Bytes.isDigit b

/-- The text of ASCII bytes. -/
def asciiString (bs : Bytes) : String := String.ofList (bs.map fun b => Char.ofNat b.toNat)

/-- A name or a reserved word. -/
def word (bs : Bytes) : Token :=
  let s := asciiString bs
  if keywords.contains s then .keyword s else .name s

/-- The run of bytes that a numeral takes: digits of base sixteen and points, and exponent letters
with a sign. `hex` tells which letter starts an exponent. -/
def numeralRun (hex : Bool) : Bytes → Bytes × Bytes
  | [] => ([], [])
  | b :: bs =>
    if (if hex then b = 0x70 ∨ b = 0x50 else b = 0x65 ∨ b = 0x45) then
      match bs with
      | c :: cs =>
        if c = 0x2B ∨ c = 0x2D then
          let (run, rest) := numeralRun hex cs
          (b :: c :: run, rest)
        else
          let (run, rest) := numeralRun hex (c :: cs)
          (b :: run, rest)
      | [] => ([b], [])
    else if Numeral.isHexDigit b || b == 0x2E || continuesName b then
      let (run, rest) := numeralRun hex bs
      (b :: run, rest)
    else ([], b :: bs)

/-- A numeral token. -/
def readNumeral (bs : Bytes) : Option (Token × Bytes) :=
  let hex := match bs with
    | 0x30 :: 0x78 :: _ => true
    | 0x30 :: 0x58 :: _ => true
    | _ => false
  let (run, rest) := match hex, bs with
    | true, z :: x :: r => let (run, rest) := numeralRun true r; (z :: x :: run, rest)
    | _, bs => numeralRun false bs
  (Numeral.unsigned? run).map fun n => (.number n, rest)

/-- The symbols, longer ones before their beginnings. -/
def symbols : List String :=
  ["...", "<<", ">>", "//", "==", "~=", "<=", ">=", "::", "..", "+", "-", "*", "/", "%", "^", "#",
   "&", "~", "|", "<", ">", "=", "(", ")", "\x7b", "\x7d", "[", "]", ";", ":", ",", "."]

/-- The first symbol of a list that the input starts with. -/
def readSymbol : List String → Bytes → Option (Token × Bytes)
  | [], _ => none
  | s :: rest, bs =>
    let sb := Bytes.ofString s
    if sb.isPrefixOf bs then some (.symbol s, bs.drop sb.length) else readSymbol rest bs

/-- One token at the start of input that begins with neither blank nor comment. -/
def readToken (b : UInt8) (r : Bytes) : Option (Token × Bytes) :=
  let bs := b :: r
  if startsName b then some (word (bs.takeWhile continuesName), bs.dropWhile continuesName)
  else if Bytes.isDigit b then readNumeral bs
  else if b = 0x22 ∨ b = 0x27 then
    (readShort b .plain r).map fun (s, rest) => (.str s, rest)
  else if b = 0x2E ∧ (r.head?.any Bytes.isDigit) then readNumeral bs
  else
    match (if b = 0x5B then openLong 0 r else none) with
    | some (level, r) =>
      (readLong level (dropLineEnd r)).map fun (s, rest) => (.str s, rest)
    | none =>
      if b = 0x5B ∧ r.head? = some 0x3D then none
      else some ((readSymbol symbols bs).getD (.stray b, r))

/-- How many line ends a piece of source has. -/
def lineEnds : Bytes → Nat
  | 0x0A :: 0x0D :: bs => lineEnds bs + 1
  | 0x0D :: 0x0A :: bs => lineEnds bs + 1
  | 0x0A :: bs => lineEnds bs + 1
  | 0x0D :: bs => lineEnds bs + 1
  | _ :: bs => lineEnds bs
  | [] => 0

/-- How many line ends a reader passed that started at `bs` and left `rest`. -/
def passedEnds (bs rest : Bytes) : Nat := lineEnds (bs.take (bs.length - rest.length))

/-- Whether a token can take more than one line. -/
def mayCrossLines : Token → Bool
  | .str _ => true
  | _ => false

/-- The tokens of source bytes from a line on, where the token before them ended on line `before`;
`fuel` bounds how many pieces there are. -/
def lexFrom : Nat → Nat → Nat → Bytes → List Lexeme
  | 0, before, line, _ => [⟨.malformed, line, before⟩]
  | _ + 1, before, line, [] => [⟨.done, line, before⟩]
  | n + 1, before, line, b :: bs =>
    if b = 0x0A ∨ b = 0x0D then lexFrom n before (line + 1) (dropLineEnd (b :: bs))
    else if Bytes.isSpace b then lexFrom n before line bs
    else match b, bs with
      | 0x2D, 0x2D :: r => match skipComment r with
        | some rest => lexFrom n before (line + passedEnds r rest) rest
        | none => [⟨.malformed, line, before⟩]
      | _, _ => match readToken b bs with
        | some (t, rest) =>
          let line := if mayCrossLines t then line + passedEnds bs rest else line
          ⟨t, line, before⟩ :: lexFrom n line line rest
        | none => [⟨.malformed, line, before⟩]

/-- The tokens of source bytes. -/
def lex (bs : Bytes) : List Lexeme := lexFrom (bs.length + 1) 1 1 bs

end Token

end Tasklang.Lua
