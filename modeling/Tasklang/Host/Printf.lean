import Tasklang.Host.Escape
import Tasklang.Number.Directive

/-! # Writing by a format

What `printf` writes: the text of the format with its escapes replaced, and arguments in place of
its directives. A format is written again until the arguments are used up. Numbers that cannot be
read are complained about, and a directive that does not exist ends the output.
-/

namespace Tasklang.Printf

/-- What a format has written so far. -/
structure Written where
  out : Bytes := []
  /-- The arguments that are left. -/
  args : List String := []
  /-- Whether nothing more is written. -/
  stopped : Bool := false
  /-- Complaints, in order. -/
  complaints : List String := []
  code : Nat := 0
  deriving Inhabited

namespace Written

/-- Write bytes. -/
def add (w : Written) (bs : Bytes) : Written := { w with out := w.out ++ bs }

/-- Take an argument; there is an empty one after the last. -/
def next (w : Written) : String × Written := (w.args.headD "", { w with args := w.args.tail })

/-- Complain, and go on. -/
def complain (w : Written) (complaint : String) : Written :=
  { w with complaints := w.complaints ++ [complaint], code := 1 }

/-- Complain about a directive that cannot be written, and stop. -/
def refuse (w : Written) (p : Provider) (spelling : List Char) (missing : Bool) : Written :=
  let text := "%" ++ String.ofList spelling
  match p with
  | .program => { w.complain (text ++ ": invalid conversion specification") with stopped := true }
  | .builtin =>
    let complaint := if missing then "missing format character" else text ++ ": invalid directive"
    { w.complain complaint with stopped := true, code := 2 }

end Written

/-- What is wrong with an argument that should be a number. -/
inductive NumberFault where
  | none
  | notANumber
  /-- A quote without a character after it. -/
  | loneQuote
  | trailing
  | outOfRange
  deriving DecidableEq, Repr

/-- A byte of an argument in a complaint of the program. -/
def quotedByte (b : UInt8) : List Char :=
  match b with
  | 0x07 => ['\\', 'a']
  | 0x08 => ['\\', 'b']
  | 0x09 => ['\\', 't']
  | 0x0A => ['\\', 'n']
  | 0x0B => ['\\', 'v']
  | 0x0C => ['\\', 'f']
  | 0x0D => ['\\', 'r']
  | 0x27 => ['\\', '\'']
  | 0x5C => ['\\', '\\']
  | b =>
    if b < 0x20 ∨ 0x7F ≤ b then '\\' :: Number.padZeros 3 (Nat.toDigits 8 b.toNat)
    else [Char.ofNat b.toNat]

/-- An argument in a complaint of the program. -/
def quotedArgument (arg : String) : String :=
  String.ofList ('\'' :: (Bytes.ofString arg).flatMap quotedByte ++ ['\''])

/-- Complain about an argument, if something is wrong with it. -/
def Written.check (w : Written) (p : Provider) (arg : String) (fault : NumberFault) : Written :=
  let (program, builtin) := match fault with
    | .none => ("", "")
    | .notANumber => ("expected a numeric value", "expected numeric value")
    | .loneQuote => ("expected a numeric value", "")
    | .trailing => ("value not completely converted", "not completely converted")
    | .outOfRange => ("Numerical result out of range", "Numerical result out of range")
  match p with
  | .program => if program.isEmpty then w else w.complain (quotedArgument arg ++ ": " ++ program)
  | .builtin => if builtin.isEmpty then w else w.complain (arg ++ ": " ++ builtin)

/-- The number that digits form. -/
def digitsValue (base : Nat) (cs : List Char) : Nat :=
  cs.foldl (fun v c =>
    v * base + ((if c.toNat < 128 then Bytes.hexValue? (UInt8.ofNat c.toNat) else none).getD 0)) 0

/-- Whether a character is a digit of base sixteen. -/
def isHexDigit (c : Char) : Bool :=
  c.toNat < 128 && (Bytes.hexValue? (UInt8.ofNat c.toNat)).isSome

/-- The sign of a number after blanks: whether it is negative, and the rest. -/
def readSign (cs : List Char) : Bool × List Char :=
  match cs.dropWhile fun c => c == ' ' || ('\t' ≤ c && c ≤ '\r') with
  | '-' :: r => (true, r)
  | '+' :: r => (false, r)
  | r => (false, r)

/-- The natural number at the start, and the rest. Base sixteen and base eight have their marks. -/
def readNat (cs : List Char) : Option (Nat × List Char) :=
  let span (base : Nat) (p : Char → Bool) (cs : List Char) : Nat × List Char :=
    (digitsValue base (cs.takeWhile p), cs.dropWhile p)
  match cs with
  | '0' :: x :: c :: r =>
    if (x = 'x' ∨ x = 'X') ∧ isHexDigit c then some (span 16 isHexDigit (c :: r))
    else some (span 8 (fun c => '0' ≤ c && c ≤ '7') cs)
  | '0' :: _ => some (span 8 (fun c => '0' ≤ c && c ≤ '7') cs)
  | c :: _ => if c.isDigit then some (span 10 Char.isDigit cs) else none
  | [] => none

/-- The integer that an argument says, and what is wrong with it. A character after a quote stands
for its number. -/
def integerOf (low high : Int) (arg : String) : Int × NumberFault :=
  match arg.toList with
  | [] => (0, .none)
  | q :: cs =>
    if q = '\'' ∨ q = '"' then
      match (Bytes.ofChars cs).head? with
      | some b => (b.toNat, .none)
      | none => (0, .loneQuote)
    else
      let (negative, digits) := readSign (q :: cs)
      match readNat digits with
      | none => (0, .notANumber)
      | some (v, rest) =>
        let v : Int := if negative then -v else v
        if v < low ∨ high < v then
          (if v < low then low else high, .outOfRange)
        else (v, if rest.isEmpty then .none else .trailing)

/-- The rest after a word in either case, if it stands at the start. -/
def afterWord? (word : String) (cs : List Char) : Option (List Char) :=
  if (cs.take word.length).map Char.toLower = word.toList then some (cs.drop word.length) else none

/-- The rest after letters and digits in parentheses, if these stand at the start. -/
def afterNote (cs : List Char) : List Char :=
  match cs with
  | '(' :: r => match r.dropWhile fun c => c.isAlphanum || c == '_' with
    | ')' :: rest => rest
    | _ => cs
  | _ => cs

/-- A number that is no digits: an infinity or no number at all, and the rest. -/
def readSpecial (cs : List Char) : Option (Double × List Char) :=
  let infinite : Double := .ofFloat (1.0 / 0.0)
  match afterWord? "infinity" cs, afterWord? "inf" cs, afterWord? "nan" cs with
  | some r, _, _ => some (infinite, r)
  | none, some r, _ => some (infinite, r)
  | none, none, some r => some (Double.invalid.abs, afterNote r)
  | none, none, none => none

/-- Digits with a point among them: those before it, those after it, and the rest. -/
def readPlaces (isDigit : Char → Bool) (cs : List Char) : List Char × List Char × List Char :=
  let whole := cs.takeWhile isDigit
  match cs.drop whole.length with
  | '.' :: r => (whole, r.takeWhile isDigit, r.dropWhile isDigit)
  | r => (whole, [], r)

/-- An exponent after one of its letters, and the rest; none counts as zero. -/
def readExponent (letters : List Char) (cs : List Char) : Int × List Char :=
  match cs with
  | e :: r =>
    let (down, digits) : Bool × List Char := match r with
      | '-' :: r => (true, r)
      | '+' :: r => (false, r)
      | r => (false, r)
    let ds := digits.takeWhile Char.isDigit
    if letters.contains e ∧ ds ≠ [] then
      let n := min (digitsValue 10 ds) 1000000
      (if down then -(n : Int) else n, digits.drop ds.length)
    else (0, cs)
  | [] => (0, [])

/-- A double that digits denote, whether it is out of range, and the rest. Results too small to be
exact count as out of range. -/
def readDigits (cs : List Char) : Option (Float × Bool × List Char) :=
  let small (x : Float) : Bool := Number.exponentBits x == 0
  let decimal (cs : List Char) : Option (Float × Bool × List Char) :=
    let (whole, places, rest) := readPlaces Char.isDigit cs
    if whole.isEmpty && places.isEmpty then none
    else
      let (exponent, rest) := readExponent ['e', 'E'] rest
      let m := digitsValue 10 (whole ++ places)
      let x := Number.ofDecimal m (exponent - places.length)
      some (x, m != 0 && (small x || !Number.isFinite x), rest)
  match cs with
  | '0' :: x :: r =>
    let (whole, places, rest) := readPlaces isHexDigit r
    if (x = 'x' ∨ x = 'X') ∧ (whole ≠ [] ∨ places ≠ []) then
      let (exponent, rest) := readExponent ['p', 'P'] rest
      let m := digitsValue 16 (whole ++ places)
      let e := exponent - 4 * places.length
      let x := Number.ofBinary m e
      let exact := decide (-1074 ≤ e) || m % Nat.pow 2 (min 4096 (-1074 - e).toNat) == 0
      some (x, m != 0 && ((small x && !exact) || !Number.isFinite x), rest)
    else decimal cs
  | cs => decimal cs

/-- The double that an argument says, and what is wrong with it. A character after a quote stands
for its number. -/
def doubleOf (arg : String) : Double × NumberFault :=
  let zero : Double := .ofFloat 0.0
  match arg.toList with
  | [] => (zero, .none)
  | q :: cs =>
    if q = '\'' ∨ q = '"' then
      match (Bytes.ofChars cs).head? with
      | some b => (.ofFloat (Float.ofNat b.toNat), .none)
      | none => (zero, .loneQuote)
    else
      let (negative, digits) := readSign (q :: cs)
      let signed (x : Double) : Double := if negative then x.neg else x
      match readSpecial digits, readDigits digits with
      | some (x, rest), _ => (signed x, if rest.isEmpty then .none else .trailing)
      | none, some (x, outside, rest) =>
        (signed (.ofFloat x),
          if !rest.isEmpty then .trailing else if outside then .outOfRange else .none)
      | none, none => (zero, .notANumber)

/-- A width or a precision as it is written. -/
inductive Measure where
  | absent
  | given (n : Nat)
  /-- It is an argument. -/
  | argument
  deriving DecidableEq, Repr

/-- A directive as it is written. -/
structure Spelled where
  flags : List Char
  width : Measure
  precision : Measure
  /-- The letter, unless the format ends before it. -/
  letter : Option Char
  /-- The directive without the percent sign. -/
  spelling : List Char

/-- A width or a precision, and the rest. -/
def readMeasure (cs : List Char) : Measure × List Char :=
  match cs with
  | '*' :: r => (.argument, r)
  | _ =>
    let digits := cs.takeWhile Char.isDigit
    (if digits.isEmpty then .absent else .given (digitsValue 10 digits), cs.drop digits.length)

/-- A directive after its percent sign, and the rest. The program skips marks for sizes. -/
def readDirective (p : Provider) (cs : List Char) : Spelled × List Char :=
  let flags := cs.takeWhile "-+ #0".toList.contains
  let (width, rest) := readMeasure (cs.drop flags.length)
  let (precision, rest) : Measure × List Char := match rest with
    | '.' :: r =>
      let (m, r) := readMeasure r
      (if m = .absent then .given 0 else m, r)
    | r => (.absent, r)
  let sizes := if p = .program then rest.takeWhile "hlLjtz".toList.contains else []
  let rest := if rest.length = sizes.length then rest else rest.drop sizes.length
  match rest with
  | c :: r => (⟨flags, width, precision, some c, cs.take (cs.length - r.length)⟩, r)
  | [] => (⟨flags, width, precision, none, cs⟩, [])

/-- Whether a provider writes a directive. -/
def isWritten (p : Provider) (d : Spelled) (c : Char) : Bool :=
  let known := "aAcdeEfFgGiosuxX".toList.contains c || c == 'b'
  match p with
  | .builtin => known
  | .program =>
    known
      && !(d.flags.contains '#' && "cdisu".toList.contains c)
      && !(d.flags.contains '0' && "cs".toList.contains c)
      && !(d.precision != .absent && c == 'c')
      && !(c == 'b' && d.spelling.length != 1)

/-- The number of a width or a precision; an argument is taken when it is one. -/
def Written.measure (w : Written) (p : Provider) (m : Measure) : Option Int × Written :=
  match m with
  | .absent => (none, w)
  | .given n => (some n, w)
  | .argument =>
    let (arg, w) := w.next
    let (v, fault) := integerOf (-(Nat.pow 2 31 : Int)) ((Nat.pow 2 31 : Int) - 1) arg
    (some v, w.check p arg fault)

/-- Write a directive with its argument. -/
def Written.directive (w : Written) (p : Provider) (d : Spelled) (c : Char) : Written :=
  let (width, w) := w.measure p d.width
  let (precision, w) := w.measure p d.precision
  let width := width.getD 0
  let layout : Directive := {
    flags := if width < 0 then '-' :: d.flags else d.flags
    width := width.natAbs
    precision := precision.bind fun n => if n < 0 then none else some n.toNat
    conversion := c }
  let (arg, w) := w.next
  let cut (bs : Bytes) : Bytes := match layout.precision with
    | some n => bs.take n
    | none => bs
  if c = 's' then w.add (layout.pad (cut (Bytes.ofString arg)))
  else if c = 'c' then w.add (layout.pad [(Bytes.ofString arg).headD 0])
  else if c = 'b' then
    let (bs, stopped) := Escape.replaceAll p (p == .program) arg
    { w.add (layout.pad (cut bs)) with stopped }
  else if c = 'd' ∨ c = 'i' then
    let (v, fault) := integerOf (-(Nat.pow 2 63 : Int)) ((Nat.pow 2 63 : Int) - 1) arg
    (w.add (layout.integer (Int64.ofInt v))).check p arg fault
  else if c = 'o' ∨ c = 'u' ∨ c = 'x' ∨ c = 'X' then
    let (v, fault) := integerOf (1 - (Nat.pow 2 64 : Int)) ((Nat.pow 2 64 : Int) - 1) arg
    (w.add (layout.integer (UInt64.ofInt v).toInt64)).check p arg fault
  else
    let (x, fault) := doubleOf arg
    (w.add (layout.double x)).check p arg fault

/-- Write a format once; `fuel` bounds its length. -/
def writeOnce (p : Provider) : Nat → List Char → Written → Written
  | 0, _, w => w
  | _ + 1, [], w => w
  | n + 1, '\\' :: r, w =>
    if p = .program ∧ r.head? = some 'c' then { w with stopped := true }
    else
      let (bs, rest) := Escape.read p (p == .program) r
      writeOnce p n rest (w.add bs)
  | n + 1, '%' :: '%' :: r, w => writeOnce p n r (w.add [0x25])
  | n + 1, '%' :: r, w =>
    let (d, rest) := readDirective p r
    match d.letter with
    | none => w.refuse p d.spelling true
    | some c =>
      if isWritten p d c then
        let w := w.directive p d c
        if w.stopped then w else writeOnce p n rest w
      else w.refuse p d.spelling false
  | n + 1, c :: r, w => writeOnce p n r (w.add (Bytes.ofChars [c]))

/-- Write a format again and again until the arguments are used up. A format without directives is
written once, and the program complains about the arguments then. -/
def writeAll (p : Provider) (format : String) : Nat → Written → Written
  | 0, w => w
  | n + 1, w =>
    let before := w.args
    let w := writeOnce p (format.length + 1) format.toList w
    if w.stopped || w.args.isEmpty then w
    else if w.args.length = before.length then
      match p with
      | .builtin => w
      | .program =>
        let complaint := "warning: ignoring excess arguments, starting with " ++ quotedArgument (w.args.headD "")
        { w with complaints := w.complaints ++ [complaint] }
    else writeAll p format n w

/-- Write arguments by a format. -/
def write (p : Provider) (format : String) (args : List String) : Written :=
  writeAll p format (args.length + 1) { args }

end Tasklang.Printf
