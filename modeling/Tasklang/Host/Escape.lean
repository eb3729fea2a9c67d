import Tasklang.Text.Bytes

/-! # Escapes

The escapes that `echo` and `printf` replace. The shell has both of them built in, and knows fewer
escapes than the programs of these names.
-/

namespace Tasklang

/-- Who provides `echo` and `printf`: a program of its own, or the shell. -/
inductive Provider where
  | program
  | builtin
  deriving DecidableEq, Repr

namespace Escape

/-- At most `n` digits of base eight at the start, as a number, and the rest. -/
def octal (n : Nat) (cs : List Char) : Nat × List Char :=
  let isOctal (c : Char) : Bool := '0' ≤ c && c ≤ '7'
  let digits := (cs.take n).takeWhile isOctal
  (digits.foldl (fun v c => v * 8 + (c.toNat - 48)) 0, cs.drop digits.length)

/-- At most two digits of base sixteen at the start, as a number, and the rest. -/
def hexadecimal (cs : List Char) : Nat × List Char :=
  let value? (c : Char) : Option Nat :=
    if c.toNat < 128 then Bytes.hexValue? (UInt8.ofNat c.toNat) else none
  let digits := (cs.take 2).takeWhile fun c => (value? c).isSome
  (digits.foldl (fun v c => v * 16 + (value? c).getD 0) 0, cs.drop digits.length)

/-- The byte that a letter after a backslash stands for. -/
def letter? : Char → Option UInt8
  | 'a' => some 7
  | 'b' => some 8
  | 'e' => some 27
  | 'f' => some 12
  | 'n' => some 10
  | 'r' => some 13
  | 't' => some 9
  | 'v' => some 11
  | '\\' => some 92
  | _ => none

/-- The bytes of an escape after its backslash, and the rest. A double quote can be an escape when
`quotes`. -/
def read (p : Provider) (quotes : Bool) (cs : List Char) : Bytes × List Char :=
  match cs with
  | [] => ([92], [])
  | c :: r =>
    match letter? c with
    | some b => ([b], r)
    | none =>
      if '0' ≤ c ∧ c ≤ '7' then
        let (v, rest) := octal 3 (c :: r)
        ([UInt8.ofNat v], rest)
      else if c = '"' ∧ quotes then ([34], r)
      else if c = 'x' ∧ p = .program then
        let (v, rest) := hexadecimal r
        if rest.length = r.length then ([92, 120], r) else ([UInt8.ofNat v], rest)
      else (92 :: Bytes.ofChars [c], r)

/-- A text with its escapes replaced; `\c` ends the output, which the flag tells. An octal number
may have a zero in front. -/
def replace (p : Provider) (quotes : Bool) : Nat → List Char → Bytes × Bool
  | 0, _ => ([], false)
  | _ + 1, [] => ([], false)
  | _ + 1, '\\' :: 'c' :: _ => ([], true)
  | n + 1, '\\' :: '0' :: r =>
    let (v, rest) := octal 3 r
    let (bs, stop) := replace p quotes n rest
    (UInt8.ofNat v :: bs, stop)
  | n + 1, '\\' :: r =>
    let (e, rest) := read p quotes r
    let (bs, stop) := replace p quotes n rest
    (e ++ bs, stop)
  | n + 1, c :: r =>
    let (bs, stop) := replace p quotes n r
    (Bytes.ofChars [c] ++ bs, stop)

/-- A text with its escapes replaced, and whether one of them ends the output. -/
def replaceAll (p : Provider) (quotes : Bool) (text : String) : Bytes × Bool :=
  replace p quotes (text.length + 1) text.toList

end Escape

end Tasklang
