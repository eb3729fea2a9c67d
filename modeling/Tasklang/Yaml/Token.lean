import Tasklang.Yaml.ScalarText

/-! # YAML tokens

Splitting YAML text into tokens. Indentation becomes tokens of its own, and a mapping whose key is
written without an indicator gets the tokens for it when its colon is met.
-/

namespace Tasklang.Yaml

/-- How a scalar is written. -/
inductive Style where
  | plain
  | singleQuoted
  | doubleQuoted
  | literal
  | folded
  deriving DecidableEq, Repr

/-- A token. The end of the text is the end of the list of tokens. -/
inductive Token where
  | version (major minor : Nat)
  | tagPrefix (handle text : String)
  | documentStart
  | documentEnd
  | blockSequenceStart
  | blockMappingStart
  | blockEnd
  | flowSequenceStart
  | flowSequenceEnd
  | flowMappingStart
  | flowMappingEnd
  | blockEntry
  | flowEntry
  | key
  | value
  | alias (name : String)
  | anchor (name : String)
  | tag (handle suffix : String)
  | scalar (text : String) (style : Style)
  deriving DecidableEq, Repr

/-- A place where a key without an indicator may have started. -/
structure SimpleKey where
  /-- How many tokens were there before it. -/
  position : Nat
  index : Nat
  line : Nat
  column : Nat
  /-- Whether the colon has to follow. -/
  required : Bool
  deriving Repr

/-- The state of the scanner. -/
structure Scanner where
  cursor : Cursor
  tokens : Array Token := #[]
  /-- The column of the current block, and of the blocks around it. -/
  indent : Int := -1
  indents : List Int := []
  /-- For the outside and for each open flow collection, the key that may have started. -/
  keys : List (Option SimpleKey) := [none]
  keyAllowed : Bool := true
  deriving Inhabited

namespace Scanner

/-- Whether the scanner is inside a flow collection. -/
def inFlow (s : Scanner) : Bool := 1 < s.keys.length

/-- Add a token. -/
def emit (s : Scanner) (t : Token) : Scanner := { s with tokens := s.tokens.push t }

/-- Whether a key can no longer be one: it has to be on one line and not too long. -/
def isStale (c : Cursor) (k : SimpleKey) : Bool := k.line < c.line || k.index + 1024 < c.index

/-- Drop the keys that can no longer be ones; a required one must not be dropped. -/
def dropStale (s : Scanner) : Option Scanner :=
  let stale (k : Option SimpleKey) : Bool := k.any (isStale s.cursor)
  if s.keys.any fun k => stale k && k.any (·.required) then none
  else some { s with keys := s.keys.map fun k => if stale k then none else k }

/-- Forget the key of the innermost collection; a required one must not be forgotten. -/
def removeKey (s : Scanner) : Option Scanner :=
  match s.keys with
  | some k :: rest => if k.required then none else some { s with keys := none :: rest }
  | _ => some s

/-- Remember that a key may start here. -/
def saveKey (s : Scanner) : Option Scanner :=
  if s.keyAllowed then do
    let s ← s.removeKey
    let required := !s.inFlow && s.indent == (s.cursor.column : Int)
    let k : SimpleKey :=
      ⟨s.tokens.size, s.cursor.index, s.cursor.line, s.cursor.column, required⟩
    return { s with keys := some k :: s.keys.tail }
  else some s

/-- Start a block at a column, unless one is there already. Its token goes to a position among the
tokens. -/
def startBlock (s : Scanner) (column position : Nat) (t : Token) : Scanner :=
  if !s.inFlow && s.indent < (column : Int) then
    { s with
      indents := s.indent :: s.indents
      indent := column
      tokens := s.tokens.insertIdxIfInBounds position t }
  else s

/-- End the blocks that are deeper than a column. -/
def endBlocks (column : Int) : Nat → Scanner → Scanner
  | 0, s => s
  | fuel + 1, s =>
    if s.indent > column then
      endBlocks column fuel { s.emit .blockEnd with
        indent := s.indents.headD (-1), indents := s.indents.tail }
    else s

/-- End the blocks that are deeper than a column, outside flow collections. -/
def unroll (s : Scanner) (column : Int) : Scanner :=
  if s.inFlow then s else endBlocks column s.indents.length s

/-- Go over blanks, comments and line ends. Tabs count as blanks only where no key may start. -/
def skipSpace : Nat → Scanner → Scanner
  | 0, s => s
  | fuel + 1, s =>
    let tabs := s.inFlow || !s.keyAllowed
    let c := s.cursor.skipWhile fun x => x == ' ' || (tabs && x == '\t')
    let c := if c.rest.head? == some '#' then c.skipComment else c
    match c.rest with
    | x :: _ =>
      if isBreak x then
        skipSpace fuel { s with cursor := c.skipBreak, keyAllowed := s.keyAllowed || !s.inFlow }
      else { s with cursor := c }
    | [] => { s with cursor := c }

/-- Go on after a number of characters. -/
def advance (s : Scanner) (n : Nat) : Scanner := { s with cursor := s.cursor.skip n }

/-- Allow or forbid a key to start at the next token. -/
def allowKey (s : Scanner) (allowed : Bool) : Scanner := { s with keyAllowed := allowed }

/-- Scan the start of a flow collection. -/
def flowStart (s : Scanner) (t : Token) : Option Scanner := do
  let s ← s.saveKey
  return ({ s with keys := none :: s.keys }.allowKey true |>.emit t).advance 1

/-- Scan the end of a flow collection. -/
def flowEnd (s : Scanner) (t : Token) : Option Scanner := do
  let s ← s.removeKey
  let keys := if s.inFlow then s.keys.tail else s.keys
  return ({ s with keys }.allowKey false |>.emit t).advance 1

/-- Scan the separator of a flow collection. -/
def flowEntry (s : Scanner) : Option Scanner := do
  return ((← s.removeKey).allowKey true |>.emit .flowEntry).advance 1

/-- Scan the indicator of an entry of a block sequence. -/
def blockEntry (s : Scanner) : Option Scanner := do
  if !s.inFlow && !s.keyAllowed then none
  let s := s.startBlock s.cursor.column s.tokens.size .blockSequenceStart
  return ((← s.removeKey).allowKey true |>.emit .blockEntry).advance 1

/-- Scan the indicator of a key. -/
def keyIndicator (s : Scanner) : Option Scanner := do
  if !s.inFlow && !s.keyAllowed then none
  let s := s.startBlock s.cursor.column s.tokens.size .blockMappingStart
  return ((← s.removeKey).allowKey (!s.inFlow) |>.emit .key).advance 1

/-- Scan the indicator of a value. The key before it may still lack its own token. -/
def valueIndicator (s : Scanner) : Option Scanner :=
  match s.keys with
  | some k :: rest =>
    let s := { s with keys := none :: rest, tokens := s.tokens.insertIdxIfInBounds k.position .key }
    let s := s.startBlock k.column k.position .blockMappingStart
    some ((s.allowKey false |>.emit .value).advance 1)
  | _ => do
    if !s.inFlow && !s.keyAllowed then none
    let s := s.startBlock s.cursor.column s.tokens.size .blockMappingStart
    return (s.allowKey (!s.inFlow) |>.emit .value).advance 1

/-- Scan a mark between documents. -/
def documentMark (s : Scanner) (t : Token) : Option Scanner := do
  return ((← (s.unroll (-1)).removeKey).allowKey false |>.emit t).advance 3

/-- Scan an anchor or an alias. -/
def reference (s : Scanner) (make : String → Token) : Option Scanner := do
  let s := (← s.saveKey).allowKey false
  let c := s.cursor.skip 1
  let name := c.rest.takeWhile isWordChar
  let c := c.skip name.length
  let ends := startsBlank c.rest || c.rest.head?.any fun x =>
    x == '?' || x == ':' || x == ',' || x == ']' || x == '\x7d' || x == '%' || x == '@' || x == '\x60'
  if name.isEmpty || !ends then none
  return { s with cursor := c }.emit (make (String.ofList name))

/-- Whether a character may stand in a tag without being escaped. -/
def isTagChar (whole : Bool) (c : Char) : Bool :=
  isWordChar c || ";/?:@&=+$.!~*'()".toList.contains c || (whole && ",[]".toList.contains c)

/-- The text of a tag, its escapes replaced; `fuel` bounds its length. -/
def readTagText (whole : Bool) : Nat → List UInt8 → Cursor → Option (List UInt8 × Cursor)
  | 0, bytes, c => some (bytes, c)
  | fuel + 1, bytes, c =>
    match c.rest with
    | '%' :: h :: l :: _ =>
      match Scalar.hexValue? [h, l] with
      | some n => readTagText whole fuel (bytes ++ [UInt8.ofNat n]) (c.skip 3)
      | none => none
    | '%' :: _ => none
    | x :: _ =>
      if isTagChar whole x then
        readTagText whole fuel (bytes ++ String.utf8EncodeChar x) (c.skip 1)
      else some (bytes, c)
    | [] => some (bytes, c)

/-- The text of a tag. -/
def tagText (whole : Bool) (c : Cursor) : Option (String × Cursor) := do
  let (bytes, c) ← readTagText whole c.rest.length [] c
  let text ← String.fromUTF8? ⟨bytes.toArray⟩
  return (text, c)

/-- The handle of a tag: an exclamation mark, and perhaps a word that another one ends. -/
def tagHandle (c : Cursor) : String × Cursor :=
  let word := (c.rest.drop 1).takeWhile isWordChar
  let after := c.skip (1 + word.length)
  if after.rest.head? == some '!' then
    ("!" ++ String.ofList word ++ "!", after.skip 1)
  else ("!" ++ String.ofList word, after)

/-- The handle and the rest of a tag. -/
def readTag (c : Cursor) : Option (String × String × Cursor) :=
  match c.rest with
  | '!' :: '<' :: _ => do
    let (text, c) ← tagText true (c.skip 2)
    if text.isEmpty then none
    match c.rest with
    | '>' :: _ => return ("", text, c.skip 1)
    | _ => none
  | _ => do
    let (handle, after) := tagHandle c
    if 1 < handle.length && handle.endsWith "!" then
      let (text, c) ← tagText false after
      if text.isEmpty then none
      return (handle, text, c)
    else
      let (text, c) ← tagText false after
      let suffix := String.ofList (handle.toList.drop 1) ++ text
      return if suffix.isEmpty then ("", "!", c) else ("!", suffix, c)

/-- Scan a tag. -/
def tag (s : Scanner) : Option Scanner := do
  let s := (← s.saveKey).allowKey false
  let (handle, suffix, c) ← readTag s.cursor
  let ends := startsBlank c.rest || (s.inFlow && c.rest.head? == some ',')
  if !ends then none
  return { s with cursor := c }.emit (.tag handle suffix)

/-- Scan a block scalar. -/
def blockScalar (s : Scanner) (literal : Bool) : Option Scanner := do
  let s := (← s.removeKey).allowKey true
  let (text, c) ← Scalar.readBlock literal s.indent (s.cursor.skip 1)
  return { s with cursor := c }.emit (.scalar text (if literal then .literal else .folded))

/-- Scan a scalar in quotes. -/
def quotedScalar (s : Scanner) (double : Bool) : Option Scanner := do
  let s := (← s.saveKey).allowKey false
  let c := s.cursor.skip 1
  let (text, c) ← Scalar.readQuoted double (c.rest.length + 1) "" c
  return { s with cursor := c }.emit
    (.scalar text (if double then .doubleQuoted else .singleQuoted))

/-- Scan a plain scalar. A key may start after it only on a new line. -/
def plainScalar (s : Scanner) : Option Scanner := do
  let s := (← s.saveKey).allowKey false
  let (text, broken, c) ← Scalar.readPlain s.inFlow (s.indent + 1).toNat
    (s.cursor.rest.length + 1) "" {} s.cursor
  return ({ s with cursor := c }.allowKey broken).emit (.scalar text .plain)

/-- Read digits as a number, of which there may be at most nine. -/
def readNumber (c : Cursor) : Option (Nat × Cursor) :=
  let digits := c.rest.takeWhile Char.isDigit
  if digits.isEmpty || 9 < digits.length then none
  else some (digits.foldl (fun n d => n * 10 + (d.toNat - 48)) 0, c.skip digits.length)

/-- Read the handle and the text of a directive for tags. -/
def readTagDirective (c : Cursor) : Option (Token × Cursor) := do
  let c := c.skipWhile isSpaceOrTab
  if c.rest.head? != some '!' then none
  let (handle, c) := tagHandle c
  if handle != "!" && !handle.endsWith "!" then none
  if !c.rest.head?.any isSpaceOrTab then none
  let (text, c) ← tagText true (c.skipWhile isSpaceOrTab)
  if text.isEmpty || !startsBlank c.rest then none
  return (.tagPrefix handle text, c)

/-- Read a directive after its percent sign. -/
def readDirective (c : Cursor) : Option (Token × Cursor) :=
  let name := c.rest.takeWhile isWordChar
  let c := c.skip name.length
  if !startsBlank c.rest then none
  else match String.ofList name with
    | "YAML" => do
      let (major, c) ← readNumber (c.skipWhile isSpaceOrTab)
      if c.rest.head? != some '.' then none
      let (minor, c) ← readNumber (c.skip 1)
      return (.version major minor, c)
    | "TAG" => readTagDirective c
    | _ => none

/-- Scan a directive, which takes a line. -/
def directive (s : Scanner) : Option Scanner := do
  let s := (← (s.unroll (-1)).removeKey).allowKey false
  let (t, c) ← readDirective (s.cursor.skip 1)
  let c := c.skipWhile isSpaceOrTab
  let c := if c.rest.head? == some '#' then c.skipComment else c
  if !startsBreak c.rest then none
  return { s with cursor := c.skipBreak }.emit t

/-- Whether a plain scalar may start with these characters. -/
def startsPlain (inFlow : Bool) (c : Char) (r : List Char) : Bool :=
  let indicators := "-?:,[]\x7b\x7d#&*!|>'\"%@\x60".toList
  !(isSpaceOrTab c || isBreak c || indicators.contains c)
    || (c == '-' && !r.head?.any isSpaceOrTab)
    || (!inFlow && (c == '?' || c == ':') && !startsBlank r)

/-- Scan the token that starts with these characters. -/
def token (s : Scanner) (x : Char) (r : List Char) : Option Scanner :=
  let followed := s.inFlow || startsBlank r
  if s.cursor.column = 0 ∧ x = '%' then s.directive
  else if s.cursor.atDocumentMark then
    s.documentMark (if x = '-' then .documentStart else .documentEnd)
  else if x = '[' then s.flowStart .flowSequenceStart
  else if x = '\x7b' then s.flowStart .flowMappingStart
  else if x = ']' then s.flowEnd .flowSequenceEnd
  else if x = '\x7d' then s.flowEnd .flowMappingEnd
  else if x = ',' then s.flowEntry
  else if x = '-' ∧ startsBlank r then s.blockEntry
  else if x = '?' ∧ followed then s.keyIndicator
  else if x = ':' ∧ followed then s.valueIndicator
  else if x = '*' then s.reference .alias
  else if x = '&' then s.reference .anchor
  else if x = '!' then s.tag
  else if x = '|' ∧ !s.inFlow then s.blockScalar true
  else if x = '>' ∧ !s.inFlow then s.blockScalar false
  else if x = '\'' then s.quotedScalar false
  else if x = '"' then s.quotedScalar true
  else if startsPlain s.inFlow x r then s.plainScalar
  else none

/-- Scan all tokens; `fuel` bounds how many there are. -/
def scan : Nat → Scanner → Option (Array Token)
  | 0, _ => none
  | fuel + 1, s => do
    let s := s.skipSpace (s.cursor.rest.length + 1)
    let s ← s.dropStale
    let s := s.unroll s.cursor.column
    match s.cursor.rest with
    | [] =>
      let s ← (s.unroll (-1)).removeKey
      return s.tokens
    | x :: r => scan fuel (← s.token x r)

end Scanner

/-- The tokens of a text. A byte order mark at its start does not count. -/
def tokens (text : String) : Option (List Token) :=
  let cs := match text.toList with
    | '\uFEFF' :: r => r
    | r => r
  if cs.all isAllowed then
    (Scanner.scan (cs.length + 2) { cursor := { rest := cs } }).map Array.toList
  else none

end Tasklang.Yaml
