import Tasklang.Yaml.Token

/-! # YAML documents

A document is a tree of scalars, sequences and mappings, with the nodes that its aliases stand for.
An alias refers to a number: a new anchor has as its number how many names of anchors there were
before it, and of the anchors with one number the last that starts is meant.
-/

namespace Tasklang.Yaml

/-- A node of a document. -/
inductive Node where
  | scalar (tag : Option String) (text : String) (style : Style)
  | seq (tag : Option String) (items : List Node)
  | map (tag : Option String) (entries : List (Node × Node))
  | alias (anchor : Nat)
  deriving Inhabited, Repr

/-- The node of a value that is left out. -/
def Node.empty : Node := .scalar none "" .plain

mutual

/-- The number of marks in a node: one for each scalar and alias, two around each collection. -/
def Node.size : Node → Nat
  | .scalar .. | .alias _ => 1
  | .seq _ items => 2 + Node.sizeOfItems items
  | .map _ entries => 2 + Node.sizeOfEntries entries

/-- The number of marks in a list of nodes. -/
def Node.sizeOfItems : List Node → Nat
  | [] => 0
  | n :: ns => n.size + Node.sizeOfItems ns

/-- The number of marks in a list of entries. -/
def Node.sizeOfEntries : List (Node × Node) → Nat
  | [] => 0
  | (k, v) :: es => k.size + v.size + Node.sizeOfEntries es

end

/-- A document: its root, and the nodes that aliases refer to, by their numbers. -/
structure Document where
  root : Node
  anchored : List (Nat × Node)
  deriving Inhabited, Repr

namespace Parser

/-- The state of the parser. -/
structure State where
  tokens : List Token
  /-- The prefixes of tags by their handles. -/
  prefixes : List (String × String) := []
  /-- The numbers of the names of anchors. -/
  anchors : List (String × Nat) := []
  /-- The numbers of the anchors in the order in which their nodes start, the latest first. -/
  started : List Nat := []
  /-- The finished nodes with an anchor, by their places in the order of starting. -/
  finished : List (Nat × Node) := []

/-- The state after the next token. -/
def State.next (s : State) : State := { s with tokens := s.tokens.tail }

/-- Whether the next token is one of a list; the end of the tokens is not. -/
def State.at (s : State) (ts : List Token) : Bool := s.tokens.head?.any ts.contains

/-- The whole tag of a handle and a suffix. -/
def resolveTag (s : State) (handle suffix : String) : Option String :=
  if handle.isEmpty then some suffix
  else match s.prefixes.lookup handle with
    | some text => some (text ++ suffix)
    | none =>
      if handle = "!" then some ("!" ++ suffix)
      else if handle = "!!" then some ("tag:yaml.org,2002:" ++ suffix)
      else none

/-- The anchor and the tag in front of a node, in either order. -/
def properties (s : State) : Option ((Option String × Option String) × State) :=
  match s.tokens with
  | .anchor a :: .tag h x :: ts => do
    let t ← resolveTag s h x
    return ((some a, some t), { s with tokens := ts })
  | .tag h x :: .anchor a :: ts => do
    let t ← resolveTag s h x
    return ((some a, some t), { s with tokens := ts })
  | .anchor a :: ts => some ((some a, none), { s with tokens := ts })
  | .tag h x :: ts => do
    let t ← resolveTag s h x
    return ((none, some t), { s with tokens := ts })
  | _ => some ((none, none), s)

/-- Give an anchor to the node that starts here; its place in the order of starting. -/
def State.register (s : State) : Option String → Nat × State
  | none => (0, s)
  | some a =>
    let number := s.anchors.length
    let others := s.anchors.filter (·.1 != a)
    (s.started.length, { s with anchors := (a, number) :: others, started := number :: s.started })

/-- Keep a finished node that has an anchor. -/
def State.finish (s : State) (anchor : Option String) (place : Nat) (n : Node) : Node × State :=
  match anchor with
  | none => (n, s)
  | some _ => (n, { s with finished := (place, n) :: s.finished })

/-- The nodes that the numbers of anchors stand for. -/
def State.anchored (s : State) : List (Nat × Node) :=
  let places := (List.range s.started.length).reverse
  (s.started.zip places).filterMap fun (number, place) =>
    (s.finished.lookup place).map fun n => (number, n)

mutual

/-- A node. `block` allows block collections, and `indentless` a sequence that is not indented. -/
def node : Nat → Bool → Bool → State → Option (Node × State)
  | 0, _, _, _ => none
  | n + 1, block, indentless, s =>
    match s.tokens with
    | .alias name :: _ => (s.anchors.lookup name).map fun number => (.alias number, s.next)
    | _ => do
      let ((anchor, tag), s) ← properties s
      let (place, s) := s.register anchor
      let finish (p : Node × State) : Node × State := p.2.finish anchor place p.1
      match s.tokens with
      | .scalar text style :: _ => some (finish (.scalar tag text style, s.next))
      | .flowSequenceStart :: _ =>
        (flowItems n true s.next).map fun (items, s) => finish (.seq tag items, s)
      | .flowMappingStart :: _ =>
        (flowEntries n true s.next).map fun (es, s) => finish (.map tag es, s)
      | .blockEntry :: _ =>
        if indentless then
          (indentlessItems n s).map fun (items, s) => finish (.seq tag items, s)
        else emptyNode anchor tag (finish (.scalar tag "" .plain, s))
      | .blockSequenceStart :: _ =>
        if block then (blockItems n s.next).map fun (items, s) => finish (.seq tag items, s)
        else emptyNode anchor tag (finish (.scalar tag "" .plain, s))
      | .blockMappingStart :: _ =>
        if block then (blockEntries n s.next).map fun (es, s) => finish (.map tag es, s)
        else emptyNode anchor tag (finish (.scalar tag "" .plain, s))
      | _ => emptyNode anchor tag (finish (.scalar tag "" .plain, s))

/-- A node of which only an anchor or a tag is written. -/
def emptyNode (anchor tag : Option String) (p : Node × State) : Option (Node × State) :=
  if anchor.isSome || tag.isSome then some p else none

/-- A node, or the empty one before some tokens and at the end. -/
def nodeUnless (n : Nat) (block indentless : Bool) (ends : List Token) (s : State) : Option (Node × State) :=
  match n with
  | 0 => none
  | n + 1 =>
    if s.at ends then some (.empty, s) else node n block indentless s

/-- The items of a block sequence, up to the end of the block. -/
def blockItems : Nat → State → Option (List Node × State)
  | 0, _ => none
  | n + 1, s =>
    match s.tokens with
    | .blockEntry :: _ => do
      let (x, s) ← nodeUnless n true false [.blockEntry, .blockEnd] s.next
      let (xs, s) ← blockItems n s
      return (x :: xs, s)
    | .blockEnd :: _ => some ([], s.next)
    | _ => none

/-- The items of a sequence that is not indented. -/
def indentlessItems : Nat → State → Option (List Node × State)
  | 0, _ => none
  | n + 1, s =>
    match s.tokens with
    | .blockEntry :: _ => do
      let (x, s) ← nodeUnless n true false [.blockEntry, .key, .value, .blockEnd] s.next
      let (xs, s) ← indentlessItems n s
      return (x :: xs, s)
    | _ => some ([], s)

/-- The entries of a block mapping, up to the end of the block. -/
def blockEntries : Nat → State → Option (List (Node × Node) × State)
  | 0, _ => none
  | n + 1, s =>
    match s.tokens with
    | .key :: _ => do
      let (k, s) ← nodeUnless n true true [.key, .value, .blockEnd] s.next
      let (v, s) ← blockValue n s
      let (es, s) ← blockEntries n s
      return ((k, v) :: es, s)
    | .value :: _ => do
      let (v, s) ← blockValue n s
      let (es, s) ← blockEntries n s
      return ((.empty, v) :: es, s)
    | .blockEnd :: _ => some ([], s.next)
    | _ => none

/-- The value of an entry of a block mapping. -/
def blockValue : Nat → State → Option (Node × State)
  | 0, _ => none
  | n + 1, s =>
    match s.tokens with
    | .value :: _ => nodeUnless n true true [.key, .value, .blockEnd] s.next
    | _ => some (.empty, s)

/-- The items of a flow sequence, up to its end. -/
def flowItems : Nat → Bool → State → Option (List Node × State)
  | 0, _, _ => none
  | n + 1, start, s =>
    match s.tokens with
    | .flowSequenceEnd :: _ => some ([], s.next)
    | _ => do
      let s ← if start then some s
        else if s.at [.flowEntry] then some s.next
        else none
      match s.tokens with
      | .flowSequenceEnd :: _ => some ([], s.next)
      | .key :: _ =>
        let (k, s) ← flowPairKey n s.next
        let (v, s) ← flowPairValue n s
        let (xs, s) ← flowItems n false s
        return (.map none [(k, v)] :: xs, s)
      | _ =>
        let (x, s) ← node n false false s
        let (xs, s) ← flowItems n false s
        return (x :: xs, s)

/-- The key of an entry that stands alone in a flow sequence. An empty key takes the token after it
along. -/
def flowPairKey : Nat → State → Option (Node × State)
  | 0, _ => none
  | n + 1, s =>
    if s.at [.value, .flowEntry, .flowSequenceEnd] then some (.empty, s.next)
    else node n false false s

/-- The value of an entry that stands alone in a flow sequence. -/
def flowPairValue : Nat → State → Option (Node × State)
  | 0, _ => none
  | n + 1, s =>
    match s.tokens with
    | .value :: _ => nodeUnless n false false [.flowEntry, .flowSequenceEnd] s.next
    | _ => some (.empty, s)

/-- The entries of a flow mapping, up to its end. -/
def flowEntries : Nat → Bool → State → Option (List (Node × Node) × State)
  | 0, _, _ => none
  | n + 1, start, s =>
    match s.tokens with
    | .flowMappingEnd :: _ => some ([], s.next)
    | _ => do
      let s ← if start then some s
        else if s.at [.flowEntry] then some s.next
        else none
      match s.tokens with
      | .flowMappingEnd :: _ => some ([], s.next)
      | .key :: _ =>
        let (k, s) ← nodeUnless n false false [.value, .flowEntry, .flowMappingEnd] s.next
        let (v, s) ← flowValue n s
        let (es, s) ← flowEntries n false s
        return ((k, v) :: es, s)
      | _ =>
        let (k, s) ← node n false false s
        let (es, s) ← flowEntries n false s
        return ((k, .empty) :: es, s)

/-- The value of an entry of a flow mapping. -/
def flowValue : Nat → State → Option (Node × State)
  | 0, _ => none
  | n + 1, s =>
    match s.tokens with
    | .value :: _ => nodeUnless n false false [.flowEntry, .flowMappingEnd] s.next
    | _ => some (.empty, s)

end

/-- The directives in front of a document: at most one version, which has to be known, and one
prefix for each handle. -/
def directives (version : Bool) (s : State) : List Token → Option State
  | .version major minor :: ts =>
    if !version && major == 1 && (minor == 1 || minor == 2) then directives true s ts else none
  | .tagPrefix handle text :: ts =>
    if (s.prefixes.lookup handle).isSome then none
    else directives version { s with prefixes := (handle, text) :: s.prefixes } ts
  | ts => some { s with tokens := ts }

/-- The content of a document after its start. -/
def content (fuel : Nat) (s : State) : Option (Node × State) :=
  match s.tokens with
  | [] => some (.empty, s)
  | .documentStart :: _ | .documentEnd :: _ | .version .. :: _ | .tagPrefix .. :: _ =>
    some (.empty, s)
  | _ => node fuel true false s

/-- The document of a root, if nothing follows it. -/
def closed (n : Node) (s : State) : Option (Option Document) :=
  if s.tokens.all (· == .documentEnd) then some (some ⟨n, s.anchored⟩) else none

/-- The only document among tokens, if there is one. More than one is an error. -/
def document (tokens : List Token) : Option (Option Document) :=
  let fuel := 4 * tokens.length + 16
  match tokens with
  | [] => some none
  | .documentStart :: _ | .version .. :: _ | .tagPrefix .. :: _ => do
    let s ← directives false { tokens } tokens
    if !s.at [.documentStart] then none
    let (n, s) ← content fuel s.next
    closed n s
  | _ => do
    let (n, s) ← node fuel true false { tokens }
    closed n s

end Parser

/-- What a text holds: nothing or one document. -/
def parseDocument (text : String) : Option (Option Document) := do
  Parser.document (← tokens text)

end Tasklang.Yaml
