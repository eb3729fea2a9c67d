import Tasklang.Json.Basic
import Tasklang.Number.Binary64
import Tasklang.Yaml.Node

/-! # YAML values

What the nodes of a document stand for. A plain scalar is read by its form as null, a truth value, an
integer or a double, and as a text otherwise; a tag can ask for one of these kinds, and a tag of the
document's own stays with its value. Keys of one mapping are different values.
-/

namespace Tasklang.Yaml

/-- A value. -/
inductive Value where
  | null
  | bool (b : Bool)
  | int (n : Int)
  | float (x : Float)
  | str (s : String)
  | seq (items : List Value)
  | map (entries : List (Value × Value))
  | tagged (tag : String) (value : Value)
  deriving Inhabited, Repr

namespace Value

mutual

/-- Whether two values are the same as keys: doubles by their numbers, every NaN the same, and
mappings in any order. -/
def sameAs : Value → Value → Bool
  | .null, .null => true
  | .bool x, .bool y => x == y
  | .int x, .int y => x == y
  | .float x, .float y => x == y || (x != x && y != y)
  | .str x, .str y => x == y
  | .seq xs, .seq ys => sameItems xs ys
  | .map xs, .map ys => xs.length == ys.length && entriesIn xs ys
  | .tagged t x, .tagged u y => t == u && sameAs x y
  | _, _ => false

/-- Whether two sequences hold the same values. -/
def sameItems : List Value → List Value → Bool
  | [], [] => true
  | x :: xs, y :: ys => sameAs x y && sameItems xs ys
  | _, _ => false

/-- Whether all entries of one mapping are in another. -/
def entriesIn : List (Value × Value) → List (Value × Value) → Bool
  | [], _ => true
  | (k, v) :: es, ys => ys.any (fun (j, w) => sameAs k j && sameAs v w) && entriesIn es ys

end

/-- A value without its tags. -/
def untagged : Value → Value
  | .tagged _ v => v.untagged
  | v => v

/-- The text that a value is, whatever its tag. -/
def text? (v : Value) : Option String :=
  match v.untagged with
  | .str s => some s
  | _ => none

mutual

/-- A value as data of a task. Keys must be texts; a tag has no place in such data, and a double
that is not finite becomes null. -/
def toJson? : Value → Option Json
  | .null => some .null
  | .bool b => some (.bool b)
  | .int n => some (.int n)
  | .float x => some (if Number.isFinite x then .float x else .null)
  | .str s => some (.str s)
  | .seq items => (itemsToJson? items).map .arr
  | .map entries => (entriesToJson? entries).map fun es => .obj (Bindings.ofList es)
  | .tagged .. => none

/-- The items of a sequence as data. -/
def itemsToJson? : List Value → Option (List Json)
  | [] => some []
  | v :: vs => do
    let x ← v.toJson?
    let xs ← itemsToJson? vs
    return x :: xs

/-- The entries of a mapping as data. -/
def entriesToJson? : List (Value × Value) → Option (List (String × Json))
  | [] => some []
  | (k, v) :: es => do
    let name ← k.text?
    let x ← v.toJson?
    let xs ← entriesToJson? es
    return (name, x) :: xs

end

end Value

/-! ## Scalars -/

namespace Scalar

/-- Whether a plain scalar is null. -/
def isNull (text : String) : Bool := ["null", "Null", "NULL", "~"].contains text

/-- The truth value of a plain scalar. -/
def bool? (text : String) : Option Bool :=
  if ["true", "True", "TRUE"].contains text then some true
  else if ["false", "False", "FALSE"].contains text then some false
  else none

/-- The value of a digit. -/
def digit? (c : Char) : Option Nat :=
  if c.isDigit then some (c.toNat - 48)
  else if 'a' ≤ c ∧ c ≤ 'f' then some (c.toNat - 87)
  else if 'A' ≤ c ∧ c ≤ 'F' then some (c.toNat - 55)
  else none

/-- The number that digits of a base form, of which there is at least one. -/
def natural? (base : Nat) : List Char → Option Nat
  | [] => none
  | cs => cs.foldlM (fun n c => do
      let d ← digit? c
      if d < base then some (n * base + d) else none) 0

/-- Whether a text starts with a zero that more digits follow, after a sign at most. Such a text is
no number. -/
def hasLeadingZero (cs : List Char) : Bool :=
  match cs with
  | '-' :: '0' :: r | '+' :: '0' :: r | '0' :: r => !r.isEmpty && r.all Char.isDigit
  | _ => false

/-- The number of digits with an optional mark of their base. -/
def magnitude? (cs : List Char) : Option Nat :=
  match cs with
  | '0' :: 'x' :: r => natural? 16 r
  | '0' :: 'o' :: r => natural? 8 r
  | '0' :: 'b' :: r => natural? 2 r
  | cs => natural? 10 cs

/-- The integer that a text denotes, of any size. -/
def integer? (cs : List Char) : Option Int :=
  if hasLeadingZero cs then none
  else match cs with
    | '-' :: r => (magnitude? r).map fun n => -(n : Int)
    | '+' :: r => (magnitude? r).map fun n => (n : Int)
    | r => (magnitude? r).map fun n => (n : Int)

/-- The power of ten after the letter that marks it. -/
def exponent? (cs : List Char) : Option Int :=
  let value (ds : List Char) : Option Int :=
    if ds.isEmpty || !ds.all Char.isDigit then none
    else some (ds.foldl (fun n d => min (n * 10 + (d.toNat - 48)) 1000000) 0 : Nat)
  match cs with
  | '-' :: r => (value r).map (- ·)
  | '+' :: r => value r
  | r => value r

/-- The double that a decimal text without sign denotes: digits, of which some may stand behind a
point, and a power of ten. -/
def decimal? (cs : List Char) : Option Float := do
  let whole := cs.takeWhile Char.isDigit
  let rest := cs.dropWhile Char.isDigit
  let (fraction, rest) := match rest with
    | '.' :: r => (r.takeWhile Char.isDigit, r.dropWhile Char.isDigit)
    | r => ([], r)
  let digits ← natural? 10 (whole ++ fraction)
  let e ← match rest with
    | [] => some 0
    | c :: r => if c = 'e' ∨ c = 'E' then exponent? r else none
  return Number.ofDecimal digits (e - fraction.length)

/-- The double that a plain scalar denotes. A decimal text beyond all doubles denotes none. -/
def float? (cs : List Char) : Option Float :=
  let infinite : Float := 1.0 / 0.0
  let is (cs : List Char) (words : List String) : Bool := words.contains (String.ofList cs)
  let infinity := [".inf", ".Inf", ".INF"]
  let unsigned := match cs with
    | '+' :: r => r
    | r => r
  if is unsigned infinity then some infinite
  else if is cs [".nan", ".NaN", ".NAN"] then some (0.0 / 0.0)
  else
    let finite (x : Float) : Option Float := if Number.isFinite x then some x else none
    match cs with
    | '-' :: r => if is r infinity then some (-infinite) else (decimal? r).bind fun x => finite (-x)
    | _ => (decimal? unsigned).bind finite

/-- What a text that looks like an integer or a double denotes. The inner answer is missing for an
integer that fits a hundred and twenty-eight bits but no machine integer. -/
def integerValue? (cs : List Char) : Option (Option Value) :=
  match integer? cs with
  | none => none
  | some n =>
    if Json.leastInt ≤ n ∧ n ≤ Json.greatestNat then some (some (.int n))
    else if -(Nat.pow 2 127 : Int) ≤ n ∧ n < Nat.pow 2 128 then some none
    else none

/-- The value of a plain scalar without tag, if it has one. -/
def plainValue (text : String) : Option Value :=
  if text.isEmpty || isNull text then some .null
  else match bool? text with
    | some b => some (.bool b)
    | none =>
      let cs := text.toList
      match integerValue? cs with
      | some v => v
      | none =>
        if hasLeadingZero cs then some (.str text)
        else some ((float? cs).elim (.str text) .float)

/-- The value of a scalar that has no tag, or whose tag leaves its kind open. -/
def untaggedValue (text : String) : Style → Option Value
  | .plain => plainValue text
  | _ => some (.str text)

/-- A tag without one exclamation mark in front of it. -/
def unmarked (tag : String) : String :=
  match tag.toList with
  | '!' :: c :: r => String.ofList (c :: r)
  | _ => tag

/-- The name of a tag that a document defines for itself: it starts with an exclamation mark. -/
def ownTag? (tag : Option String) : Option String :=
  match tag with
  | some t => if t.startsWith "!" then some (unmarked (unmarked t)) else none
  | none => none

/-- The value of a scalar, if it has one. -/
def value? (tag : Option String) (text : String) (style : Style) : Option Value :=
  match tag with
  | none => untaggedValue text style
  | some t =>
    if t = "tag:yaml.org,2002:bool" then (bool? text).map .bool
    else if t = "tag:yaml.org,2002:int" then (integerValue? text.toList).join
    else if t = "tag:yaml.org,2002:float" then (float? text.toList).map .float
    else if t = "tag:yaml.org,2002:null" then if isNull text then some .null else none
    else match ownTag? tag with
      | some name => (untaggedValue text style).map (.tagged name)
      | none => some (.str text)

end Scalar

/-! ## Documents -/

/-- Reading values, with the number of times that aliases may still be followed. -/
abbrev Resolving := StateT Nat Option

namespace Document

/-- A node itself, or the one that an alias stands for. -/
def follow (d : Document) : Node → Resolving Node
  | .alias number => fun left =>
    match left, d.anchored.lookup number with
    | n + 1, some node => some (node, n)
    | _, _ => none
  | node => pure node

/-- A value with the tag of its collection, if the document defines it. -/
def withTag (tag : Option String) (v : Value) : Value :=
  match Scalar.ownTag? tag with
  | some name => .tagged name v
  | none => v

/-- Add an entry to a mapping that does not have its key yet. -/
def addEntry (entries : List (Value × Value)) (k v : Value) : Resolving (List (Value × Value)) :=
  if entries.any fun (j, _) => j.sameAs k then failure else return entries ++ [(k, v)]

/-- The value of a node whose collections are nested at most so deep. -/
def valueWithin (d : Document) : Nat → Node → Resolving Value
  | depth, node => do
    match ← d.follow node, depth with
    | .scalar tag text style, _ => (Scalar.value? tag text style : Option Value)
    | .seq tag items, n + 1 => return withTag tag (.seq (← items.mapM (valueWithin d n)))
    | .map tag entries, n + 1 =>
      let es ← entries.foldlM (fun es (k, v) => do
        addEntry es (← valueWithin d n k) (← valueWithin d n v)) []
      return withTag tag (.map es)
    | _, _ => failure

/-- How deep collections may be nested. -/
def maxDepth : Nat := 128

/-- How often aliases may be followed. -/
def maxJumps (d : Document) : Nat := 100 * d.root.size

/-- The value of a document. -/
def value? (d : Document) : Option Value :=
  (d.valueWithin maxDepth d.root).run' d.maxJumps

end Document

/-- The value of a text; an empty one is null. -/
def parse? (text : String) : Option Value := do
  match ← parseDocument text with
  | none => return .null
  | some d => d.value?

end Tasklang.Yaml
