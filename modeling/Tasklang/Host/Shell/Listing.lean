/-! # Listings

How a shell lists what it holds, so that it can be read back: values stand in single quotes.
-/

namespace Tasklang.Shell.Listing

/-- A text in single quotes, with the single quotes in it in double ones. -/
def quotedFrom : Nat → List Char → List Char
  | 0, _ => []
  | n + 1, cs =>
    let plain := cs.takeWhile (· != '\'')
    let rest := cs.drop plain.length
    let quotes := rest.takeWhile (· == '\'')
    let after := rest.drop quotes.length
    '\'' :: plain ++ '\'' :: (if quotes.isEmpty then [] else '"' :: quotes ++ ['"'])
      ++ (if after.isEmpty then [] else quotedFrom n after)

/-- A text in quotes. -/
def quoted (text : String) : String :=
  String.ofList (quotedFrom (text.length + 1) text.toList)

/-- The place of a name among so many buckets. -/
def bucket (buckets : Nat) (name : String) : Nat :=
  let weights := name.toUTF8.toList.map UInt8.toNat
  (weights.headD 0 * 16 + weights.foldl (· + ·) 0) % buckets

/-- Entries in the order of the buckets of their names. -/
def inBuckets {α : Type} (buckets : Nat) (name : α → String) (entries : List α) : List α :=
  entries.mergeSort fun a b => bucket buckets (name a) ≤ bucket buckets (name b)

/-- Entries in the order of their names. -/
def byName {α : Type} (name : α → String) (entries : List α) : List α :=
  entries.mergeSort fun a b => decide (name a ≤ name b)

end Tasklang.Shell.Listing
