import Tasklang.Proofs.Encoding
import Tasklang.Proofs.Grammar

/-! # Templates as bytes

A template can be parsed by positions in its bytes: the next marker and the closing brace are looked
for byte by byte, and what stands between two positions is sliced out of the text. As markers,
braces, quotes and backslashes are ASCII, all positions lie where a character begins, so that every
slice is a text, and the segments are those of parsing the characters.
-/

namespace Tasklang

namespace Bytes

/-! ## Positions in encoded text -/

/-- The byte of an ASCII character. -/
def byte (c : Char) : UInt8 := UInt8.ofNat c.toNat

theorem encoded_ascii {c : Char} (ascii : c.toNat < 0x80) : String.utf8EncodeChar c = [byte c] := by
  have small : c.val.toNat ≤ 0x7F := by
    show c.toNat ≤ 0x7F
    omega
  simp only [String.utf8EncodeChar, if_pos small]
  rfl

theorem byte_begins {c : Char} (ascii : c.toNat < 0x80) : isTail (byte c) = false := by
  simp only [isTail, byte, le_ofNat (show c.toNat < 256 by omega), UInt8.reduceToNat]
  simp [ascii]

/-- An encoded character begins with a byte that is the byte of an ASCII character only for that
character, and goes on with bytes that begin none. -/
theorem encoded_head (c : Char) : ∃ b tails, String.utf8EncodeChar c = b :: tails ∧
    isTail b = false ∧ (∀ d ∈ tails, isTail d = true) ∧
    ∀ a : Char, a.toNat < 0x80 → (b = byte a ↔ c = a) := by
  by_cases ascii : c.toNat < 0x80
  · refine ⟨byte c, [], encoded_ascii ascii, byte_begins ascii, nofun, fun a low => ?_⟩
    rw [byte, ofNat_eq (by omega), byte, toNat_ofNat (by omega), Char.toNat_inj]
  · -- The lead byte of several is above every ASCII byte and every byte that begins no character.
    have other (a : Char) (low : a.toNat < 0x80) : c ≠ a := fun same => ascii (same ▸ low)
    have lead {n : Nat} (low : 0xC0 ≤ n) (high : n < 256) : isTail (UInt8.ofNat n) = false ∧
        ∀ a : Char, a.toNat < 0x80 → (UInt8.ofNat n = byte a ↔ c = a) := by
      refine ⟨?_, fun a small => ?_⟩
      · simp only [isTail, ofNat_le high, UInt8.reduceToNat]
        simp
        omega
      · rw [byte, ofNat_eq high, toNat_ofNat (by omega)]
        exact ⟨fun same => by omega, fun same => absurd same (other a small)⟩
    have wide : ¬c.val.toNat ≤ 0x7F := fun small => ascii (Nat.lt_succ_of_le small)
    have bound : c.val.toNat < 0x110000 := by
      have valid : c.val.toNat < 0xD800 ∨ 0xDFFF < c.val.toNat ∧ c.val.toNat < 0x110000 := c.valid
      omega
    simp only [String.utf8EncodeChar, if_neg wide]
    by_cases two : c.val.toNat ≤ 0x7FF
    · rw [if_pos two]
      obtain ⟨begins, apart⟩ := @lead (c.val.toNat / 64 % 32 + 0xC0) (by omega) (by omega)
      refine ⟨_, _, rfl, begins, ?_, apart⟩
      simp only [List.forall_mem_cons, isTail_tail, true_and]
      nofun
    rw [if_neg two]
    by_cases three : c.val.toNat ≤ 0xFFFF
    · rw [if_pos three]
      obtain ⟨begins, apart⟩ := @lead (c.val.toNat / 4096 % 16 + 0xE0) (by omega) (by omega)
      refine ⟨_, _, rfl, begins, ?_, apart⟩
      simp only [List.forall_mem_cons, isTail_tail, true_and]
      nofun
    rw [if_neg three]
    obtain ⟨begins, apart⟩ := @lead (c.val.toNat / 262144 % 8 + 0xF0) (by omega) (by omega)
    refine ⟨_, _, rfl, begins, ?_, apart⟩
    simp only [List.forall_mem_cons, isTail_tail, true_and]
    nofun

/-- A prefix of ASCII bytes is a prefix of characters. -/
theorem prefix_of_ofChars {as cs : List Char} (ascii : ∀ a ∈ as, a.toNat < 0x80)
    (h : ofChars as <+: ofChars cs) : as <+: cs := by
  induction as generalizing cs with
  | nil => exact List.nil_prefix
  | cons a as ih =>
    have low := ascii a (.head _)
    rw [ofChars_cons, encoded_ascii low, List.singleton_append] at h
    cases cs with
    | nil => exact absurd (List.prefix_nil.1 h) nofun
    | cons c cs =>
      obtain ⟨b, tails, encoded, -, -, apart⟩ := encoded_head c
      rw [ofChars_cons, encoded, List.cons_append, List.cons_prefix_cons] at h
      obtain ⟨same, others⟩ := h
      obtain rfl := (apart a low).1 same.symm
      obtain ⟨rfl, rfl⟩ := List.cons.inj (encoded.symm.trans (encoded_ascii low))
      exact List.cons_prefix_cons.2 ⟨rfl, ih (fun d there => ascii d (.tail _ there)) others⟩

/-- Whether a character begins at a position of the bytes of a text, or the text ends there. -/
def isBoundary (bs : Bytes) (i : Nat) : Bool :=
  match bs[i]? with
  | some b => !isTail b
  | none => i == bs.length

/-- What stands between two positions of a text; nothing when they are out of order or out of range,
or when one of them is inside a character. -/
def slice? (bs : Bytes) (i j : Nat) : Option (List Char) :=
  if i ≤ j ∧ isBoundary bs i ∧ isBoundary bs j then
    (decode? ((bs.take j).drop i)).map String.toList
  else none

/-- How many bytes some characters take. -/
def size (cs : List Char) : Nat := (ofChars cs).length

@[simp] theorem size_append (cs ds : List Char) : size (cs ++ ds) = size cs + size ds := by
  simp [size]

theorem take_size (before after : List Char) :
    (ofChars (before ++ after)).take (size before) = ofChars before := by
  rw [ofChars_append, size, List.take_left]

theorem drop_size (before after : List Char) :
    (ofChars (before ++ after)).drop (size before) = ofChars after := by
  rw [ofChars_append, size, List.drop_left]

theorem isBoundary_append (before after : List Char) :
    isBoundary (ofChars (before ++ after)) (size before) = true := by
  have first : (ofChars (before ++ after))[size before]? = (ofChars after)[0]? := by
    rw [← drop_size before after, List.getElem?_drop, Nat.add_zero]
  rw [isBoundary, first]
  cases after with
  | nil => simp [size]
  | cons c after =>
    obtain ⟨b, tails, encoded, begins, -⟩ := encoded_head c
    simp only [ofChars_cons, encoded, List.cons_append, List.getElem?_cons_zero, begins,
      Bool.not_false]

/-- What stands between two positions where characters begin can be sliced. -/
theorem slice?_between {text before inside after : List Char} {i j : Nat}
    (is_ : text = before ++ (inside ++ after)) (low : i = size before)
    (high : j = size before + size inside) : slice? (ofChars text) i j = some inside := by
  subst is_ low
  have begins := isBoundary_append before (inside ++ after)
  have ends := isBoundary_append (before ++ inside) after
  have text : ofChars inside = ofString (String.ofList inside) := by
    rw [ofString, String.toList_ofList]
  rw [← size_append] at high
  subst high
  rw [List.append_assoc] at ends
  rw [slice?, if_pos ⟨by simp, begins, ends⟩, ← List.append_assoc, take_size, drop_size, text,
    decode?_ofString, Option.map_some, String.toList_ofList]

end Bytes

namespace Template

open Bytes

/-! ## Scans over bytes -/

/-- The position of the first marker among bytes that begin at a position, with its kind. -/
def findMarker : Nat → Bytes → Option (Nat × Marker)
  | i, 0x5C :: 0x24 :: 0x7B :: _ => some (i, .escaped)
  | i, 0x24 :: 0x7B :: _ => some (i, .active)
  | i, _ :: bs => findMarker (i + 1) bs
  | _, [] => none

/-- The position of the closing brace among bytes that begin at a position, `quote` being the quote
that is open, if any, and `depth` the number of open braces. -/
def findClosing : Option UInt8 → Nat → Nat → Bytes → Option Nat
  | _, _, _, [] => none
  | some q, depth, i, b :: bs =>
    if b = 0x5C then
      match bs with
      | [] => none
      | _ :: bs => findClosing (some q) depth (i + 2) bs
    else findClosing (if b = q then none else some q) depth (i + 1) bs
  | none, depth, i, b :: bs =>
    if b = 0x22 ∨ b = 0x27 then findClosing (some b) depth (i + 1) bs
    else if b = 0x7B then findClosing none (depth + 1) (i + 1) bs
    else if b = 0x7D then
      match depth with
      | 0 => some i
      | depth + 1 => findClosing none depth (i + 1) bs
    else findClosing none depth (i + 1) bs

section Scans

variable {i depth : Nat} {bs tails : Bytes}

theorem ofChars_marker (kind : Marker) : ofChars kind.chars =
    match kind with
    | .active => [0x24, 0x7B]
    | .escaped => [0x5C, 0x24, 0x7B] := by
  cases kind <;> decide

theorem marker_ascii (kind : Marker) : ∀ a ∈ kind.chars, a.toNat < 0x80 := by
  cases kind <;> simp [Marker.chars]

theorem findMarker_cons {b : UInt8} (here : ∀ kind : Marker, ¬ofChars kind.chars <+: b :: bs) :
    findMarker i (b :: bs) = findMarker (i + 1) bs := by
  simp only [ofChars_marker] at here
  rw [findMarker.eq_def]
  split
  · rename_i is_
    exact absurd ⟨_, is_.symm⟩ (here .escaped)
  · rename_i is_
    exact absurd ⟨_, is_.symm⟩ (here .active)
  · rename_i is_
    cases is_
    rfl
  · rename_i is_
    cases is_

theorem findMarker_tails (high : ∀ b ∈ tails, isTail b = true) :
    findMarker i (tails ++ bs) = findMarker (i + tails.length) bs := by
  induction tails generalizing i with
  | nil => rfl
  | cons b tails ih =>
    have continues := high b (.head _)
    rw [List.cons_append, findMarker_cons, ih fun d there => high d (.tail _ there),
      List.length_cons, Nat.add_assoc, Nat.add_comm 1]
    intro kind here
    rw [ofChars_marker] at here
    cases kind with
    | active | escaped =>
      rw [← (List.cons_prefix_cons.1 here).1] at continues
      cases continues

/-- The first marker among the bytes is the first one among the characters. -/
theorem findMarker_ofChars (cs : List Char) : findMarker i (ofChars cs) =
    (nextMarker cs).map fun (before, kind, _) => (i + size before, kind) := by
  induction cs generalizing i with
  | nil => rfl
  | cons c cs ih =>
    by_cases here : AtMarker (c :: cs)
    · obtain ⟨kind, after, is_⟩ := here
      rw [← is_, nextMarker_here, ofChars_append, ofChars_marker]
      cases kind <;> rfl
    · have clear : Clear [c] cs := clear_cons.2 ⟨here, clear_nil⟩
      obtain ⟨b, tails, encoded, -, high, -⟩ := encoded_head c
      have bytes : ofChars (c :: cs) = b :: (tails ++ ofChars cs) := by
        rw [ofChars_cons, encoded, List.cons_append]
      have apart (kind : Marker) : ¬ofChars kind.chars <+: b :: (tails ++ ofChars cs) := by
        rw [← bytes]
        exact fun there => here ⟨kind, prefix_of_ofChars (marker_ascii kind) there⟩
      have skips : nextMarker (c :: cs) = _ := nextMarker_clear clear
      rw [skips, bytes, findMarker_cons apart, findMarker_tails high, ih, Option.map_map]
      have grown (before : List Char) : size (c :: before) = 1 + tails.length + size before := by
        rw [size, ofChars_cons, encoded, size]
        simp
        omega
      congr 1
      funext found
      obtain ⟨before, kind, after⟩ := found
      simp only [Function.comp_apply, List.singleton_append, grown, Nat.add_assoc]

theorem findClosing_tails {quote : Option UInt8} (high : ∀ b ∈ tails, isTail b = true)
    (begins : ∀ q, quote = some q → isTail q = false) :
    findClosing quote depth i (tails ++ bs) = findClosing quote depth (i + tails.length) bs := by
  induction tails generalizing i with
  | nil => rfl
  | cons b tails ih =>
    have continues := high b (.head _)
    have apart {d : UInt8} (first : isTail d = false) : b ≠ d := fun same => by
      rw [same, first] at continues
      cases continues
    have skips : findClosing quote depth i (b :: (tails ++ bs)) =
        findClosing quote depth (i + 1) (tails ++ bs) := by
      rw [findClosing.eq_def]
      cases quote with
      | some q =>
        simp only [if_neg (apart (d := 0x5C) rfl), if_neg (apart (begins q rfl))]
      | none =>
        simp only [apart (d := 0x22) rfl, apart (d := 0x27) rfl, apart (d := 0x7B) rfl,
          apart (d := 0x7D) rfl, or_self, if_false]
    rw [List.cons_append, skips, ih fun d there => high d (.tail _ there), List.length_cons,
      Nat.add_assoc, Nat.add_comm 1]

/-- A scan that goes on after a character, which is what all its bytes come to. -/
theorem findClosing_next {quote next : Option UInt8} {depth' : Nat} {c : Char} {cs : List Char}
    {o : Option (List Char × List Char)} (begins : ∀ q, next = some q → isTail q = false)
    (step : ∀ b bs, (∀ a : Char, a.toNat < 0x80 → (b = byte a ↔ c = a)) →
      findClosing quote depth i (b :: bs) = findClosing next depth' (i + 1) bs)
    (later : ∀ {i}, findClosing next depth' i (ofChars cs) =
      o.map fun (inside, _) => i + size inside) :
    findClosing quote depth i (ofChars (c :: cs)) =
      (o.map fun (inside, rest) => (c :: inside, rest)).map fun (inside, _) => i + size inside := by
  obtain ⟨b, tails, encoded, -, high, apart⟩ := encoded_head c
  rw [ofChars_cons, encoded, List.cons_append, step b _ apart, findClosing_tails high begins, later,
    Option.map_map]
  congr 1
  funext halves
  obtain ⟨inside, rest⟩ := halves
  simp only [Function.comp_apply, size, ofChars_cons, encoded, List.length_append,
    List.length_cons]
  omega

/-- The closing brace among the bytes is the one among the characters. -/
theorem findClosing_ofChars {quote : Option Char} {cs : List Char}
    (ascii : ∀ q, quote = some q → q.toNat < 0x80) :
    findClosing (quote.map byte) depth i (ofChars cs) =
      (splitClosing quote depth cs).map fun (inside, _) => i + size inside := by
  have begins {quote : Option Char} (ascii : ∀ q, quote = some q → q.toNat < 0x80) :
      ∀ q, quote.map byte = some q → isTail q = false := by
    intro q is_
    obtain ⟨c, there, rfl⟩ := Option.map_eq_some_iff.1 is_
    exact byte_begins (ascii c there)
  fun_induction splitClosing quote depth cs generalizing i with
  | case1 => rfl
  | case2 => rfl
  | case3 q depth d cs ih =>
    -- Only the first byte after the backslash is skipped; the others of its character count for
    -- nothing anyway.
    obtain ⟨b, tails, encoded, -, high, -⟩ := encoded_head d
    have bytes : ofChars ('\\' :: d :: cs) = 0x5C :: b :: (tails ++ ofChars cs) := by
      rw [ofChars_cons, ofChars_cons, encoded]
      rfl
    have skips : findClosing (some (byte q)) depth i (0x5C :: b :: (tails ++ ofChars cs)) =
        findClosing (some (byte q)) depth (i + 2 + tails.length) (ofChars cs) := by
      rw [findClosing.eq_def]
      exact findClosing_tails high (begins ascii)
    have ih := @ih (i + 2 + tails.length) ascii
    rw [Option.map_some] at ih ⊢
    rw [bytes, skips, ih, Option.map_map]
    congr 1
    funext halves
    obtain ⟨inside, rest⟩ := halves
    simp only [Function.comp_apply, size, ofChars_cons, encoded,
      encoded_ascii (show ('\\' : Char).toNat < 0x80 by decide), List.length_append,
      List.length_cons, List.length_nil]
    omega
  | case4 q depth c cs plain ih =>
    have low := ascii q rfl
    have other : ∀ q', (if c = q then none else some q) = some q' → q'.toNat < 0x80 := by
      intro q' is_
      split at is_
      · cases is_
      · cases is_
        exact low
    refine findClosing_next (begins other) (fun b bs apart => ?_) (ih other)
    have plain' : b ≠ 0x5C := fun same => plain ((apart '\\' (by decide)).1 same)
    rw [findClosing.eq_def]
    simp only [Option.map_some, if_neg plain', apart q low]
    split <;> rfl
  | case5 depth c cs quotes ih =>
    have low : c.toNat < 0x80 := by rcases quotes with rfl | rfl <;> decide
    have own : ∀ q, some c = some q → q.toNat < 0x80 := fun q is_ => Option.some.inj is_ ▸ low
    refine findClosing_next (begins own) (fun b bs apart => ?_) (ih own)
    obtain rfl := (apart c low).2 rfl
    rcases quotes with rfl | rfl <;> rfl
  | case6 depth cs _ ih =>
    refine findClosing_next (fun q is_ => by cases is_) (fun b bs apart => ?_) (ih ascii)
    obtain rfl := (apart '\x7b' (by decide)).2 rfl
    rfl
  | case7 cs => rfl
  | case8 cs depth _ _ ih =>
    refine findClosing_next (fun q is_ => by cases is_) (fun b bs apart => ?_) (ih ascii)
    obtain rfl := (apart '\x7d' (by decide)).2 rfl
    rfl
  | case9 depth c cs plain opens closes ih =>
    refine findClosing_next (fun q is_ => by cases is_) (fun b bs apart => ?_) (ih ascii)
    have other (a : Char) (low : a.toNat < 0x80) (apart' : c ≠ a) : b ≠ byte a := fun same =>
      apart' ((apart a low).1 same)
    rw [not_or] at plain
    have double : b ≠ 0x22 := other '"' (by decide) plain.1
    have single : b ≠ 0x27 := other '\'' (by decide) plain.2
    have opens' : b ≠ 0x7B := other '\x7b' (by decide) opens
    have closes' : b ≠ 0x7D := other '\x7d' (by decide) closes
    rw [findClosing.eq_def]
    simp only [Option.map_none, double, single, opens', closes', or_self, if_false]

end Scans

/-! ## Parsing by positions -/

/-- A placeholder among the bytes of a text: where its marker is, and where it closes, if at all. -/
structure Placeholder where
  start : Nat
  kind : Marker
  close? : Option Nat

namespace Placeholder

/-- Where the marker of a placeholder ends. -/
def stop (p : Placeholder) : Nat := p.start + p.kind.chars.length

/-- Where parsing goes on after a placeholder. -/
def next (p : Placeholder) : Nat :=
  match p.close? with
  | some close => close + 1
  | none => p.stop

end Placeholder

/-- The first placeholder from a position on. -/
def findPlaceholder (bs : Bytes) (i : Nat) : Option Placeholder :=
  (findMarker i (bs.drop i)).map fun (start, kind) =>
    let stop := start + kind.chars.length
    ⟨start, kind, findClosing none 0 stop (bs.drop stop)⟩

section Progress

variable {i start close depth : Nat} {kind : Marker} {quote : Option UInt8} {bs : Bytes}

theorem findMarker_bounds (h : findMarker i bs = some (start, kind)) :
    i ≤ start ∧ start < i + bs.length := by
  fun_induction findMarker i bs with
  | case1 => cases h; simp
  | case2 => cases h; simp
  | case3 i b bs _ _ ih =>
    have := ih h
    simp
    omega
  | case4 => cases h

theorem findClosing_bounds (h : findClosing quote depth i bs = some close) : i ≤ close := by
  fun_induction findClosing quote depth i bs with
  | case1 | case2 => cases h
  | case7 => cases h; exact Nat.le_refl _
  | _ =>
    rename_i ih
    have := ih h
    omega

theorem findPlaceholder_advances {p : Placeholder} (h : findPlaceholder bs i = some p) :
    bs.length - p.next < bs.length - i := by
  obtain ⟨⟨start, kind⟩, found, rfl⟩ := Option.map_eq_some_iff.1 h
  obtain ⟨low, high⟩ := findMarker_bounds found
  rw [List.length_drop] at high
  show bs.length - (Placeholder.mk start kind (findClosing none 0 (start + kind.chars.length)
    (bs.drop (start + kind.chars.length)))).next < bs.length - i
  cases closing : findClosing none 0 (start + kind.chars.length)
      (bs.drop (start + kind.chars.length)) with
  | some close =>
    have := findClosing_bounds closing
    show bs.length - (close + 1) < bs.length - i
    omega
  | none =>
    have filled : 0 < kind.chars.length := by cases kind <;> simp [Marker.chars]
    show bs.length - (start + kind.chars.length) < bs.length - i
    omega

end Progress

/-- Parse a text from a placeholder on, the first one from a position on. What stands before that
position is the plain text `literal`, and what comes after the placeholder is parsed by `go`. Every
text is sliced out of the bytes; there is no result when a slice is none. -/
def parsePlaceholder (bs : Bytes) (literal : List Char) (i : Nat) (p : Placeholder)
    (go : List Char → Option (Except TemplateError (List Segment))) :
    Option (Except TemplateError (List Segment)) := do
  let before ← bs.slice? i p.start
  match p.close?, p.kind with
  | some close, .escaped =>
    let raw ← bs.slice? p.start (close + 1)
    let kept ← slice? (ofChars raw) 1 (size raw)
    go (literal ++ before ++ kept)
  | some close, .active =>
    let raw ← bs.slice? p.start (close + 1)
    let inside ← bs.slice? p.stop close
    match Text.trimChars inside with
    | [] => return .error (.emptyExpression (String.ofList raw))
    | source =>
      match ← go [] with
      | .ok segments =>
        return .ok (consText (literal ++ before) (.expr (String.ofList source) :: segments))
      | .error e => return .error e
  | none, .escaped =>
    let kept ← bs.slice? (p.start + 1) p.stop
    go (literal ++ before ++ kept)
  | none, .active =>
    let rest ← bs.slice? p.start bs.length
    return .error (.malformed (String.ofList rest))

/-- Parse a text from a position on. -/
def parseSlices (bs : Bytes) (literal : List Char) (i : Nat) :
    Option (Except TemplateError (List Segment)) :=
  match h : findPlaceholder bs i with
  | none => do
    let rest ← bs.slice? i bs.length
    return .ok (consText (literal ++ rest) [])
  | some p =>
    have := findPlaceholder_advances h
    parsePlaceholder bs literal i p fun literal => parseSlices bs literal p.next
termination_by bs.length - i

section Positions

variable {literal cs before after inside rest : List Char} {kind : Marker} (front : List Char)

theorem size_chars (kind : Marker) : size kind.chars = kind.chars.length := by
  cases kind <;> rfl

/-- A placeholder of a text is found among the bytes. -/
theorem findPlaceholder_at (found : nextMarker cs = some (before, kind, after))
    (is_ : cs = before ++ (kind.chars ++ after)) :
    findPlaceholder (ofChars (front ++ cs)) (size front) =
      some ⟨size (front ++ before), kind, (splitClosing none 0 after).map fun (inside, _) =>
        size (front ++ before ++ kind.chars) + size inside⟩ := by
  have stop : size front + size before + kind.chars.length =
      size (front ++ before ++ kind.chars) := by
    rw [size_append, size_append, size_chars]
  have later : (ofChars (front ++ cs)).drop (size (front ++ before ++ kind.chars)) =
      ofChars after := by
    rw [is_, ← drop_size (front ++ before ++ kind.chars) after]
    simp only [List.append_assoc]
  have closing (i : Nat) : findClosing none 0 i (ofChars after) = _ :=
    @findClosing_ofChars i 0 none after nofun
  rw [findPlaceholder, drop_size, findMarker_ofChars, found, Option.map_some, Option.map_some]
  simp only [stop, later, closing]
  rw [size_append front before]

theorem findPlaceholder_none (none_ : nextMarker cs = none) :
    findPlaceholder (ofChars (front ++ cs)) (size front) = none := by
  rw [findPlaceholder, drop_size, findMarker_ofChars, none_]
  rfl

theorem nextMarker_found (clear : Clear before (kind.chars ++ after)) :
    nextMarker (before ++ (kind.chars ++ after)) = some (before, kind, after) := by
  rw [nextMarker_clear clear, nextMarker_here, Option.map_some]
  simp only [List.append_nil]

theorem parseSlices_found {bs : Bytes} {i : Nat} {p : Placeholder}
    (found : findPlaceholder bs i = some p) : parseSlices bs literal i =
      parsePlaceholder bs literal i p fun literal => parseSlices bs literal p.next := by
  rw [parseSlices.eq_def]
  split
  · rename_i is_
    rw [found] at is_
    cases is_
  · rename_i is_
    rw [found] at is_
    cases is_
    rfl

theorem parseSlices_last {bs : Bytes} {i : Nat} (none_ : findPlaceholder bs i = none) :
    parseSlices bs literal i = do
      let rest ← bs.slice? i bs.length
      return .ok (consText (literal ++ rest) []) := by
  rw [parseSlices.eq_def]
  split
  · rfl
  · rename_i is_
    rw [none_] at is_
    cases is_

/-- A placeholder that closes is sliced out of its text, with what stands before it. -/
theorem parsePlaceholder_closed (closes : Closes after inside rest)
    (go : List Char → Option (Except TemplateError (List Segment))) :
    parsePlaceholder (ofChars (front ++ (before ++ (kind.chars ++ after)))) literal (size front)
      ⟨size (front ++ before), kind, some (size (front ++ before ++ kind.chars) + size inside)⟩ go =
      match kind with
      | .escaped => go (literal ++ before ++ (Piece.active inside).source)
      | .active => match Text.trimChars inside with
        | [] => some (.error (.emptyExpression (String.ofList (Piece.active inside).source)))
        | source => do
          match ← go [] with
          | .ok segments =>
            return .ok (consText (literal ++ before) (.expr (String.ofList source) :: segments))
          | .error e => return .error e := by
  have text : front ++ (before ++ (kind.chars ++ after)) =
      front ++ before ++ (kind.chars ++ (inside ++ ['\x7d']) ++ rest) := by
    rw [closes.split]
    simp
  have plain : slice? (ofChars (front ++ (before ++ (kind.chars ++ after)))) (size front)
      (size (front ++ before)) = some before := slice?_between rfl rfl (size_append front before)
  have raw : slice? (ofChars (front ++ (before ++ (kind.chars ++ after)))) (size (front ++ before))
      (size (front ++ before ++ kind.chars) + size inside + 1) =
      some (kind.chars ++ (inside ++ ['\x7d'])) := by
    refine slice?_between text rfl ?_
    simp only [size_append]
    rw [show size ['\x7d'] = 1 from rfl]
    omega
  cases kind with
  | escaped =>
    have kept : slice? (ofChars (Marker.escaped.chars ++ (inside ++ ['\x7d']))) 1
        (size (Marker.escaped.chars ++ (inside ++ ['\x7d']))) =
        some (Piece.active inside).source := by
      refine slice?_between (show _ = ['\\'] ++ (_ ++ []) from ?_) rfl ?_
      · rw [List.append_nil]
        rfl
      · rw [← size_append]
        rfl
    simp only [parsePlaceholder, plain, raw, kept, Option.bind_eq_bind, Option.bind_some]
  | active =>
    have text' : front ++ (before ++ (Marker.active.chars ++ after)) =
        front ++ before ++ Marker.active.chars ++ (inside ++ '\x7d' :: rest) := by
      rw [closes.split]
      simp
    have between : slice? (ofChars (front ++ (before ++ (Marker.active.chars ++ after))))
        (size (front ++ before) + Marker.active.chars.length)
        (size (front ++ before ++ Marker.active.chars) + size inside) = some inside :=
      slice?_between text' (by rw [size_append (front ++ before), size_chars]) rfl
    simp only [parsePlaceholder, plain, raw, Placeholder.stop, between, Option.bind_eq_bind,
      Option.bind_some]
    rfl

/-- A marker that is never closed is sliced out of its text, or all that follows it. -/
theorem parsePlaceholder_open (go : List Char → Option (Except TemplateError (List Segment))) :
    parsePlaceholder (ofChars (front ++ (before ++ (kind.chars ++ after)))) literal (size front)
      ⟨size (front ++ before), kind, none⟩ go =
      match kind with
      | .escaped => go (literal ++ before ++ Marker.active.chars)
      | .active => some (.error (.malformed (String.ofList (Marker.active.chars ++ after)))) := by
  have plain : slice? (ofChars (front ++ (before ++ (kind.chars ++ after)))) (size front)
      (size (front ++ before)) = some before := slice?_between rfl rfl (size_append front before)
  cases kind with
  | escaped =>
    have text : front ++ (before ++ (Marker.escaped.chars ++ after)) =
        front ++ before ++ ['\\'] ++ (Marker.active.chars ++ after) := by
      simp [Marker.chars]
    have kept : slice? (ofChars (front ++ (before ++ (Marker.escaped.chars ++ after))))
        (size (front ++ before) + 1) (size (front ++ before) + Marker.escaped.chars.length) =
        some Marker.active.chars :=
      slice?_between text (size_append (front ++ before) ['\\']).symm (by
        rw [size_append (front ++ before) ['\\'], Nat.add_assoc]
        rfl)
    simp only [parsePlaceholder, plain, Placeholder.stop, kept, Option.bind_eq_bind,
      Option.bind_some]
  | active =>
    have text : front ++ (before ++ (Marker.active.chars ++ after)) =
        front ++ before ++ (Marker.active.chars ++ after ++ []) := by
      simp
    have rest : slice? (ofChars (front ++ (before ++ (Marker.active.chars ++ after))))
        (size (front ++ before))
        (ofChars (front ++ (before ++ (Marker.active.chars ++ after)))).length =
        some (Marker.active.chars ++ after) := by
      refine slice?_between text rfl ?_
      rw [← size_append, List.append_assoc]
      rfl
    simp only [parsePlaceholder, plain, rest, Option.bind_eq_bind, Option.bind_some]
    rfl

/-- Parsing by positions comes to what parsing comes to. The induction is on the length of what is
left, and `front` is what has been parsed. -/
theorem parseSlices_at (front cs literal : List Char) :
    parseSlices (ofChars (front ++ cs)) literal (size front) = some (parseFrom literal cs) := by
  generalize length : cs.length = n
  induction n using Nat.strongRecOn generalizing front cs literal with
  | ind n ih =>
    rcases clear_or_marker cs with clear | ⟨before, kind, after, rfl, clear⟩
    · have none_ : nextMarker cs = none := by
        rw [← List.append_nil cs, nextMarker_clear clear]
        rfl
      have rest : slice? (ofChars (front ++ cs)) (size front) (ofChars (front ++ cs)).length =
          some cs :=
        slice?_between (by rw [List.append_nil]) rfl (size_append front cs)
      rw [parseSlices_last (findPlaceholder_none front none_), rest, parseFrom_none none_]
      rfl
    · have found := nextMarker_found clear
      have at_ := findPlaceholder_at front found rfl
      rw [parseSlices_found at_, parseFrom_some found]
      -- What is left gets shorter with each placeholder, whatever has been parsed by then.
      have later {front' cs' literal' : List Char} {next : Nat}
          (shorter : cs'.length ≤ after.length)
          (text : front ++ (before ++ (kind.chars ++ after)) = front' ++ cs')
          (is_ : next = size front') :
          parseSlices (ofChars (front ++ (before ++ (kind.chars ++ after)))) literal' next =
            some (parseFrom literal' cs') := by
        rw [text, is_]
        refine ih cs'.length ?_ front' cs' literal' rfl
        rw [← length]
        cases kind <;> simp [Marker.chars] <;> omega
      cases scan : splitClosing none 0 after with
      | none =>
        rw [Option.map_none, parsePlaceholder_open]
        cases kind with
        | escaped =>
          exact later (Nat.le_refl _)
            (show _ = front ++ before ++ Marker.escaped.chars ++ after by simp)
            (by rw [size_append (front ++ before), size_chars]; rfl)
        | active => rfl
      | some halves =>
        obtain ⟨inside, rest⟩ := halves
        have closes := splitClosing_eq_some.1 scan
        have next : size (front ++ before ++ kind.chars) + size inside + 1 =
            size (front ++ before ++ kind.chars ++ (inside ++ ['\x7d'])) := by
          simp only [size_append]
          rw [show size ['\x7d'] = 1 from rfl]
          omega
        have others (literal' : List Char) :
            parseSlices _ literal' _ = some (parseFrom literal' rest) :=
          later (by rw [closes.split]; simp; omega) (by rw [closes.split]; simp) next
        rw [Option.map_some, parsePlaceholder_closed front closes]
        cases kind with
        | escaped => exact others _
        | active =>
          simp only [parseMarker, Placeholder.next, others []]
          cases Text.trimChars inside with
          | nil => rfl
          | cons c source => cases parseFrom [] rest <;> rfl

end Positions

/-- Parsing accepts exactly the texts that the grammar reads to their end, with what their pieces
say. On all others it fails at the first active marker that offends. By positions it comes to the
same, and every slice that it takes of the bytes is a text. -/
theorem parse_grammar (text : String) :
    (∀ segments, parse text = .ok segments ↔ ∃ ps, Reads text.toList ps [] ∧ Says ps segments) ∧
    (∀ e, parse text = .error e ↔ ∃ ps rest, Reads text.toList ps rest ∧ Offends rest e) ∧
    parseSlices (ofString text) [] 0 = some (parse text) :=
  ⟨fun _ => parse_eq_ok, fun _ => parse_eq_error, parseSlices_at [] text.toList []⟩

end Template

end Tasklang
