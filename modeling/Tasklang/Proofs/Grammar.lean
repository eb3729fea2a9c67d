import Mathlib.Data.List.Chain
import Mathlib.Data.List.TakeWhile
import Tasklang.Template.Basic

/-! # The grammar of templates

A template is read from left to right as plain runs, escaped placeholders, escaped markers that are
never closed, and active placeholders. Parsing gives the segments that these pieces say, and it
fails at the first active marker that is not closed or has a blank inside.
-/

namespace Tasklang.Template

/-! ## Where a placeholder closes -/

/-- Where a scan for the end of a placeholder is: in a string, right after a backslash in it, and
within how many braces. -/
structure Place where
  quote : Option Char := none
  protects : Bool := false
  depth : Nat := 0

namespace Place

/-- Where a scan is after one more character. -/
def next (p : Place) (c : Char) : Place :=
  match p.quote with
  | some q =>
    if p.protects then { p with protects := false }
    else if c = '\\' then { p with protects := true }
    else if c = q then { p with quote := none }
    else p
  | none =>
    if c = '"' ∨ c = '\'' then { p with quote := some c }
    else if c = '\x7b' then { p with depth := p.depth + 1 }
    else if c = '\x7d' then { p with depth := p.depth - 1 }
    else p

/-- Where a scan is after some characters. -/
def after (p : Place) (cs : List Char) : Place := cs.foldl next p

@[simp] theorem after_nil (p : Place) : p.after [] = p := rfl

@[simp] theorem after_cons (p : Place) (c : Char) (cs : List Char) :
    p.after (c :: cs) = (p.next c).after cs := rfl

@[simp] theorem after_append (p : Place) (cs ds : List Char) :
    p.after (cs ++ ds) = (p.after cs).after ds := List.foldl_append

/-- Whether a string that is open began with a quote. -/
def Quotes (p : Place) : Prop := ∀ q ∈ p.quote, q = '"' ∨ q = '\''

theorem quotes_start : Quotes {} := nofun

theorem Quotes.next {p : Place} (h : p.Quotes) (c : Char) : (p.next c).Quotes := by
  obtain ⟨_ | q, protects, depth⟩ := p
  · by_cases quotes : c = '"' ∨ c = '\''
    · simp [Quotes, Place.next, quotes]
    · simp only [Place.next, if_neg quotes]
      split <;> [exact h; skip]
      split <;> exact h
  · simp only [Place.next]
    split <;> [exact h; skip]
    split <;> [exact h; skip]
    split <;> [exact nofun; exact h]

theorem Quotes.after {p : Place} (h : p.Quotes) (cs : List Char) : (p.after cs).Quotes := by
  induction cs generalizing p with
  | nil => exact h
  | cons c cs ih => exact ih (h.next c)

end Place

/-- Whether a text, scanned from a place on, has its first closing brace at depth zero outside of
strings after some characters of it. -/
structure ClosesFrom (p : Place) (cs inside rest : List Char) : Prop where
  split : cs = inside ++ '\x7d' :: rest
  outside : p.after inside = {}
  first : ∀ front back, inside = front ++ '\x7d' :: back → p.after front ≠ {}

/-- Whether what follows the marker of a placeholder closes it after its inside. -/
abbrev Closes (cs inside rest : List Char) : Prop := ClosesFrom {} cs inside rest

section Closing

variable {p : Place} {c : Char} {cs inside rest : List Char}

theorem not_closesFrom_nil : ¬ClosesFrom p [] inside rest := by
  intro h
  have := h.split
  simp at this

theorem closesFrom_here : ClosesFrom {} ('\x7d' :: cs) inside rest ↔ [] = inside ∧ cs = rest := by
  constructor
  · intro h
    cases inside with
    | nil => exact ⟨rfl, (List.cons.inj h.split).2⟩
    | cons c inside =>
      obtain ⟨rfl, -⟩ := List.cons.inj h.split
      exact absurd rfl (h.first [] inside rfl)
  · rintro ⟨rfl, rfl⟩
    exact ⟨rfl, rfl, fun front back is_ => by simp at is_⟩

/-- A character that does not close is inside. -/
theorem closesFrom_cons (open_ : ¬(p = {} ∧ c = '\x7d')) :
    ClosesFrom p (c :: cs) inside rest ↔
      ∃ inside', ClosesFrom (p.next c) cs inside' rest ∧ c :: inside' = inside := by
  constructor
  · intro h
    cases inside with
    | nil => exact absurd ⟨h.outside, (List.cons.inj h.split).1⟩ open_
    | cons d inside =>
      obtain ⟨rfl, split⟩ := List.cons.inj h.split
      refine ⟨inside, ⟨split, h.outside, fun front back is_ => ?_⟩, rfl⟩
      exact h.first (c :: front) back (by rw [is_]; rfl)
  · rintro ⟨inside, h, rfl⟩
    refine ⟨by rw [h.split]; rfl, h.outside, fun front back is_ ground => ?_⟩
    cases front with
    | nil => exact open_ ⟨ground, (List.cons.inj is_).1⟩
    | cons d front =>
      obtain ⟨rfl, same⟩ := List.cons.inj is_
      exact h.first front back same ground

/-- A scan that goes on after a character that does not close. -/
theorem scan_cons {o : Option (List Char × List Char)} (open_ : ¬(p = {} ∧ c = '\x7d'))
    (others : ∀ {inside rest}, o = some (inside, rest) ↔ ClosesFrom (p.next c) cs inside rest) :
    (o.map fun (i, r) => (c :: i, r)) = some (inside, rest) ↔
      ClosesFrom p (c :: cs) inside rest := by
  rw [closesFrom_cons open_]
  constructor
  · intro h
    obtain ⟨⟨i, r⟩, is_, same⟩ := Option.map_eq_some_iff.1 h
    cases same
    exact ⟨i, others.1 is_, rfl⟩
  · rintro ⟨inside, closes, rfl⟩
    rw [others.2 closes]
    rfl

theorem map_inside {o : Option (List Char × List Char)} {d : Char} :
    (o.map fun (i, r) => (c :: d :: i, r)) =
      ((o.map fun (i, r) => (d :: i, r)).map fun (i, r) => (c :: i, r)) := by
  cases o <;> rfl

/-- The scan for the closing brace finds the first one at depth zero outside of strings. -/
theorem splitClosing_eq_some {quote : Option Char} {depth : Nat} :
    splitClosing quote depth cs = some (inside, rest) ↔
      ClosesFrom ⟨quote, false, depth⟩ cs inside rest := by
  fun_induction splitClosing quote depth cs generalizing inside rest with
  | case1 => simp [not_closesFrom_nil]
  | case2 q depth => simp [closesFrom_cons, not_closesFrom_nil]
  | case3 q depth d cs ih =>
    -- The character after the backslash is read in the same step, whatever it is.
    rw [map_inside]
    exact scan_cons (by simp) (scan_cons (by simp [Place.next]) ih)
  | case4 q depth c cs plain ih =>
    have next : Place.next ⟨some q, false, depth⟩ c =
        ⟨if c = q then none else some q, false, depth⟩ := by
      simp only [Place.next, Bool.false_eq_true, if_false, if_neg plain]
      split <;> rfl
    exact scan_cons (by simp) (next ▸ ih)
  | case5 depth c cs quotes ih =>
    have next : Place.next ⟨none, false, depth⟩ c = ⟨some c, false, depth⟩ := by
      simp [Place.next, quotes]
    exact scan_cons (by rintro ⟨-, rfl⟩; simp at quotes) (next ▸ ih)
  | case6 depth cs _ ih => exact scan_cons (by simp) ih
  | case7 cs =>
    rw [closesFrom_here, Option.some.injEq, Prod.mk.injEq]
  | case8 cs depth _ _ ih =>
    have next : Place.next ⟨none, false, depth + 1⟩ '\x7d' = ⟨none, false, depth⟩ := rfl
    exact scan_cons (by simp) (next ▸ ih)
  | case9 depth c cs plain opens closes ih =>
    have next : Place.next ⟨none, false, depth⟩ c = ⟨none, false, depth⟩ := by
      simp only [Place.next, if_neg plain, if_neg opens, if_neg closes]
    exact scan_cons (by simp [closes]) (by rw [next]; exact ih)

theorem splitClosing_eq_none :
    splitClosing none 0 cs = none ↔ ∀ inside rest, ¬Closes cs inside rest := by
  constructor
  · intro h inside rest closes
    rw [splitClosing_eq_some.2 closes] at h
    cases h
  · intro never
    cases h : splitClosing none 0 cs with
    | none => rfl
    | some found => exact absurd (splitClosing_eq_some.1 h) (never found.1 found.2)

end Closing

/-! ## Pieces of a template -/

/-- How a marker is written. -/
def Marker.chars : Marker → List Char
  | .active => ['$', '\x7b']
  | .escaped => ['\\', '$', '\x7b']

/-- Whether a text begins with a marker. -/
def AtMarker (cs : List Char) : Prop := ∃ kind : Marker, kind.chars <+: cs

/-- Whether no marker begins in a run that is followed by other text. -/
def Clear (run rest : List Char) : Prop :=
  ∀ back, back <:+ run → back ≠ [] → ¬AtMarker (back ++ rest)

section Markers

variable {c : Char} {cs run rest after : List Char} {kind : Marker}

theorem clear_nil : Clear [] rest := fun _ suffix some_ => absurd (List.suffix_nil.1 suffix) some_

theorem clear_cons : Clear (c :: run) rest ↔ ¬AtMarker (c :: run ++ rest) ∧ Clear run rest := by
  constructor
  · intro h
    exact ⟨h _ List.suffix_rfl (by simp), fun back suffix =>
      h back (suffix.trans (List.suffix_cons c run))⟩
  · rintro ⟨here, later⟩ back suffix some_
    rcases List.suffix_cons_iff.1 suffix with rfl | suffix
    · exact here
    · exact later back suffix some_

/-- A text has no marker, or a first one. -/
theorem clear_or_marker (cs : List Char) : Clear cs [] ∨
    ∃ run kind after, cs = run ++ (Marker.chars kind ++ after) ∧
      Clear run (kind.chars ++ after) := by
  induction cs with
  | nil => exact .inl clear_nil
  | cons c cs ih =>
    by_cases here : AtMarker (c :: cs)
    · obtain ⟨kind, after, is_⟩ := here
      exact .inr ⟨[], kind, after, is_.symm, clear_nil⟩
    · rcases ih with clear | ⟨run, kind, after, rfl, clear⟩
      · exact .inl (clear_cons.2 ⟨by rwa [List.append_nil], clear⟩)
      · exact .inr ⟨c :: run, kind, after, rfl, clear_cons.2 ⟨here, clear⟩⟩

theorem nextMarker_here (kind : Marker) (after : List Char) :
    nextMarker (kind.chars ++ after) = some ([], kind, after) := by
  cases kind <;> rfl

/-- A run without markers stands before the first one. -/
theorem nextMarker_clear (clear : Clear run rest) :
    nextMarker (run ++ rest) = (nextMarker rest).map fun (before, kind, after) =>
      (run ++ before, kind, after) := by
  induction run with
  | nil => simp
  | cons c run ih =>
    obtain ⟨here, later⟩ := clear_cons.1 clear
    have skips : nextMarker (c :: (run ++ rest)) = (nextMarker (run ++ rest)).map
        fun (before, kind, after) => (c :: before, kind, after) := by
      rw [nextMarker.eq_def]
      split
      · rename_i is_
        exact absurd ⟨.escaped, _, is_.symm⟩ here
      · rename_i is_
        exact absurd ⟨.active, _, is_.symm⟩ here
      · rename_i is_
        cases is_
        rfl
      · rename_i is_
        cases is_
    rw [List.cons_append, skips, ih later]
    cases nextMarker rest <;> rfl

end Markers

/-- A piece of a template. -/
inductive Piece where
  /-- Text without markers. -/
  | plain (run : List Char)
  /-- A placeholder that a backslash makes text. -/
  | escaped (inside : List Char)
  /-- An escaped marker that is never closed. -/
  | lone
  /-- A placeholder that is evaluated. -/
  | active (inside : List Char)

/-- How a piece is written. -/
def Piece.source : Piece → List Char
  | .plain run => run
  | .escaped inside => Marker.escaped.chars ++ (inside ++ ['\x7d'])
  | .lone => Marker.escaped.chars
  | .active inside => Marker.active.chars ++ (inside ++ ['\x7d'])

/-- Whether some characters are blanks only. -/
def Blank (cs : List Char) : Prop := ∀ c ∈ cs, Text.isBlank c = true

/-- A text is read from left to right as pieces, up to a rest. A plain run is as long as can be. -/
inductive Reads : List Char → List Piece → List Char → Prop where
  | done {rest} : Reads rest [] rest
  | plain {run rest ps unread} : run ≠ [] → Clear run rest → rest = [] ∨ AtMarker rest →
    Reads rest ps unread → Reads (run ++ rest) (.plain run :: ps) unread
  | escaped {after inside rest ps unread} : Closes after inside rest → Reads rest ps unread →
    Reads (Marker.escaped.chars ++ after) (.escaped inside :: ps) unread
  | lone {after ps unread} : (∀ inside rest, ¬Closes after inside rest) → Reads after ps unread →
    Reads (Marker.escaped.chars ++ after) (.lone :: ps) unread
  | active {after inside rest ps unread} : Closes after inside rest → ¬Blank inside →
    Reads rest ps unread → Reads (Marker.active.chars ++ after) (.active inside :: ps) unread

/-- An active marker that offends: its placeholder is blank, or it is never closed. -/
inductive Offends : List Char → TemplateError → Prop where
  | blank {after inside rest} : Closes after inside rest → Blank inside →
    Offends (Marker.active.chars ++ after)
      (.emptyExpression (String.ofList (Piece.active inside).source))
  | open_ {after} : (∀ inside rest, ¬Closes after inside rest) →
    Offends (Marker.active.chars ++ after)
      (.malformed (String.ofList (Marker.active.chars ++ after)))

/-- The pieces of a text are the text. -/
theorem Reads.source {cs unread : List Char} {ps : List Piece} (h : Reads cs ps unread) :
    cs = ps.flatMap Piece.source ++ unread := by
  induction h with
  | done => rfl
  | plain _ _ _ _ ih => simp [ih, Piece.source]
  | escaped closes _ ih | active closes _ _ ih => simp [closes.split, ih, Piece.source]
  | lone _ _ ih => simp [ih, Piece.source]

/-- Every text is read to its end, or to an active marker that offends. The induction is on the
length of what is left. -/
theorem reads_total (cs : List Char) :
    ∃ ps rest, Reads cs ps rest ∧ (rest = [] ∨ ∃ e, Offends rest e) := by
  have marked (kind : Marker) (after : List Char) (later : ∀ cs : List Char,
      cs.length ≤ after.length → ∃ ps rest, Reads cs ps rest ∧ (rest = [] ∨ ∃ e, Offends rest e)) :
      ∃ ps rest, Reads (kind.chars ++ after) ps rest ∧ (rest = [] ∨ ∃ e, Offends rest e) := by
    by_cases closed : ∃ inside rest, Closes after inside rest
    · obtain ⟨inside, rest, closes⟩ := closed
      obtain ⟨ps, unread, reads, ends⟩ := later rest (by rw [closes.split]; simp; omega)
      cases kind with
      | escaped => exact ⟨_, unread, .escaped closes reads, ends⟩
      | active =>
        by_cases blank : Blank inside
        · exact ⟨[], _, .done, .inr ⟨_, .blank closes blank⟩⟩
        · exact ⟨_, unread, .active closes blank reads, ends⟩
    · have never : ∀ inside rest, ¬Closes after inside rest := fun inside rest closes =>
        closed ⟨inside, rest, closes⟩
      cases kind with
      | escaped =>
        obtain ⟨ps, unread, reads, ends⟩ := later after (Nat.le_refl _)
        exact ⟨_, unread, .lone never reads, ends⟩
      | active => exact ⟨[], _, .done, .inr ⟨_, .open_ never⟩⟩
  generalize size : cs.length = n
  induction n using Nat.strongRecOn generalizing cs with
  | ind n ih =>
    rcases clear_or_marker cs with clear | ⟨run, kind, after, rfl, clear⟩
    · by_cases empty : cs = []
      · exact ⟨[], cs, .done, .inl empty⟩
      · exact ⟨[.plain cs], [], by simpa using Reads.plain empty clear (.inl rfl) .done, .inl rfl⟩
    · have shorter : after.length < n := by
        rw [← size]
        cases kind <;> simp [Marker.chars] <;> omega
      obtain ⟨ps, unread, reads, ends⟩ := marked kind after fun cs le =>
        ih cs.length (Nat.lt_of_le_of_lt le shorter) cs rfl
      by_cases empty : run = []
      · subst empty
        exact ⟨ps, unread, reads, ends⟩
      · exact ⟨_, unread, .plain empty clear (.inr ⟨kind, after, rfl⟩) reads, ends⟩

/-! ## What pieces say -/

end Template

/-- What a text says at one place: a character, or an expression. -/
inductive Atom where
  | char (c : Char)
  | expr (source : String)

/-- What a segment says. -/
def Segment.atoms : Segment → List Atom
  | .text t => t.toList.map .char
  | .expr source => [.expr source]

/-- Whether segments are as few as they can be: none is empty, and no two texts are neighbours. -/
structure Segment.Normal (segments : List Segment) : Prop where
  full : ∀ s ∈ segments, s.atoms ≠ [] ∧ s ≠ .expr ""
  merged : segments.IsChain fun s s' => ∀ t t', s = .text t → s' ≠ .text t'

namespace Template

/-- What a piece says: text without the backslash, or an expression without the blanks around it. -/
def Piece.atoms : Piece → List Atom
  | .plain run => run.map .char
  | .escaped inside => (Piece.active inside).source.map .char
  | .lone => Marker.active.chars.map .char
  | .active inside => [.expr (String.ofList (Text.trimChars inside))]

/-- Whether segments say what pieces say, and are as few as they can be. -/
structure Says (ps : List Piece) (segments : List Segment) : Prop where
  content : segments.flatMap Segment.atoms = ps.flatMap Piece.atoms
  normal : Segment.Normal segments

end Template

namespace Segment.Normal

variable {segments segments' : List Segment}

theorem nil : Normal [] := ⟨nofun, .nil⟩

theorem tail {s : Segment} (h : Normal (s :: segments)) : Normal segments where
  full s' there := h.full s' (.tail _ there)
  merged := h.merged.of_cons

theorem cons_expr {source : String} (some_ : source ≠ "") (h : Normal segments) :
    Normal (.expr source :: segments) where
  full s there := by
    rcases List.mem_cons.1 there with rfl | there
    · exact ⟨nofun, fun is_ => some_ (Segment.expr.inj is_)⟩
    · exact h.full s there
  merged := by
    cases segments with
    | nil => exact .singleton _
    | cons s rest => exact .cons_cons nofun h.merged

theorem consText (cs : List Char) (h : Normal segments)
    (apart : ∀ t rest, segments ≠ .text t :: rest) : Normal (Template.consText cs segments) := by
  unfold Template.consText
  split
  · exact h
  · rename_i some_
    refine ⟨fun s there => ?_, ?_⟩
    · rcases List.mem_cons.1 there with rfl | there
      · refine ⟨fun empty => some_ ?_, nofun⟩
        simpa [atoms] using empty
      · exact h.full s there
    · cases segments with
      | nil => exact .singleton _
      | cons s rest =>
        exact .cons_cons (fun _ t _ is_ => apart t rest (by rw [is_])) h.merged

/-- Text at the start of what is said ends where the first expression is. -/
theorem text_unique {cs cs' : List Char} {as as' : List Atom}
    (ends : ∀ c rest, as ≠ .char c :: rest)
    (ends' : ∀ c rest, as' ≠ .char c :: rest) (same : cs.map .char ++ as = cs'.map .char ++ as') :
    cs = cs' ∧ as = as' := by
  induction cs generalizing cs' with
  | nil =>
    cases cs' with
    | nil => exact ⟨rfl, same⟩
    | cons c cs' => exact absurd same (ends c _)
  | cons c cs ih =>
    cases cs' with
    | nil => exact absurd same.symm (ends' c _)
    | cons c' cs' =>
      obtain ⟨first, others⟩ := List.cons.inj same
      obtain ⟨rfl, rfl⟩ := ih others
      cases first
      exact ⟨rfl, rfl⟩

/-- What follows a text begins with an expression. -/
theorem after_text {t : String} (h : Normal (.text t :: segments)) (c : Char) (rest : List Atom) :
    segments.flatMap atoms ≠ .char c :: rest := by
  cases segments with
  | nil => nofun
  | cons s segments =>
    cases s with
    | text u => exact absurd rfl ((List.isChain_cons_cons.1 h.merged).1 t u rfl)
    | expr source => exact fun same => by cases (List.cons.inj same).1

/-- A text does not begin as an expression does. -/
theorem text_ne_expr {t source : String} {as as' : List Atom} (h : Normal (.text t :: segments)) :
    atoms (.text t) ++ as ≠ atoms (.expr source) ++ as' := by
  have some_ : t.toList.map Atom.char ≠ [] := (h.full _ (.head _)).1
  cases chars : t.toList with
  | nil => exact absurd (by rw [chars]; rfl) some_
  | cons c cs =>
    intro same
    rw [atoms, chars] at same
    cases (List.cons.inj same).1

/-- Segments that are as few as they can be are determined by what they say. -/
theorem unique (h : Normal segments) (h' : Normal segments')
    (same : segments.flatMap atoms = segments'.flatMap atoms) : segments = segments' := by
  induction segments generalizing segments' with
  | nil =>
    cases segments' with
    | nil => rfl
    | cons s' segments' =>
      exact absurd (List.append_eq_nil_iff.1 same.symm).1 (h'.full s' (.head _)).1
  | cons s segments ih =>
    cases segments' with
    | nil => exact absurd (List.append_eq_nil_iff.1 same).1 (h.full s (.head _)).1
    | cons s' segments' =>
      rw [List.flatMap_cons, List.flatMap_cons] at same
      cases s with
      | text t =>
        cases s' with
        | text t' =>
          -- An expression follows both texts, or nothing, so that neither is longer.
          obtain ⟨chars, others⟩ := text_unique h.after_text h'.after_text same
          rw [String.toList_injective chars, ih h.tail h'.tail others]
        | expr source' => exact absurd same h.text_ne_expr
      | expr source =>
        cases s' with
        | text t' => exact absurd same.symm h'.text_ne_expr
        | expr source' =>
          obtain ⟨first, others⟩ := List.cons.inj same
          cases first
          rw [ih h.tail h'.tail others]

end Segment.Normal

namespace Template

theorem atoms_consText (cs : List Char) (segments : List Segment) :
    (consText cs segments).flatMap Segment.atoms =
      cs.map .char ++ segments.flatMap Segment.atoms := by
  unfold consText
  split
  · rename_i empty
    rw [List.isEmpty_iff.1 empty]
    rfl
  · rw [List.flatMap_cons, Segment.atoms, String.toList_ofList]

/-! ## Parsing reads pieces -/

theorem trimChars_eq_nil {cs : List Char} : Text.trimChars cs = [] ↔ Blank cs := by
  rw [Text.trimChars, Text.trimEnd, List.reverse_eq_nil_iff, List.dropWhile_eq_nil_iff]
  simp only [List.mem_reverse, Text.trimStart]
  constructor
  · intro blank
    have nothing : cs.dropWhile Text.isBlank = [] := by
      cases left : cs.dropWhile Text.isBlank with
      | nil => rfl
      | cons c rest =>
        have visible : ¬Text.isBlank c = true := by
          have := List.head_dropWhile_not Text.isBlank (l := cs) (by rw [left]; nofun)
          simpa [left] using this
        exact absurd (blank c (left ▸ .head _)) visible
    exact List.dropWhile_eq_nil_iff.1 nothing
  · intro blank c there
    exact blank c ((List.dropWhile_suffix _).subset there)

/-- How parsing goes on from a marker: by its kind, and by where the placeholder closes. -/
def parseMarker (literal after : List Char) : Marker → Option (List Char × List Char) →
    Except TemplateError (List Segment)
  | .escaped, some (inside, rest) => parseFrom (literal ++ (Piece.active inside).source) rest
  | .escaped, none => parseFrom (literal ++ Marker.active.chars) after
  | .active, some (inside, rest) =>
    match Text.trimChars inside with
    | [] => .error (.emptyExpression (String.ofList (Piece.active inside).source))
    | source => match parseFrom [] rest with
      | .ok segments => .ok (consText literal (.expr (String.ofList source) :: segments))
      | .error e => .error e
  | .active, none => .error (.malformed (String.ofList (Marker.active.chars ++ after)))

section Parsing

variable {literal cs before after inside rest run : List Char} {kind : Marker}

theorem parseFrom_none (found : nextMarker cs = none) :
    parseFrom literal cs = .ok (consText (literal ++ cs) []) := by
  rw [parseFrom.eq_def]
  split
  · rfl
  · rename_i is_
    rw [found] at is_
    cases is_

theorem parseFrom_some (found : nextMarker cs = some (before, kind, after)) :
    parseFrom literal cs =
      parseMarker (literal ++ before) after kind (splitClosing none 0 after) := by
  rw [parseFrom.eq_def]
  split
  · rename_i is_
    rw [found] at is_
    cases is_
  · rename_i is_
    rw [found] at is_
    cases is_
    split
    all_goals
      rename_i scan
      refine Eq.trans ?_ (congrArg (parseMarker _ after _) scan.symm)
    · simp [parseMarker, Piece.source, Marker.chars]
    all_goals rfl

/-- A plain run adds to the text that is already known. -/
theorem parseFrom_clear (clear : Clear run rest) (ends : rest = [] ∨ AtMarker rest) :
    parseFrom literal (run ++ rest) = parseFrom (literal ++ run) rest := by
  have ahead := nextMarker_clear clear
  rcases ends with rfl | ⟨kind, after, rfl⟩
  · rw [parseFrom_none ahead, parseFrom_none (show nextMarker [] = none from rfl)]
    simp
  · rw [nextMarker_here, Option.map_some] at ahead
    rw [parseFrom_some ahead, parseFrom_some (nextMarker_here kind after)]
    simp

/-- What is read is parsed: to the segments that the pieces say, if nothing is left, and to the
error of an active marker that offends. The induction is on the pieces; `literal` is text already
known. -/
theorem parseFrom_reads {ps : List Piece} (h : Reads cs ps rest) (literal : List Char) :
    (rest = [] → ∃ segments, parseFrom literal cs = .ok segments ∧
      segments.flatMap Segment.atoms = literal.map .char ++ ps.flatMap Piece.atoms ∧
      Segment.Normal segments) ∧
    ∀ e, Offends rest e → parseFrom literal cs = .error e := by
  induction h generalizing literal with
  | @done rest =>
    constructor
    · rintro rfl
      refine ⟨_, parseFrom_none rfl, ?_, .consText _ .nil nofun⟩
      rw [atoms_consText, List.append_nil]
      rfl
    · intro e offends
      cases offends with
      | blank closes blank =>
        rw [parseFrom_some (nextMarker_here .active _), splitClosing_eq_some.2 closes,
          parseMarker, trimChars_eq_nil.2 blank]
      | open_ never =>
        rw [parseFrom_some (nextMarker_here .active _), splitClosing_eq_none.2 never,
          parseMarker]
  | plain some_ clear ends _ ih =>
    rw [parseFrom_clear clear ends]
    simpa [Piece.atoms] using ih (literal ++ _)
  | escaped closes _ ih =>
    rw [parseFrom_some (nextMarker_here .escaped _), splitClosing_eq_some.2 closes,
      parseMarker, List.append_nil]
    simpa [Piece.atoms] using ih (literal ++ _)
  | lone never _ ih =>
    rw [parseFrom_some (nextMarker_here .escaped _), splitClosing_eq_none.2 never,
      parseMarker, List.append_nil]
    simpa [Piece.atoms] using ih (literal ++ _)
  | @active after inside rest ps unread closes visible _ ih =>
    obtain ⟨done, fails⟩ := ih []
    have some_ : Text.trimChars inside ≠ [] := fun empty => visible (trimChars_eq_nil.1 empty)
    obtain ⟨c, source, trimmed⟩ := List.exists_cons_of_ne_nil some_
    rw [parseFrom_some (nextMarker_here .active _), splitClosing_eq_some.2 closes,
      parseMarker, List.append_nil, trimmed]
    constructor
    · intro is_
      obtain ⟨segments, parsed, content, normal⟩ := done is_
      have filled : String.ofList (c :: source) ≠ "" := fun is_ => by
        cases (String.toList_ofList (l := c :: source)).symm.trans (congrArg String.toList is_)
      simp only [parsed]
      refine ⟨_, rfl, ?_, .consText _ (.cons_expr filled normal) nofun⟩
      rw [atoms_consText, List.flatMap_cons, List.flatMap_cons, content, Piece.atoms, trimmed]
      rfl
    · intro e offends
      simp only [fails e offends]

end Parsing

section Grammar

variable {text : String}

/-- Parsing succeeds exactly on the texts that are read to their end, with what the pieces say. -/
theorem parse_eq_ok {segments : List Segment} : parse text = .ok segments ↔
    ∃ ps, Reads text.toList ps [] ∧ Says ps segments := by
  constructor
  · intro parsed
    obtain ⟨ps, rest, reads, ends⟩ := reads_total text.toList
    obtain ⟨done, fails⟩ := parseFrom_reads reads []
    rcases ends with rfl | ⟨e, offends⟩
    · obtain ⟨segments', parsed', content, normal⟩ := done rfl
      cases parsed.symm.trans parsed'
      exact ⟨ps, reads, content, normal⟩
    · cases parsed.symm.trans (fails e offends)
  · rintro ⟨ps, reads, content, normal⟩
    obtain ⟨segments', parsed', content', normal'⟩ := (parseFrom_reads reads []).1 rfl
    rw [normal.unique normal' (content.trans content'.symm)]
    exact parsed'

/-- Parsing fails exactly at the first active marker that offends. -/
theorem parse_eq_error {e : TemplateError} : parse text = .error e ↔
    ∃ ps rest, Reads text.toList ps rest ∧ Offends rest e := by
  constructor
  · intro failed
    obtain ⟨ps, rest, reads, ends⟩ := reads_total text.toList
    obtain ⟨done, fails⟩ := parseFrom_reads reads []
    rcases ends with rfl | ⟨e', offends⟩
    · obtain ⟨segments, parsed, -⟩ := done rfl
      cases failed.symm.trans parsed
    · cases failed.symm.trans (fails e' offends)
      exact ⟨ps, rest, reads, offends⟩
  · rintro ⟨ps, rest, reads, offends⟩
    exact (parseFrom_reads reads []).2 e offends

end Grammar

end Template

end Tasklang
