import Mathlib.Data.List.DropRight
import Tasklang.Proofs.Embedding

/-! # Writing segments again

Segments whose texts have no marker are a template when they are written one after another, each
expression in a placeholder of its own. Parsing it gives the same segments: an expression that was
taken out of a placeholder has its braces balanced outside of strings, also without the blanks
around it, and a text before a placeholder does not end with a backslash.
-/

namespace Tasklang

/-- How a segment is written in a template. -/
def Segment.written : Segment → List Char
  | .text t => t.toList
  | .expr source => (Template.Piece.active source.toList).source

namespace Template

/-- Segments written one after another. -/
def emit (segments : List Segment) : String := String.ofList (segments.flatMap Segment.written)

/-! ## Expressions without their blanks -/

section Blanks

variable {p : Place} {c : Char} {cs blanks inside rest : List Char}

/-- Outside of strings a blank changes nothing. -/
theorem next_blank (outside : p.quote = none) (blank : Text.isBlank c = true) : p.next c = p := by
  obtain ⟨quote, protects, depth⟩ := p
  cases outside
  have other (d : Char) (visible : Text.isBlank d = false) : c ≠ d := by
    rintro rfl
    rw [blank] at visible
    cases visible
  have quotes : ¬(c = '"' ∨ c = '\'') := not_or.2 ⟨other _ rfl, other _ rfl⟩
  simp only [Place.next, if_neg quotes, if_neg (other '\x7b' rfl), if_neg (other '\x7d' rfl)]

theorem after_blanks (outside : p.quote = none) (blank : Blank blanks) : p.after blanks = p := by
  induction blanks with
  | nil => rfl
  | cons c blanks ih =>
    obtain ⟨first, others⟩ := List.forall_mem_cons.1 blank
    rw [Place.after_cons, next_blank outside first, ih others]

/-- Blanks do not end a string. -/
theorem before_blanks (quotes : p.Quotes) (blank : Blank blanks)
    (outside : (p.after blanks).quote = none) : p.quote = none := by
  induction blanks generalizing p with
  | nil => exact outside
  | cons c blanks ih =>
    obtain ⟨first, others⟩ := List.forall_mem_cons.1 blank
    have later := ih (quotes.next c) others outside
    obtain ⟨_ | q, protects, depth⟩ := p
    · rfl
    · have other : c ≠ q := by
        rintro rfl
        rcases quotes c rfl with rfl | rfl <;> cases first
      simp only [Place.next, if_neg other] at later
      split at later <;> [cases later; skip]
      split at later <;> cases later

/-- Blanks stand on both sides of what is left of a text. -/
theorem trimChars_split (cs : List Char) : ∃ front back, Blank front ∧ Blank back ∧
    cs = front ++ (Text.trimChars cs ++ back) := by
  refine ⟨cs.takeWhile Text.isBlank, (Text.trimStart cs).rtakeWhile Text.isBlank,
    fun c => List.mem_takeWhile_imp, fun c => List.mem_rtakeWhile_imp, ?_⟩
  calc cs
    _ = cs.takeWhile Text.isBlank ++ Text.trimStart cs := List.takeWhile_append_dropWhile.symm
    _ = _ := congrArg _ List.rdropWhile_append_rtakeWhile.symm

/-- Blanks are left at neither end. -/
theorem trimChars_trimChars (cs : List Char) :
    Text.trimChars (Text.trimChars cs) = Text.trimChars cs := by
  have front : Text.trimStart (Text.trimChars cs) = Text.trimChars cs := by
    have part : Text.trimChars cs <+: Text.trimStart cs := List.rdropWhile_prefix Text.isBlank _
    refine List.dropWhile_eq_self_iff.2 fun some_ => ?_
    rw [part.getElem some_]
    exact List.dropWhile_get_zero_not Text.isBlank cs _
  rw [Text.trimChars, front]
  exact List.rdropWhile_idempotent Text.isBlank (Text.trimStart cs)

/-- An expression closes its placeholder where it did, without the blanks around it too. -/
theorem closes_trimChars (h : Closes cs inside rest) (more : List Char) :
    Closes (Text.trimChars inside ++ '\x7d' :: more) (Text.trimChars inside) more := by
  obtain ⟨front, back, before, behind, split⟩ := trimChars_split inside
  have from_ (cs : List Char) : Place.after {} (front ++ cs) = Place.after {} cs := by
    rw [Place.after_append, after_blanks rfl before]
  have ends : (Place.after {} (Text.trimChars inside)).after back = {} := by
    rw [← Place.after_append, ← from_, ← split]
    exact h.outside
  refine ⟨rfl, ?_, fun first later is_ => ?_⟩
  · have outside := before_blanks (Place.quotes_start.after _) behind (by rw [ends])
    rwa [after_blanks outside behind] at ends
  · rw [← from_]
    refine h.first (front ++ first) (later ++ back) ?_
    rw [split, is_]
    simp

end Blanks

/-! ## Segments without markers -/

section Emit

variable {segments : List Segment} {run cs rest unread : List Char} {ps : List Piece}

/-- Text that segments say first is in the first of them. -/
theorem text_of_content {as : List Atom} (normal : Segment.Normal segments) (some_ : cs ≠ [])
    (content : segments.flatMap Segment.atoms = cs.map .char ++ as) :
    ∃ t others, segments = .text t :: others ∧ cs <+: t.toList := by
  obtain ⟨c, cs, rfl⟩ := List.exists_cons_of_ne_nil some_
  match segments, content with
  | .expr source :: others, content => cases (List.cons.inj content).1
  | .text t :: others, content =>
    refine ⟨t, others, rfl, ?_⟩
    rcases List.append_eq_append_iff.1 content with ⟨more, whole, rest⟩ | ⟨more, whole, -⟩
    · -- What the text would leave of the characters comes after it, where no text follows.
      cases more with
      | nil =>
        rw [List.append_nil] at whole
        exact (List.map_injective_iff.2 (fun _ _ => Atom.char.inj) whole) ▸ List.prefix_rfl
      | cons a more =>
        have said : a ∈ (c :: cs).map Atom.char := whole ▸ by simp
        obtain ⟨d, -, rfl⟩ := List.mem_map.1 said
        exact absurd rest (normal.after_text d _)
    · obtain ⟨front, back, split, same, -⟩ := List.map_eq_append_iff.1 whole
      exact ⟨back, split ▸ congrArg (· ++ back)
        (List.map_injective_iff.2 (fun _ _ => Atom.char.inj) same).symm⟩

/-- Segments whose texts have no marker do not say one. -/
theorem content_ne_marker (normal : Segment.Normal segments)
    (plain : ∀ t, .text t ∈ segments → ¬Marker.active.chars <:+: t.toList) (run : List Char)
    (as : List Atom) :
    segments.flatMap Segment.atoms ≠ (run ++ Marker.active.chars).map .char ++ as := by
  intro same
  obtain ⟨t, others, rfl, first⟩ := text_of_content normal (by simp [Marker.chars]) same
  exact plain t (.head _) ((List.suffix_append run _).isInfix.trans first.isInfix)

/-- A plain run is followed by nothing or by an expression, when no marker is said. -/
theorem reads_after_plain (h : Reads rest ps []) (ends : rest = [] ∨ AtMarker rest)
    (unmarked : ∀ as, ps.flatMap Piece.atoms ≠ Marker.active.chars.map .char ++ as) :
    ps = [] ∨ ∃ inside others after, ps = .active inside :: others ∧
      rest = Marker.active.chars ++ after := by
  cases h with
  | done => exact .inl rfl
  | plain some_ clear =>
    rcases ends with empty | here
    · exact absurd (List.append_eq_nil_iff.1 empty).1 some_
    · exact absurd here (clear _ List.suffix_rfl some_)
  | escaped | lone => exact absurd (by simp [Piece.atoms, Piece.source]; rfl) (unmarked _)
  | active => exact .inr ⟨_, _, _, rfl, rfl⟩

/-- Between a text without markers and what follows it no marker begins either. -/
theorem clear_emit {t : String} (normal : Segment.Normal (.text t :: segments))
    (plain : ¬Marker.active.chars <:+: t.toList)
    (bare : segments ≠ [] → t.toList.getLast? ≠ some '\\') :
    Clear t.toList (segments.flatMap Segment.written) ∧
      (segments.flatMap Segment.written = [] ∨ AtMarker (segments.flatMap Segment.written)) := by
  cases segments with
  | nil =>
    refine ⟨fun back suffix some_ => ?_, .inl rfl⟩
    rintro ⟨kind, marker⟩
    have part : Marker.active.chars <:+: kind.chars := by cases kind <;> decide
    rw [List.flatMap_nil, List.append_nil] at marker
    exact plain (part.trans (marker.isInfix.trans suffix.isInfix))
  | cons segment others =>
    cases segment with
    | text u => exact absurd rfl ((List.isChain_cons_cons.1 normal.merged).1 t u rfl)
    | expr source =>
      have written : (Segment.expr source :: others).flatMap Segment.written =
          Marker.active.chars ++ (source.toList ++ '\x7d' :: others.flatMap Segment.written) := by
        simp [Segment.written, Piece.source]
      rw [written]
      exact ⟨clear_before plain (bare (List.cons_ne_nil _ _)), .inr ⟨.active, _, rfl⟩⟩

/-- The pieces of a text whose segments have no markers are there again, without blanks around the
expressions, when the segments are written. The induction is on the pieces. -/
theorem reads_emit (h : Reads cs ps unread) (all : unread = []) (normal : Segment.Normal segments)
    (content : segments.flatMap Segment.atoms = ps.flatMap Piece.atoms)
    (plain : ∀ t, .text t ∈ segments → ¬Marker.active.chars <:+: t.toList) :
    ∃ ps', Reads (segments.flatMap Segment.written) ps' [] ∧
      ps'.flatMap Piece.atoms = segments.flatMap Segment.atoms := by
  induction h generalizing segments with
  | done =>
    obtain rfl : segments = [] := normal.unique .nil content
    exact ⟨[], .done, rfl⟩
  | @plain run rest ps _ some_ clear ends later ih =>
    subst all
    have unmarked (as : List Atom) :
        ps.flatMap Piece.atoms ≠ Marker.active.chars.map .char ++ as := by
      intro same
      refine content_ne_marker normal plain run as ?_
      rw [content, List.flatMap_cons, same, List.map_append, List.append_assoc]
      rfl
    have follows := reads_after_plain later ends unmarked
    obtain ⟨t, others, rfl, -⟩ := text_of_content normal some_ content
    have next : ∀ c as, ps.flatMap Piece.atoms ≠ .char c :: as := by
      rcases follows with rfl | ⟨inside, later, after, rfl, -⟩ <;> nofun
    obtain ⟨rfl, same⟩ := Segment.Normal.text_unique normal.after_text next content
    obtain ⟨ps', again, said⟩ := ih rfl normal.tail same fun t there => plain t (.tail _ there)
    have bare : others ≠ [] → t.toList.getLast? ≠ some '\\' := by
      rcases follows with rfl | ⟨inside, later, after, rfl, rfl⟩
      · exact fun more => absurd (normal.tail.unique .nil same) more
      · -- A backslash right before the marker would have made it another one.
        rintro - last
        obtain ⟨front, whole⟩ := List.getLast?_eq_some_iff.1 last
        exact clear ['\\'] ⟨front, whole.symm⟩ nofun ⟨.escaped, after, rfl⟩
    obtain ⟨clear, ends⟩ := clear_emit normal (plain t (.head _)) bare
    refine ⟨_, .plain some_ clear ends again, ?_⟩
    rw [List.flatMap_cons, said]
    rfl
  | escaped | lone => exact absurd content (content_ne_marker normal plain [] _)
  | @active after inside rest ps _ closes visible _ ih =>
    match segments, content with
    | .text t :: others, content => exact absurd content normal.text_ne_expr
    | .expr source :: others, content =>
      obtain ⟨first, same⟩ := List.cons.inj content
      cases first
      obtain ⟨ps', again, said⟩ := ih all normal.tail same fun t there => plain t (.tail _ there)
      have visible : ¬Blank (Text.trimChars inside) := by
        rwa [← trimChars_eq_nil, trimChars_trimChars, trimChars_eq_nil]
      have written : (Segment.expr (String.ofList (Text.trimChars inside)) :: others).flatMap
          Segment.written = Marker.active.chars ++ (Text.trimChars inside ++
            '\x7d' :: others.flatMap Segment.written) := by
        simp [Segment.written, Piece.source]
      rw [written]
      refine ⟨_, .active (closes_trimChars closes _) visible again, ?_⟩
      rw [List.flatMap_cons, said, Piece.atoms, trimChars_trimChars]
      rfl

end Emit

/-- Writing the segments of a template again gives a template with the same segments, when no text
among them has a marker. -/
theorem parse_emit {text : String} {segments : List Segment} (parsed : parse text = .ok segments)
    (plain : ∀ t, .text t ∈ segments → ¬Marker.active.chars <:+: t.toList) :
    parse (emit segments) = .ok segments := by
  obtain ⟨ps, reads, meant⟩ := parse_eq_ok.1 parsed
  obtain ⟨ps', again, content⟩ := reads_emit reads rfl meant.normal meant.content plain
  rw [parse_eq_ok, emit, String.toList_ofList]
  exact ⟨ps', again, content.symm, meant.normal⟩

/-- An expression with a table and a brace in a string, between two texts. -/
theorem parse_emit_table :
    parse (emit [.text "a ", .expr "\x7bb = '\x7d'\x7d", .text "c$ \\"]) =
      .ok [.text "a ", .expr "\x7bb = '\x7d'\x7d", .text "c$ \\"] := by
  have parsed : parse "a $\x7b \x7bb = '\x7d'\x7d\t\x7dc$ \\" =
      .ok [.text "a ", .expr "\x7bb = '\x7d'\x7d", .text "c$ \\"] := by
    decide +kernel
  refine parse_emit parsed fun t there => ?_
  simp only [List.mem_cons, Segment.text.injEq, reduceCtorEq, List.not_mem_nil, false_or,
    or_false] at there
  rcases there with rfl | rfl <;> decide +kernel

end Template

end Tasklang
