import Tasklang.Proofs.Markers

/-! # Escaping a text

A backslash in front of every marker makes a text plain. The backslashes go away again when the
template is parsed, except inside a placeholder: an escaped placeholder is kept as it stands, with
the backslashes before the markers inside of it.
-/

namespace Tasklang.Template

/-- A text with a backslash in front of each marker. -/
def escape : List Char → List Char
  | '$' :: '\x7b' :: cs => Marker.escaped.chars ++ escape cs
  | c :: cs => c :: escape cs
  | [] => []

/-- Whether a marker of a text stands inside the placeholder that another marker opens. -/
def Nested (cs : List Char) : Prop :=
  ∃ after inside rest, Marker.active.chars ++ after <:+ cs ∧ Closes after inside rest ∧
    Marker.active.chars <:+: inside

section Escape

variable {c : Char} {cs front back run rest inside after : List Char}

theorem escape_marker (cs : List Char) :
    escape (Marker.active.chars ++ cs) = Marker.escaped.chars ++ escape cs := rfl

/-- A text that does not begin with the two characters of a marker does not begin with a marker. -/
theorem not_marker (other : ∀ after, c = '$' → cs = '\x7b' :: after → False) :
    ¬Marker.active.chars <+: c :: cs := by
  rintro ⟨after, is_⟩
  obtain ⟨rfl, rest⟩ := List.cons.inj is_
  exact other after rfl rest.symm

theorem escape_cons (plain : ¬Marker.active.chars <+: c :: cs) :
    escape (c :: cs) = c :: escape cs := by
  rw [escape.eq_def]
  split
  · next is_ => exact absurd ⟨_, is_.symm⟩ plain
  · next is_ =>
    cases is_
    rfl
  · next is_ => cases is_

/-- An escaped text begins with the backslash of a marker, or with a character as it was. -/
theorem escape_eq_cons (is_ : escape cs = c :: after) :
    (∃ cs', cs = Marker.active.chars ++ cs' ∧ c :: after = Marker.escaped.chars ++ escape cs') ∨
    ∃ cs', cs = c :: cs' ∧ ¬Marker.active.chars <+: cs ∧ after = escape cs' := by
  cases cs with
  | nil => cases is_
  | cons d cs =>
    by_cases marked : Marker.active.chars <+: d :: cs
    · obtain ⟨cs', split⟩ := marked
      rw [← split, escape_marker] at is_
      exact .inl ⟨cs', split.symm, is_.symm⟩
    · rw [escape_cons marked] at is_
      cases is_
      exact .inr ⟨cs, rfl, marked, rfl⟩

/-- No active marker begins an escaped text. -/
theorem escape_not_active : ¬Marker.active.chars <+: escape cs := by
  rintro ⟨after, is_⟩
  rcases escape_eq_cons is_.symm with ⟨_, -, is_⟩ | ⟨cs', rfl, plain, is_⟩
  · cases is_
  · rcases escape_eq_cons is_.symm with ⟨_, -, is_⟩ | ⟨cs'', rfl, -, -⟩
    · cases is_
    · exact plain ⟨cs'', rfl⟩

/-- An escaped marker of an escaped text was a marker. -/
theorem escape_eq_escaped (is_ : escape cs = Marker.escaped.chars ++ after) :
    ∃ cs', cs = Marker.active.chars ++ cs' ∧ after = escape cs' := by
  rcases escape_eq_cons is_ with ⟨cs', rfl, same⟩ | ⟨cs', rfl, -, is_⟩
  · exact ⟨cs', rfl, (List.append_right_inj Marker.escaped.chars).1 same⟩
  · exact absurd ⟨_, is_⟩ escape_not_active

/-- The scan for active markers does not stop in an escaped text. -/
theorem hasActive_escape (cs : List Char) : hasActive (escape cs) = false := by
  fun_induction escape cs with
  | case1 cs ih => exact ih
  | case2 c cs other ih =>
    rw [hasActive_cons, ih]
    rintro ⟨kind, marker⟩
    cases kind with
    | active => exact escape_not_active (escape_cons (not_marker other) ▸ marker)
    | escaped => exact escape_not_active (List.cons_prefix_cons.1 marker).2
  | case3 => rfl

/-- Escaping takes a text on both sides of a closing brace. -/
theorem escape_brace (front back : List Char) :
    escape (front ++ '\x7d' :: back) = escape front ++ '\x7d' :: escape back := by
  fun_induction escape front with
  | case1 front ih => exact congrArg (Marker.escaped.chars ++ ·) ih
  | case2 c front other ih =>
    have still : ¬Marker.active.chars <+: c :: (front ++ '\x7d' :: back) := fun marker =>
      not_marker other (marker_brace marker)
    rw [List.cons_append, escape_cons still, ih, List.cons_append]
  | case3 => exact escape_cons fun marker => absurd (List.cons_prefix_cons.1 marker).1 (by decide)

/-- A closing brace of an escaped text was there before. -/
theorem escape_eq_brace (is_ : escape cs = front ++ '\x7d' :: back) :
    ∃ before after, cs = before ++ '\x7d' :: after ∧ escape before = front ∧
      escape after = back := by
  fun_induction escape cs generalizing front with
  | case1 cs ih =>
    match front, is_ with
    | _ :: _ :: _ :: front, is_ =>
      simp only [Marker.chars, List.cons_append, List.nil_append, List.cons.injEq] at is_
      obtain ⟨rfl, rfl, rfl, is_⟩ := is_
      obtain ⟨before, after, rfl, rfl, rfl⟩ := ih is_
      exact ⟨'$' :: '\x7b' :: before, after, rfl, rfl, rfl⟩
  | case2 c cs other ih =>
    cases front with
    | nil =>
      obtain ⟨rfl, rfl⟩ := List.cons.inj is_
      exact ⟨[], cs, rfl, rfl, rfl⟩
    | cons d front =>
      obtain ⟨rfl, others⟩ := List.cons.inj is_
      obtain ⟨before, after, rfl, rfl, rfl⟩ := ih others
      have still : ¬Marker.active.chars <+: c :: before := fun marker =>
        not_marker other (marker.trans (List.prefix_append (c :: before) ('\x7d' :: after)))
      exact ⟨c :: before, after, rfl, escape_cons still, rfl⟩
  | case3 => simp at is_

/-- The backslash before a marker does not change where a scan comes to. -/
theorem after_marker {p : Place} (quotes : p.Quotes) :
    p.after Marker.escaped.chars = p.after Marker.active.chars := by
  obtain ⟨_ | q, protects, depth⟩ := p
  · simp [Marker.chars, Place.next]
  · -- In a string, neither `$` nor a brace is the quote that ends it.
    rcases quotes q rfl with rfl | rfl <;> cases protects <;> simp [Marker.chars, Place.next]

/-- A scan comes to the same place in an escaped text. -/
theorem after_escape {p : Place} (quotes : p.Quotes) (cs : List Char) :
    p.after (escape cs) = p.after cs := by
  fun_induction escape cs generalizing p with
  | case1 cs ih =>
    rw [Place.after_append, ih (quotes.after _), after_marker quotes]
    rfl
  | case2 c cs _ ih => exact ih (quotes.next c)
  | case3 => rfl

/-- Placeholders close where they did. -/
theorem closes_escape : Closes (escape cs) front back ↔
    ∃ inside rest, Closes cs inside rest ∧ escape inside = front ∧ escape rest = back := by
  constructor
  · intro h
    obtain ⟨inside, rest, rfl, rfl, rfl⟩ := escape_eq_brace h.split
    refine ⟨inside, rest, ⟨rfl, ?_, fun before after is_ => ?_⟩, rfl, rfl⟩
    · rw [← after_escape Place.quotes_start]
      exact h.outside
    · rw [← after_escape Place.quotes_start]
      exact h.first _ _ (is_ ▸ escape_brace before after)
  · rintro ⟨inside, rest, h, rfl, rfl⟩
    refine ⟨h.split ▸ escape_brace inside rest, ?_, fun front back is_ => ?_⟩
    · rw [after_escape Place.quotes_start]
      exact h.outside
    · obtain ⟨before, after, rfl, rfl, rfl⟩ := escape_eq_brace is_
      rw [after_escape Place.quotes_start]
      exact h.first before after rfl

theorem length_le_escape (cs : List Char) : cs.length ≤ (escape cs).length := by
  fun_induction escape cs with
  | case1 cs ih =>
    simp only [Marker.chars, List.cons_append, List.nil_append, List.length_cons]
    omega
  | case2 c cs _ ih => exact Nat.succ_le_succ ih
  | case3 => exact Nat.le_refl 0

theorem length_lt_escape (marked : Marker.active.chars <:+: cs) :
    cs.length < (escape cs).length := by
  fun_induction escape cs with
  | case1 cs _ =>
    have := length_le_escape cs
    simp only [Marker.chars, List.cons_append, List.nil_append, List.length_cons]
    omega
  | case2 c cs other ih =>
    rcases List.infix_cons_iff.1 marked with marker | later
    · exact absurd marker (not_marker other)
    · exact Nat.succ_lt_succ (ih later)
  | case3 => simp [Marker.chars] at marked

/-- Only a text without markers stays as it is. -/
theorem escape_eq_self : escape cs = cs ↔ ¬Marker.active.chars <:+: cs := by
  constructor
  · intro same marked
    have longer := length_lt_escape marked
    rw [same] at longer
    exact Nat.lt_irrefl _ longer
  · intro plain
    induction cs with
    | nil => rfl
    | cons c cs ih =>
      rw [escape_cons fun marker => plain marker.isInfix,
        ih fun marker => plain (marker.trans (List.suffix_cons c cs).isInfix)]

end Escape

section Nesting

variable {c : Char} {cs front run rest : List Char}

theorem nested_cons (plain : ¬Marker.active.chars <+: c :: cs) : Nested (c :: cs) ↔ Nested cs := by
  constructor
  · rintro ⟨after, inside, rest, suffix, h⟩
    rcases List.suffix_cons_iff.1 suffix with same | suffix
    · exact absurd ⟨after, same⟩ plain
    · exact ⟨after, inside, rest, suffix, h⟩
  · rintro ⟨after, inside, rest, suffix, h⟩
    exact ⟨after, inside, rest, suffix.trans (List.suffix_cons c cs), h⟩

/-- A marker stands inside of the placeholder that the first marker opens, or of a later one. -/
theorem nested_marker : Nested (Marker.active.chars ++ cs) ↔
    (∃ inside rest, Closes cs inside rest ∧ Marker.active.chars <:+: inside) ∨ Nested cs := by
  constructor
  · rintro ⟨after, inside, rest, suffix, h⟩
    rcases List.suffix_cons_iff.1 suffix with same | suffix
    · cases same
      exact .inl ⟨inside, rest, h⟩
    · exact .inr ((nested_cons (by simp [Marker.chars])).1 ⟨after, inside, rest, suffix, h⟩)
  · rintro (⟨inside, rest, h⟩ | ⟨after, inside, rest, suffix, h⟩)
    · exact ⟨cs, inside, rest, List.suffix_rfl, h⟩
    · exact ⟨after, inside, rest, suffix.trans (List.suffix_append _ _), h⟩

/-- Text without markers up to a brace does not matter. -/
theorem nested_brace (plain : ¬Marker.active.chars <:+: front) :
    Nested (front ++ '\x7d' :: rest) ↔ Nested rest := by
  induction front with
  | nil => exact nested_cons (by simp [Marker.chars])
  | cons c front ih =>
    have still : ¬Marker.active.chars <+: c :: (front ++ '\x7d' :: rest) := fun marker =>
      plain (marker_brace marker).isInfix
    rw [List.cons_append, nested_cons still]
    exact ih fun marker => plain (marker.trans (List.suffix_cons c front).isInfix)

/-- In a placeholder that closes, only its inside matters. -/
theorem nested_closes {inside : List Char} (h : Closes cs inside rest) :
    Nested (Marker.active.chars ++ cs) ↔ Marker.active.chars <:+: inside ∨ Nested rest := by
  rw [nested_marker]
  by_cases marked : Marker.active.chars <:+: inside
  · exact ⟨fun _ => .inl marked, fun _ => .inl ⟨inside, rest, h, marked⟩⟩
  have later : Nested cs ↔ Nested rest := by rw [h.split, nested_brace marked]
  rw [later]
  refine or_congr_left ⟨?_, fun marked' => absurd marked' marked⟩
  rintro ⟨inside', rest', h', marked'⟩
  cases (splitClosing_eq_some.2 h).symm.trans (splitClosing_eq_some.2 h')
  exact marked'

/-- A plain run of an escaped text was there before. -/
theorem escape_eq_clear (is_ : escape cs = run ++ rest) (clear : Clear run rest) :
    ∃ cs', cs = run ++ cs' ∧ rest = escape cs' ∧ (Nested cs ↔ Nested cs') := by
  induction run generalizing cs with
  | nil => exact ⟨cs, rfl, is_.symm, Iff.rfl⟩
  | cons c run ih =>
    obtain ⟨here, later⟩ := clear_cons.1 clear
    rcases escape_eq_cons is_ with ⟨cs', -, same⟩ | ⟨cs', rfl, plain, same⟩
    · exact absurd ⟨.escaped, _, same.symm⟩ here
    · obtain ⟨cs'', rfl, rfl, nested⟩ := ih same.symm later
      exact ⟨cs'', rfl, rfl, (nested_cons plain).trans nested⟩

/-- What the pieces of an escaped text say is never shorter than the text, and it is the text unless
a marker stands inside a placeholder. The induction is on the pieces. -/
theorem reads_escape {text unread : List Char} {ps : List Piece} (h : Reads text ps unread)
    (all : unread = []) (is_ : escape cs = text) :
    ∃ said : List Char, ps.flatMap Piece.atoms = said.map .char ∧ cs.length ≤ said.length ∧
      (said = cs ↔ ¬Nested cs) := by
  induction h generalizing cs with
  | done =>
    have empty : cs = [] := List.length_eq_zero_iff.1 <| Nat.le_zero.1 <|
      (length_le_escape cs).trans (by rw [is_, all]; exact Nat.le_refl 0)
    subst empty
    refine ⟨[], rfl, Nat.le_refl 0, fun _ => ?_, fun _ => rfl⟩
    rintro ⟨after, -, -, suffix, -⟩
    simp [Marker.chars] at suffix
  | @plain run rest ps _ _ clear _ _ ih =>
    obtain ⟨cs', rfl, rfl, nested⟩ := escape_eq_clear is_ clear
    obtain ⟨said, content, long, kept⟩ := ih all rfl
    refine ⟨run ++ said, ?_, by simpa using long, ?_⟩
    · rw [List.flatMap_cons, content, List.map_append]
      rfl
    · rw [nested, ← kept, List.append_right_inj]
  | @escaped after inside rest ps _ closes _ ih =>
    obtain ⟨cs', rfl, rfl⟩ := escape_eq_escaped is_
    obtain ⟨inside, rest, closed, rfl, rfl⟩ := closes_escape.1 closes
    obtain ⟨said, content, long, kept⟩ := ih all rfl
    have longer := length_le_escape inside
    refine ⟨Marker.active.chars ++ (escape inside ++ '\x7d' :: said), ?_, ?_, ?_⟩
    · rw [List.flatMap_cons, content]
      simp [Piece.atoms, Piece.source]
    · rw [closed.split]
      simp only [List.length_append, List.length_cons]
      omega
    · -- Neither part is shorter than before, so that both are the same when the whole is.
      have apart : escape inside ++ '\x7d' :: said = inside ++ '\x7d' :: rest ↔
          escape inside = inside ∧ said = rest := by
        constructor
        · intro same
          have sizes := congrArg List.length same
          simp only [List.length_append, List.length_cons] at sizes
          obtain ⟨first, others⟩ := List.append_inj same (by omega)
          exact ⟨first, (List.cons.inj others).2⟩
        · rintro ⟨first, rfl⟩
          rw [first]
      rw [nested_closes closed, closed.split, List.append_right_inj, apart, escape_eq_self, kept,
        not_or]
  | lone never _ ih =>
    obtain ⟨cs', rfl, rfl⟩ := escape_eq_escaped is_
    obtain ⟨said, content, long, kept⟩ := ih all rfl
    have open_ : ¬∃ inside rest, Closes cs' inside rest ∧ Marker.active.chars <:+: inside := by
      rintro ⟨inside, rest, closed, -⟩
      exact never _ _ (closes_escape.2 ⟨inside, rest, closed, rfl, rfl⟩)
    refine ⟨Marker.active.chars ++ said, ?_, by simpa using long, ?_⟩
    · rw [List.flatMap_cons, content, List.map_append]
      rfl
    · rw [nested_marker, or_iff_right open_, List.append_right_inj, kept]
  | active => exact absurd ⟨_, is_.symm⟩ escape_not_active

end Nesting

/-- Text alone is said by one segment, or by none. -/
theorem consText_inj {cs ds : List Char} : consText cs [] = consText ds [] ↔ cs = ds := by
  constructor
  · intro same
    have same := congrArg (List.flatMap Segment.atoms) same
    simp only [atoms_consText, List.flatMap_nil, List.append_nil] at same
    exact List.map_injective_iff.2 (fun _ _ => Atom.char.inj) same
  · rintro rfl
    rfl

/-- A text with its markers escaped is not templated, and it is parsed to text alone. This is the
text as it was exactly when no marker of it stands inside the placeholder of another. -/
theorem parse_escape (s : String) :
    isTemplated (String.ofList (escape s.toList)) = false ∧
    (∃ said, parse (String.ofList (escape s.toList)) = .ok (consText said [])) ∧
    (parse (String.ofList (escape s.toList)) = .ok (consText s.toList []) ↔
      ¬Nested s.toList) := by
  have untemplated : isTemplated (String.ofList (escape s.toList)) = false := by
    rw [isTemplated, String.toList_ofList, hasActive_escape]
  refine ⟨untemplated, ?_⟩
  cases parsed : parse (String.ofList (escape s.toList)) with
  | error e =>
    obtain ⟨segments, parsed', -⟩ := parse_untemplated untemplated
    cases parsed.symm.trans parsed'
  | ok segments =>
    obtain ⟨ps, reads, meant⟩ := parse_eq_ok.1 parsed
    rw [String.toList_ofList] at reads
    obtain ⟨said, content, -, kept⟩ := reads_escape reads rfl rfl
    have is_ : segments = consText said [] := by
      refine meant.normal.unique (.consText said .nil (by simp)) ?_
      rw [meant.content, content, atoms_consText, List.flatMap_nil, List.append_nil]
    rw [is_]
    refine ⟨⟨said, rfl⟩, ?_⟩
    rw [Except.ok.injEq, consText_inj, kept]

/-- A marker inside of a placeholder keeps its backslash, so that the text is not the same again. -/
theorem escape_nested : ¬(
    isTemplated (String.ofList (escape "$\x7b $\x7bx\x7d \x7d".toList)) = false ∧
    parse (String.ofList (escape "$\x7b $\x7bx\x7d \x7d".toList)) =
      .ok (consText "$\x7b $\x7bx\x7d \x7d".toList [])) := by
  decide +kernel

end Tasklang.Template
