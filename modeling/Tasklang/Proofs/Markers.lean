import Tasklang.Proofs.Grammar

/-! # Active markers

A text is scanned for active markers marker by marker, and parsed placeholder by placeholder. The
two agree, except on an escaped placeholder with an unescaped marker inside: the scan stops there,
while parsing takes the whole placeholder for text.
-/

namespace Tasklang.Template

section Scanning

variable {c : Char} {cs run rest : List Char}

/-- The scan passes a character that begins no marker. -/
theorem hasActive_cons (plain : ¬AtMarker (c :: cs)) : hasActive (c :: cs) = hasActive cs := by
  rw [hasActive.eq_def]
  split
  · next is_ => exact absurd ⟨.escaped, _, is_.symm⟩ plain
  · next is_ => exact absurd ⟨.active, _, is_.symm⟩ plain
  · next is_ => cases is_; rfl
  · next is_ => cases is_

theorem hasActive_clear (clear : Clear run rest) : hasActive (run ++ rest) = hasActive rest := by
  induction run with
  | nil => rfl
  | cons c run ih =>
    obtain ⟨here, later⟩ := clear_cons.1 clear
    exact (hasActive_cons here).trans (ih later)

/-- No marker reaches over a closing brace. -/
theorem marker_brace {kind : Marker} (marker : kind.chars <+: cs ++ '\x7d' :: rest) :
    kind.chars <+: cs := by
  have whole : cs ++ ['\x7d'] <+: cs ++ '\x7d' :: rest := ⟨rest, by simp⟩
  have braceless : '\x7d' ∉ kind.chars := by cases kind <;> decide
  rcases List.prefix_or_prefix_of_prefix marker whole with within | longer
  · rcases List.prefix_concat_iff.1 within with all | within
    · exact absurd (all ▸ by simp) braceless
    · exact within
  · exact absurd (longer.subset (by simp)) braceless

theorem atMarker_brace (h : AtMarker (cs ++ '\x7d' :: rest)) : AtMarker cs := by
  obtain ⟨kind, marker⟩ := h
  exact ⟨kind, marker_brace marker⟩

theorem not_atMarker_nil : ¬AtMarker [] := by
  rintro ⟨kind, after, is_⟩
  cases kind <;> cases is_

/-- What the scan does with a text up to a closing brace does not hang on what follows. -/
theorem hasActive_brace (cs rest : List Char) :
    hasActive (cs ++ '\x7d' :: rest) = (hasActive cs || hasActive rest) := by
  fun_induction hasActive cs with
  | case1 cs ih => exact ih
  | case2 => rfl
  | case3 c cs notEscaped notActive ih =>
    have plain : ¬AtMarker (c :: cs) := by
      rintro ⟨kind, after, is_⟩
      cases kind with
      | active =>
        obtain ⟨first, others⟩ := List.cons.inj is_.symm
        exact notActive after first others
      | escaped =>
        obtain ⟨first, others⟩ := List.cons.inj is_.symm
        exact notEscaped after first others
    exact (hasActive_cons fun here => plain (atMarker_brace here)).trans ih
  | case4 => exact hasActive_cons fun here => not_atMarker_nil (atMarker_brace here)

end Scanning

/-- Whether a text has a marker without a backslash before it. -/
def Unescaped (cs : List Char) : Prop :=
  ∃ before after, cs = before ++ (Marker.active.chars ++ after) ∧ before.getLast? ≠ some '\\'

/-- The scan finds the markers that have no backslash before them. -/
theorem hasActive_eq_true (cs : List Char) : hasActive cs = true ↔ Unescaped cs := by
  fun_induction hasActive cs with
  | case1 cs ih =>
    rw [ih]
    constructor
    · rintro ⟨before, after, rfl, bare⟩
      refine ⟨'\\' :: '$' :: '\x7b' :: before, after, rfl, ?_⟩
      cases before with
      | nil => decide
      | cons c before => exact bare
    · rintro ⟨before, after, is_, bare⟩
      match before, is_, bare with
      | [_], is_, bare => exact absurd ((List.cons.inj is_).1 ▸ rfl) bare
      | _ :: _ :: _ :: before, is_, bare =>
        simp only [List.cons_append, List.cons.injEq] at is_
        refine ⟨before, after, is_.2.2.2, ?_⟩
        cases before with
        | nil => nofun
        | cons c before => exact bare
  | case2 after => exact ⟨fun _ => ⟨[], after, rfl, nofun⟩, fun _ => rfl⟩
  | case3 c cs notEscaped notActive ih =>
    rw [ih]
    constructor
    · rintro ⟨before, after, rfl, bare⟩
      refine ⟨c :: before, after, rfl, ?_⟩
      cases before with
      | nil => exact fun is_ => notEscaped after (Option.some.inj is_) rfl
      | cons d before => exact bare
    · rintro ⟨before, after, is_, bare⟩
      cases before with
      | nil => exact absurd (List.cons.inj is_) fun ⟨first, others⟩ => notActive after first others
      | cons d before =>
        refine ⟨before, after, (List.cons.inj is_).2, ?_⟩
        cases before with
        | nil => nofun
        | cons e before => exact bare
  | case4 => simp [Unescaped, Marker.chars]

/-- Whether the scan stops inside a piece. -/
def Piece.marks : Piece → Bool
  | .plain _ | .lone => false
  | .escaped inside => hasActive inside
  | .active _ => true

/-- The scan of a text stops inside one of its pieces or in what is left. -/
theorem hasActive_reads {cs rest : List Char} {ps : List Piece} (h : Reads cs ps rest) :
    hasActive cs = (ps.any Piece.marks || hasActive rest) := by
  induction h with
  | done => rfl
  | plain _ clear _ _ ih => exact (hasActive_clear clear).trans ih
  | @escaped after inside rest ps unread closes _ ih =>
    calc hasActive (Marker.escaped.chars ++ after)
      _ = hasActive after := rfl
      _ = (hasActive inside || hasActive rest) := by rw [closes.split, hasActive_brace]
      _ = _ := by rw [ih, List.any_cons, Piece.marks, Bool.or_assoc]
  | lone _ _ ih => exact ih
  | active => rfl

/-- Expressions are what active pieces say. -/
theorem Says.expr_mem {ps : List Piece} {segments : List Segment} (h : Says ps segments) :
    (∃ source, .expr source ∈ segments) ↔ ∃ inside, .active inside ∈ ps := by
  have said (source : String) :
      Segment.expr source ∈ segments ↔ Atom.expr source ∈ ps.flatMap Piece.atoms := by
    rw [← h.content, List.mem_flatMap]
    constructor
    · exact fun there => ⟨_, there, .head _⟩
    · rintro ⟨s, there, inside⟩
      cases s with
      | text t => simp [Segment.atoms] at inside
      | expr source' =>
        cases List.mem_singleton.1 inside
        exact there
  constructor
  · rintro ⟨source, there⟩
    obtain ⟨p, there, within⟩ := List.mem_flatMap.1 ((said source).1 there)
    cases p with
    | active inside => exact ⟨inside, there⟩
    | _ => simp [Piece.atoms] at within
  · rintro ⟨inside, there⟩
    exact ⟨_, (said _).2 (List.mem_flatMap.2 ⟨_, there, .head _⟩)⟩

/-- A text that the scan passes is parsed, and nothing in it is an expression. -/
theorem parse_untemplated {text : String} (untemplated : isTemplated text = false) :
    ∃ segments, parse text = .ok segments ∧ ∀ source, .expr source ∉ segments := by
  obtain ⟨ps, rest, reads, ends⟩ := reads_total text.toList
  rw [isTemplated, hasActive_reads reads, Bool.or_eq_false_iff] at untemplated
  obtain ⟨unmarked, passed⟩ := untemplated
  rcases ends with rfl | ⟨e, offends⟩
  · obtain ⟨segments, parsed, content, normal⟩ := (parseFrom_reads reads []).1 rfl
    refine ⟨segments, parsed, fun source said => ?_⟩
    have meant : Says ps segments := ⟨content, normal⟩
    obtain ⟨inside, there⟩ := meant.expr_mem.1 ⟨source, said⟩
    exact List.any_eq_false.1 unmarked _ there rfl
  · -- A text that cannot be parsed is left at an active marker, where the scan stops.
    have stops : hasActive rest = true := by cases offends <;> rfl
    rw [stops] at passed
    cases passed

/-- Whether a text has an escaped placeholder with an unescaped marker inside. -/
def Hides (text : String) : Prop :=
  ∃ ps rest inside, Reads text.toList ps rest ∧ .escaped inside ∈ ps ∧ Unescaped inside

/-- The scan for active markers stops in exactly the texts that cannot be parsed, those that come
to an expression, and those that hide a marker in an escaped placeholder. -/
theorem isTemplated_iff (text : String) : isTemplated text = true ↔
    (∃ e, parse text = .error e) ∨
    (∃ segments source, parse text = .ok segments ∧ .expr source ∈ segments) ∨
    Hides text := by
  constructor
  · intro marked
    obtain ⟨ps, rest, reads, ends⟩ := reads_total text.toList
    rcases ends with rfl | ⟨e, offends⟩
    · obtain ⟨segments, parsed, content, normal⟩ := (parseFrom_reads reads []).1 rfl
      have meant : Says ps segments := ⟨content, normal⟩
      rw [isTemplated, hasActive_reads reads, hasActive, Bool.or_false, List.any_eq_true] at marked
      obtain ⟨p, there, marks⟩ := marked
      cases p with
      | plain | lone => cases marks
      | escaped inside =>
        exact .inr (.inr ⟨ps, [], inside, reads, there, (hasActive_eq_true inside).1 marks⟩)
      | active inside =>
        obtain ⟨source, said⟩ := meant.expr_mem.2 ⟨inside, there⟩
        exact .inr (.inl ⟨segments, source, parsed, said⟩)
    · exact .inl ⟨e, (parseFrom_reads reads []).2 e offends⟩
  · rintro (⟨e, failed⟩ | ⟨segments, source, parsed, said⟩ | ⟨ps, rest, inside, reads, there, bare⟩)
    · obtain ⟨ps, rest, reads, offends⟩ := parse_eq_error.1 failed
      have stops : hasActive rest = true := by cases offends <;> rfl
      rw [isTemplated, hasActive_reads reads, stops, Bool.or_true]
    · obtain ⟨ps, reads, meant⟩ := parse_eq_ok.1 parsed
      obtain ⟨inside, there⟩ := meant.expr_mem.1 ⟨source, said⟩
      rw [isTemplated, hasActive_reads reads, List.any_eq_true.2 ⟨_, there, rfl⟩, Bool.true_or]
    · have marks : Piece.marks (.escaped inside) = true := (hasActive_eq_true inside).2 bare
      rw [isTemplated, hasActive_reads reads, List.any_eq_true.2 ⟨_, there, marks⟩, Bool.true_or]

/-- A text without expressions that the scan takes for templated. -/
theorem isTemplated_hidden : isTemplated "\\$\x7b $\x7bx\x7d \x7d" = true ∧
    parse "\\$\x7b $\x7bx\x7d \x7d" = .ok [.text "$\x7b $\x7bx\x7d \x7d"] :=
  ⟨by decide, by decide +kernel⟩

end Tasklang.Template
