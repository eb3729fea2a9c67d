import Tasklang.Text.Blank

/-! # Templates

Text with placeholders. A placeholder opens with `$` and a brace and ends at the first closing brace
that is neither nested in braces nor inside quotes; a backslash right before the marker makes it
ordinary text. Parsing splits a template into text and expression segments.
-/

namespace Tasklang

/-- A piece of a parsed template. -/
inductive Segment where
  /-- Text that stands for itself. -/
  | text (s : String)
  /-- The source of a placeholder, without blanks at its ends. -/
  | expr (source : String)
  deriving DecidableEq, Repr, Inhabited

/-- Why a template cannot be parsed. -/
inductive TemplateError where
  /-- A placeholder without an expression, shown whole. -/
  | emptyExpression (placeholder : String)
  /-- A placeholder that is never closed, shown to the end of the text. -/
  | malformed (rest : String)
  deriving DecidableEq, Repr

/-- The message of a template error. -/
def TemplateError.message : TemplateError → String
  | .emptyExpression placeholder => "Invalid template variable: " ++ placeholder
  | .malformed rest => "Unterminated template variable: " ++ rest

namespace Template

/-- How a placeholder opens. -/
inductive Marker where
  /-- The placeholder is evaluated. -/
  | active
  /-- A backslash makes the placeholder text. -/
  | escaped
  deriving DecidableEq, Repr

/-- The first marker of a text: what stands before it, its kind, and what follows it. -/
def nextMarker : List Char → Option (List Char × Marker × List Char)
  | '\\' :: '$' :: '\x7b' :: cs => some ([], .escaped, cs)
  | '$' :: '\x7b' :: cs => some ([], .active, cs)
  | c :: cs => (nextMarker cs).map fun (before, kind, after) => (c :: before, kind, after)
  | [] => none

/-- Split at the brace that closes a placeholder: the inside and the rest. `quote` is the quote
that is open, if any, and `depth` counts the braces that are open. -/
def splitClosing : Option Char → Nat → List Char → Option (List Char × List Char)
  | _, _, [] => none
  | some q, depth, c :: cs =>
    if c = '\\' then
      match cs with
      | [] => none
      | d :: cs => (splitClosing (some q) depth cs).map fun (i, r) => (c :: d :: i, r)
    else
      (splitClosing (if c = q then none else some q) depth cs).map fun (i, r) => (c :: i, r)
  | none, depth, c :: cs =>
    if c = '"' ∨ c = '\'' then (splitClosing (some c) depth cs).map fun (i, r) => (c :: i, r)
    else if c = '\x7b' then (splitClosing none (depth + 1) cs).map fun (i, r) => (c :: i, r)
    else if c = '\x7d' then
      match depth with
      | 0 => some ([], cs)
      | depth + 1 => (splitClosing none depth cs).map fun (i, r) => (c :: i, r)
    else (splitClosing none depth cs).map fun (i, r) => (c :: i, r)

theorem nextMarker_length {cs before after : List Char} {kind : Marker}
    (h : nextMarker cs = some (before, kind, after)) : after.length < cs.length := by
  fun_induction nextMarker cs generalizing before kind after with
  | case1 =>
    simp only [Option.some.injEq, Prod.mk.injEq] at h
    obtain ⟨_, _, rfl⟩ := h
    simp only [List.length_cons]
    omega
  | case2 =>
    simp only [Option.some.injEq, Prod.mk.injEq] at h
    obtain ⟨_, _, rfl⟩ := h
    simp only [List.length_cons]
    omega
  | case3 c cs _ _ ih =>
    obtain ⟨⟨b, k, a⟩, hr, heq⟩ := Option.map_eq_some_iff.1 h
    simp only [Prod.mk.injEq] at heq
    obtain ⟨_, rfl, rfl⟩ := heq
    have := ih hr
    simp; omega
  | case4 => simp at h

theorem splitClosing_length {quote : Option Char} {depth : Nat} {cs inside rest : List Char}
    (h : splitClosing quote depth cs = some (inside, rest)) : rest.length < cs.length := by
  fun_induction splitClosing quote depth cs generalizing inside rest with
  | case1 => simp at h
  | case2 => simp at h
  | case7 => simp_all
  | _ =>
    rename_i ih
    obtain ⟨⟨i, r⟩, hr, heq⟩ := Option.map_eq_some_iff.1 h
    simp only [Prod.mk.injEq] at heq
    obtain ⟨_, rfl⟩ := heq
    have := ih hr
    simp; omega

/-- A text segment in front of others, left out when it is empty. -/
def consText (cs : List Char) (segments : List Segment) : List Segment :=
  if cs.isEmpty then segments else .text (String.ofList cs) :: segments

/-- Parse a text whose beginning is already known to be the plain text `literal`. -/
def parseFrom (literal cs : List Char) : Except TemplateError (List Segment) :=
  match h : nextMarker cs with
  | none => .ok (consText (literal ++ cs) [])
  | some (before, kind, after) =>
    have := nextMarker_length h
    match hs : splitClosing none 0 after, kind with
    | some (inside, rest), .escaped =>
      have := splitClosing_length hs
      parseFrom (literal ++ before ++ '$' :: '\x7b' :: inside ++ ['\x7d']) rest
    | some (inside, rest), .active =>
      have := splitClosing_length hs
      match Text.trimChars inside with
      | [] => .error (.emptyExpression (String.ofList ('$' :: '\x7b' :: inside ++ ['\x7d'])))
      | source => match parseFrom [] rest with
        | .ok segments =>
          .ok (consText (literal ++ before) (.expr (String.ofList source) :: segments))
        | .error e => .error e
    | none, .escaped => parseFrom (literal ++ before ++ ['$', '\x7b']) after
    | none, .active => .error (.malformed (String.ofList ('$' :: '\x7b' :: after)))
termination_by cs.length

/-- Split a text into segments. Neighbouring text is joined, and no segment is empty. -/
def parse (text : String) : Except TemplateError (List Segment) := parseFrom [] text.toList

/-- Whether some marker of the text is active. -/
def hasActive : List Char → Bool
  | '\\' :: '$' :: '\x7b' :: cs => hasActive cs
  | '$' :: '\x7b' :: _ => true
  | _ :: cs => hasActive cs
  | [] => false

/-- Whether a text has a placeholder that is not escaped. -/
def isTemplated (text : String) : Bool := hasActive text.toList

/-- The sources of the placeholders, in order. -/
def expressions (segments : List Segment) : List String :=
  segments.filterMap fun
    | .expr source => some source
    | .text _ => none

end Template

end Tasklang
