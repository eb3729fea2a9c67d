import Mathlib.Data.String.Basic
import Tasklang.Program.Source
import Tasklang.Proofs.Quoting

/-! # Literals in the text of steps

The text of steps is laid out in rows: a margin, which grows with the indentation, and what is
written in the row, which does not. Every literal stands in one row, in the order of the steps, and
its source takes part in the text as it is. The arguments of external programs are the exception:
the finished text of such a step is indented line by line, and so are the further lines of an
argument whose source takes several.
-/

namespace Tasklang

/-! ## Indented lines -/

section Lines

open String

/-- The splitting of a text at line feeds, after some lines that are `found`, past `l` and within a
line that begins with `m`. -/
theorem splitOnAux_lineFeed (l m r : List Char) (found : List String) :
    splitOnAux (ofList (l ++ m ++ r)) "\n" ⟨utf8Len l⟩ ⟨utf8Len l + utf8Len m⟩ 0 found =
      found.reverse ++ (List.splitOnPPrepend (· == '\n') r m.reverse).map ofList := by
  have feed : Pos.Raw.get "\n" 0 = '\n' := by decide
  have one : Pos.Raw.next "\n" 0 = ⟨1⟩ := by decide
  have ends : Pos.Raw.atEnd "\n" ⟨1⟩ = true := by decide
  rw [splitOnAux]
  cases r with
  | nil =>
    rw [if_pos (by simpa using atEnd_of_valid (l ++ m) [])]
    simpa using extract_of_valid l m []
  | cons c r =>
    rw [if_neg (by simpa using atEnd_of_valid (l ++ m) (c :: r))]
    have here := get_of_valid (l ++ m) (c :: r)
    have next := next_of_valid (l ++ m) c r
    have line := extract_of_valid l m (c :: r)
    rw [utf8Len_append] at here next
    simp only [here, feed, one, ends, List.headD_cons, if_true, beq_iff_eq,
      List.splitOnPPrepend_cons_eq_if]
    by_cases is_ : c = '\n'
    · subst is_
      have cut : Pos.Raw.unoffsetBy ⟨utf8Len l + utf8Len m + '\n'.utf8Size⟩ ⟨1⟩ =
        ⟨utf8Len l + utf8Len m⟩ := rfl
      rw [if_pos rfl, if_pos rfl, next, cut, line]
      simpa [Nat.add_assoc] using splitOnAux_lineFeed (l ++ m ++ ['\n']) [] r (ofList m :: found)
    · have stay : Pos.Raw.unoffsetBy ⟨utf8Len l + utf8Len m⟩ 0 = ⟨utf8Len l + utf8Len m⟩ := rfl
      rw [if_neg is_, if_neg is_, stay, next]
      simpa [Nat.add_assoc] using splitOnAux_lineFeed l (m ++ [c]) r found
termination_by r.length

theorem splitOn_lineFeed (s : String) :
    s.splitOn "\n" = (s.toList.splitOnP (· == '\n')).map ofList := by
  simpa [splitOn] using splitOnAux_lineFeed [] [] s.toList []

end Lines

section Margins

variable {n : Nat} {c d : Char} {cs line code : List Char}

/-- The first line of a text. -/
def firstLine : List Char → List Char := List.takeWhile (· ≠ '\n')

/-- What is put in front of a line: nothing, if it has blanks only. -/
def margin (n : Nat) (line : List Char) : List Char :=
  if line.all Text.isBlank then [] else List.replicate n ' '

/-- An indented text after the margin of its first line. -/
def indented (n : Nat) : List Char → List Char
  | [] => []
  | c :: cs =>
    if c = '\n' then '\n' :: (margin n (firstLine cs) ++ indented n cs) else c :: indented n cs

/-- The same for a piece of a text, where the last line of the piece goes on with something
visible, so that it never counts as one of blanks only. -/
def continued (n : Nat) : List Char → List Char
  | [] => []
  | c :: cs =>
    if c = '\n' then
      '\n' :: ((if '\n' ∈ cs then margin n (firstLine cs) else List.replicate n ' ')
        ++ continued n cs)
    else c :: continued n cs

theorem splitOnP_lines (n : Nat) (cs : List Char) : ∃ lines,
    cs.splitOnP (· == '\n') = firstLine cs :: lines ∧
      firstLine cs ++ lines.flatMap (fun line => '\n' :: (margin n line ++ line)) =
        indented n cs := by
  induction cs with
  | nil => exact ⟨[], rfl, rfl⟩
  | cons c cs ih =>
    obtain ⟨lines, split, text⟩ := ih
    rw [List.splitOnP_cons_eq_if_modifyHead, split, indented, ← text]
    by_cases is_ : c = '\n'
    · subst is_
      refine ⟨firstLine cs :: lines, by simp [firstLine], ?_⟩
      simp [firstLine]
    · refine ⟨lines, by simp [firstLine, is_], ?_⟩
      simp [firstLine, is_]

theorem intercalate_cons (between line : List Char) (lines : List (List Char)) :
    between.intercalate (line :: lines) = line ++ lines.flatMap (between ++ ·) := by
  induction lines generalizing line with
  | nil => simp
  | cons next lines ih =>
    rw [List.intercalate_cons_cons, ih, List.flatMap_cons, List.append_assoc, List.append_assoc]

theorem toList_indentLines (code : String) (n : Nat) : (indentLines code n).toList =
    margin n (firstLine code.toList) ++ indented n code.toList := by
  obtain ⟨lines, split, text⟩ := splitOnP_lines n code.toList
  have padded (line : List Char) :
      (if Text.isAllBlank (String.ofList line) = true then String.ofList line
        else blanks n ++ String.ofList line).toList = margin n line ++ line := by
    rw [Text.isAllBlank, String.toList_ofList, margin, blanks]
    split <;> simp
  rw [indentLines, splitOn_lineFeed, String.toList_intercalate, split, ← text]
  simp only [List.map_map, List.map_cons, Function.comp_def, padded]
  rw [show "\n".toList = ['\n'] from rfl, intercalate_cons, List.flatMap_map, List.append_assoc]
  rfl

theorem firstLine_append (ended : '\n' ∈ cs) (code : List Char) :
    firstLine (cs ++ code) = firstLine cs := by
  induction cs with
  | nil => cases ended
  | cons c cs ih =>
    by_cases is_ : c = '\n'
    · simp [firstLine, is_]
    · have later := ih ((List.mem_cons.1 ended).resolve_left (Ne.symm is_))
      simpa [firstLine, is_] using later

/-- Where a visible character follows, a line of blanks only has ended before. -/
theorem margin_append (visible : Text.isBlank d = false) (cs code : List Char) :
    margin n (firstLine (cs ++ d :: code)) =
      if '\n' ∈ cs then margin n (firstLine cs) else List.replicate n ' ' := by
  have apart : d ≠ '\n' := by rintro rfl; exact absurd visible (by decide)
  split
  · rename_i ended
    rw [firstLine_append ended]
  · rename_i single
    have whole : firstLine (cs ++ d :: code) = cs ++ d :: firstLine code := by
      rw [firstLine, List.takeWhile_append_of_pos, List.takeWhile_cons_of_pos (by simpa using apart)]
      intro c there
      simpa using ne_of_mem_of_not_mem there single
    rw [whole, margin, if_neg (by simp [visible])]

theorem indented_append (visible : Text.isBlank d = false) (cs code : List Char) :
    indented n (cs ++ d :: code) = continued n cs ++ indented n (d :: code) := by
  induction cs with
  | nil => rfl
  | cons c cs ih =>
    rw [List.cons_append, indented, continued, margin_append visible, ih]
    split
    · rw [List.cons_append, List.append_assoc]
    · rfl

theorem continued_append (visible : Text.isBlank d = false) (cs code : List Char) :
    continued n (cs ++ d :: code) = continued n cs ++ continued n (d :: code) := by
  induction cs with
  | nil => rfl
  | cons c cs ih =>
    have margins : (if '\n' ∈ cs ++ d :: code then margin n (firstLine (cs ++ d :: code))
        else List.replicate n ' ') =
        if '\n' ∈ cs then margin n (firstLine cs) else List.replicate n ' ' := by
      rw [margin_append visible]
      by_cases ended : '\n' ∈ cs <;> simp [ended]
    rw [List.cons_append, continued, continued, ih, margins]
    split
    · rw [List.cons_append, List.append_assoc]
    · rfl

/-- A piece without line feeds stays as it is. -/
theorem continued_single (single : '\n' ∉ cs) : continued n cs = cs := by
  induction cs with
  | nil => rfl
  | cons c cs ih =>
    obtain ⟨here, later⟩ := List.ne_and_not_mem_of_not_mem_cons single
    rw [continued, if_neg (Ne.symm here), ih later]

theorem continued_single_append (single : '\n' ∉ cs) (code : List Char) :
    continued n (cs ++ code) = cs ++ continued n code := by
  induction cs with
  | nil => rfl
  | cons c cs ih =>
    obtain ⟨here, later⟩ := List.ne_and_not_mem_of_not_mem_cons single
    rw [List.cons_append, continued, if_neg (Ne.symm here), ih later, List.cons_append]

/-- Pieces in a list go on with a comma or with the closing brace. -/
theorem continued_listed (n : Nat) (items : List (List Char)) :
    continued n (items.flatMap ([',', ' '] ++ ·) ++ ['\x7d']) =
      (items.map (continued n)).flatMap ([',', ' '] ++ ·) ++ ['\x7d'] := by
  induction items with
  | nil => rfl
  | cons item items ih =>
    obtain ⟨d, others, rest, visible⟩ : ∃ d others,
        items.flatMap ([',', ' '] ++ ·) ++ ['\x7d'] = d :: others ∧ Text.isBlank d = false := by
      cases items with
      | nil => exact ⟨_, _, rfl, by decide⟩
      | cons next items => exact ⟨_, _, rfl, by decide⟩
    have comma : '\n' ∉ [',', ' '] := by decide
    rw [List.flatMap_cons, List.append_assoc, List.append_assoc, continued_single_append comma, rest,
      continued_append visible, ← rest, ih, List.map_cons, List.flatMap_cons, List.append_assoc,
      List.append_assoc]

theorem firstLine_feed (cs code : List Char) : firstLine (cs ++ '\n' :: code) = firstLine cs := by
  induction cs with
  | nil => simp [firstLine]
  | cons c cs ih =>
    by_cases is_ : c = '\n'
    · simp [firstLine, is_]
    · simpa [firstLine, is_] using ih

end Margins

/-- Whether the first line of a text does not consist of blanks, and neither does the end of its
last line. -/
def Framed (line : String) : Prop :=
  (firstLine line.toList).all Text.isBlank = false ∧
    ∃ front d, line.toList = front ++ [d] ∧ Text.isBlank d = false

/-- A line of a program, which may hold line feeds of its own, is indented as a piece of text. -/
theorem indentLines_cons {line : String} (framed : Framed line) (lines : List String) (n : Nat) :
    indentLines (textOfLines (line :: lines)) n =
      blanks n ++ String.ofList (continued n line.toList) ++ "\n"
        ++ indentLines (textOfLines lines) n := by
  obtain ⟨filled, front, d, chars, visible⟩ := framed
  have apart : d ≠ '\n' := by rintro rfl; exact absurd visible (by decide)
  have whole : (textOfLines (line :: lines)).toList =
      line.toList ++ '\n' :: (textOfLines lines).toList := by
    simp [textOfLines, String.join_cons]
  have margins : margin n (firstLine line.toList) = (blanks n).toList := by
    rw [margin, if_neg (by rw [filled]; nofun), blanks, String.toList_ofList]
  have ends : continued n line.toList = continued n front ++ [d] := by
    rw [chars, continued_append visible, continued, if_neg apart, continued]
  apply String.toList_injective
  simp only [String.toList_append, toList_indentLines, whole, firstLine_feed, margins, ends,
    String.toList_ofList]
  rw [chars, List.append_assoc, List.singleton_append, indented_append visible, indented,
    if_neg apart, indented, if_pos rfl]
  simp

/-- Whether a text is one line with a visible end. -/
def solid (line : String) : Bool :=
  line.toList.all (· ≠ '\n') && line.toList.getLast?.any (!Text.isBlank ·)

theorem not_mem_of_solid {line : String} (h : solid line = true) : '\n' ∉ line.toList := fun there =>
  by simpa using List.all_eq_true.1 (Bool.and_eq_true_iff.1 h).1 _ there

theorem Framed.of_solid {line : String} (h : solid line = true) : Framed line := by
  obtain ⟨d, last, visible⟩ := (Option.any_eq_true _ _).1 (Bool.and_eq_true_iff.1 h).2
  have visible : Text.isBlank d = false := by simpa using visible
  obtain ⟨front, chars⟩ := List.getLast?_eq_some_iff.1 last
  have whole : firstLine line.toList = line.toList :=
    List.takeWhile_eq_self_iff.2 (List.all_eq_true.1 (Bool.and_eq_true_iff.1 h).1)
  refine ⟨?_, front, d, chars, visible⟩
  rw [whole, chars]
  simp [visible]

theorem indentLines_solid {lines : List String} (all : ∀ line ∈ lines, solid line = true) (n : Nat) :
    indentLines (textOfLines lines) n =
      String.join (lines.map fun line => blanks n ++ line ++ "\n") := by
  induction lines with
  | nil =>
    apply String.toList_injective
    rw [toList_indentLines]
    rfl
  | cons line lines ih =>
    obtain ⟨here, later⟩ := List.forall_mem_cons.1 all
    rw [indentLines_cons (.of_solid here), continued_single (not_mem_of_solid here), ih later,
      String.ofList_toList, List.map_cons, String.join_cons]

/-! ## Rows of a program -/

/-- What stands in a row: text of its own, or a literal. -/
inductive Span where
  | own (text : String)
  /-- A literal whose source is written as it is. -/
  | kept (l : Literal)
  /-- An argument of an external program, the further lines of whose source are indented. -/
  | argument (l : Literal)

namespace Span

/-- The text of a span in a row with a margin. -/
def text (margin : Nat) : Span → String
  | own t => t
  | kept l => l.source
  | argument l => String.ofList (continued margin l.source.toList)

/-- Whether a span is a literal. -/
def isLiteral : Span → Bool
  | own _ => false
  | kept _ | argument _ => true

/-- Spans with commas between them. -/
def listed (spans : List Span) : List Span := spans.intersperse (.own ", ")

theorem join_listed (margin : Nat) : ∀ spans,
    String.join ((listed spans).map (text margin)) = ", ".intercalate (spans.map (text margin))
  | [] => rfl
  | [s] => by simp [listed, String.join_cons]
  | s :: t :: spans => by
    have others := join_listed margin (t :: spans)
    rw [listed] at others ⊢
    rw [List.intersperse_cons_cons, List.map_cons, List.map_cons, String.join_cons,
      String.join_cons, others, List.map_cons, List.map_cons, List.map_cons,
      String.intercalate_cons_cons, String.append_assoc]
    rfl

theorem filter_listed : ∀ spans, (listed spans).filter isLiteral = spans.filter isLiteral
  | [] => rfl
  | [_] => rfl
  | s :: t :: spans => by
    have others := filter_listed (t :: spans)
    rw [listed] at others ⊢
    rw [List.intersperse_cons_cons, List.filter_cons, List.filter_cons_of_neg (by decide), others,
      List.filter_cons (x := s)]

end Span

/-- A row of a program, and how much further in it begins than the whole. -/
structure Row where
  depth : Nat
  spans : List Span

namespace Row

/-- The text of a row, when the whole is indented. -/
def text (indent : Nat) (r : Row) : String :=
  blanks (indent + r.depth) ++ String.join (r.spans.map (Span.text (indent + r.depth))) ++ "\n"

/-- The literals of a row. -/
def shown (r : Row) : List Span := r.spans.filter Span.isLiteral

/-- A row further in. -/
def deeper (k : Nat) (r : Row) : Row := { r with depth := k + r.depth }

theorem text_deeper (indent k : Nat) (r : Row) : (r.deeper k).text indent = r.text (indent + k) := by
  rw [text, text, deeper, Nat.add_assoc]

@[simp] theorem shown_deeper (k : Nat) (r : Row) : (r.deeper k).shown = r.shown := rfl

end Row

mutual

/-- The literals of a step, in their order. -/
def Step.shown : Step → List Span
  | .declare _ value => [.kept value]
  | .call _ args => args.map .kept
  | .command _ args => args.map .argument
  | .loop source body => .kept source :: stepsShown body
  | .block body => stepsShown body

/-- The literals of steps, in their order. -/
def stepsShown : List Step → List Span
  | [] => []
  | s :: ss => s.shown ++ stepsShown ss

end

/-- Whether a text, for every indentation, consists of the same rows, which show some literals. -/
def Laid (text : Nat → String) (shown : List Span) : Prop :=
  ∃ rows : List Row, (∀ indent, text indent = String.join (rows.map (Row.text indent))) ∧
    rows.flatMap Row.shown = shown

namespace Laid

variable {text text' : Nat → String} {shown shown' : List Span}

theorem nil : Laid (fun _ => "") [] := ⟨[], fun _ => rfl, rfl⟩

theorem append (h : Laid text shown) (h' : Laid text' shown') :
    Laid (fun indent => text indent ++ text' indent) (shown ++ shown') := by
  obtain ⟨rows, same, all⟩ := h
  obtain ⟨rows', same', all'⟩ := h'
  refine ⟨rows ++ rows', fun indent => ?_, by rw [List.flatMap_append, all, all']⟩
  simp only [same, same', List.map_append, String.join_append]

theorem row (r : Row) : Laid (fun indent => r.text indent) r.shown :=
  ⟨[r], fun indent => by simp [String.join_cons], by simp⟩

theorem deeper (k : Nat) (h : Laid text shown) : Laid (fun indent => text (indent + k)) shown := by
  obtain ⟨rows, same, all⟩ := h
  refine ⟨rows.map (Row.deeper k), fun indent => ?_, ?_⟩
  · simp only [same, List.map_map, Function.comp_def, Row.text_deeper]
  · rw [List.flatMap_map]
    simpa using all

/-- A row of the program's own text. -/
theorem own (depth : Nat) (t : String) :
    Laid (fun indent => blanks (indent + depth) ++ t ++ "\n") [] := by
  simpa [Row.text, Row.shown, Span.isLiteral, Span.text, String.join_cons] using
    row ⟨depth, [.own t]⟩

/-- Lines of the program's own text. -/
theorem solid (lines : List String) :
    Laid (fun indent => String.join (lines.map fun line => blanks indent ++ line ++ "\n")) [] := by
  induction lines with
  | nil => exact nil
  | cons line lines ih =>
    simpa only [List.map_cons, String.join_cons, Nat.add_zero, List.nil_append] using
      (own 0 line).append ih

theorem congr (h : Laid text shown) (same : ∀ indent, text' indent = text indent) :
    Laid text' shown := funext same ▸ h

end Laid

theorem blanks_add (n k : Nat) : blanks (n + k) = blanks n ++ blanks k := by
  rw [blanks, List.replicate_add, String.ofList_append]
  rfl

theorem shown_listed (depth : Nat) (opens closes : String) (spans : List Span) :
    Row.shown ⟨depth, .own opens :: Span.listed spans ++ [.own closes]⟩ =
      spans.filter Span.isLiteral := by
  simp [Row.shown, Span.isLiteral, Span.filter_listed]

theorem declare_laid (naming : Naming) (name : String) (value : Literal) :
    Laid (fun indent => stepSource naming indent (.declare name value)) [.kept value] := by
  have text (indent : Nat) : stepSource naming indent (.declare name value) =
      blanks indent ++ "local " ++ name ++ " = " ++ value.source ++ "\n" := rfl
  refine (Laid.row ⟨0, [.own ("local " ++ name ++ " = "), .kept value]⟩).congr fun indent => ?_
  simp only [text, Row.text, Span.text, List.map_cons, List.map_nil, String.join_cons,
    String.join_nil, String.append_assoc, String.append_empty, Nat.add_zero]

theorem call_laid (naming : Naming) (target : String) (args : List Literal) :
    Laid (fun indent => stepSource naming indent (.call target args)) (args.map .kept) := by
  have text (indent : Nat) : stepSource naming indent (.call target args) =
      blanks indent ++ naming.result ++ " = " ++ target ++ "(" ++ argumentsSource args ++ ")\n" := rfl
  have kept : (args.map Span.kept).filter Span.isLiteral = args.map .kept :=
    List.filter_eq_self.2 (by simp [Span.isLiteral])
  have sources (indent : Nat) : ", ".intercalate ((args.map Span.kept).map (Span.text indent)) =
      argumentsSource args := by
    rw [List.map_map]
    rfl
  rw [← kept, ← shown_listed 0 (naming.result ++ " = " ++ target ++ "(") ")"]
  refine (Laid.row _).congr fun indent => ?_
  simp only [text, Row.text, Span.text, List.map_cons, List.map_nil, List.map_append,
    String.join_cons, String.join_append, String.join_nil, Span.join_listed, sources,
    String.append_assoc, String.append_empty, Nat.add_zero, List.cons_append]
  rfl

/-- The text that runs an external program has its arguments in its second line. -/
theorem commandSource_lines : ∃ lines, (∀ line ∈ lines, solid line = true) ∧
    ∀ argv, commandSource argv = textOfLines ("do" :: ("  local argv = " ++ argv) :: lines) :=
  ⟨_, by decide +kernel, fun _ => rfl⟩

/-- The line with the arguments of an external program, where it is indented. -/
theorem continued_argv (n : Nat) (program : String) (args : List Literal) :
    String.ofList (continued n ("  local argv = " ++
      Literal.tableSource (Lua.quote program :: args.map Literal.source)).toList) =
      "  local argv = \x7b" ++ (", ".intercalate
        ((.own (Lua.quote program) :: args.map Span.argument).map (Span.text n)) ++ "\x7d") := by
  have single : '\n' ∉ (Lua.quote program).toList := fun there =>
    (Lua.Token.quote_unbroken program '\n' there).1 rfl
  apply String.toList_injective
  simp only [Literal.tableSource, String.toList_ofList, String.toList_append,
    String.toList_intercalate, List.map_cons, List.map_map, Function.comp_def, Span.text,
    show ", ".toList = [',', ' '] from rfl, show "\x7d".toList = ['\x7d'] from rfl,
    intercalate_cons]
  have unbroken : '\n' ∉ "  local argv = ".toList := by decide
  have brace : '\n' ∉ "\x7b".toList := by decide
  have opens : "  local argv = \x7b".toList = "  local argv = ".toList ++ "\x7b".toList := by decide
  have items := continued_listed n (args.map fun a => a.source.toList)
  rw [List.map_map] at items
  rw [continued_single_append unbroken,
    List.append_assoc, List.append_assoc,
    continued_single_append brace, continued_single_append single, items, opens]
  simp only [List.append_assoc, Function.comp_def]

theorem command_laid (naming : Naming) (program : String) (args : List Literal) :
    Laid (fun indent => stepSource naming indent (.command program args)) (args.map .argument) := by
  obtain ⟨lines, all, source⟩ := commandSource_lines
  have text (indent : Nat) : stepSource naming indent (.command program args) =
      indentLines (commandSource
        (Literal.tableSource (Lua.quote program :: args.map Literal.source))) indent := rfl
  have literals : (Span.own (Lua.quote program) :: args.map .argument).filter Span.isLiteral =
      args.map .argument :=
    (List.filter_cons_of_neg Bool.false_ne_true).trans (List.filter_eq_self.2 (by simp [Span.isLiteral]))
  have framed : Framed ("  local argv = " ++
      Literal.tableSource (Lua.quote program :: args.map Literal.source)) := by
    refine ⟨?_, "  local argv = \x7b".toList ++
      (", ".intercalate (Lua.quote program :: args.map Literal.source)).toList, '\x7d',
      by simp [Literal.tableSource], by decide⟩
    have unbroken : '\n' ∉ "  local argv = ".toList := by decide
    have opens : ∀ c ∈ "  local argv = ".toList, decide (c ≠ '\n') = true := fun c there => by
      simpa using ne_of_mem_of_not_mem there unbroken
    rw [firstLine, String.toList_append, List.takeWhile_append_of_pos opens, List.all_append,
      show "  local argv = ".toList.all Text.isBlank = false by decide, Bool.false_and]
  have rows := (Laid.own 0 "do").append ((Laid.row ⟨0, .own "  local argv = \x7b" ::
    Span.listed (.own (Lua.quote program) :: args.map .argument) ++ [.own "\x7d"]⟩).append
      (Laid.solid lines))
  rw [shown_listed, literals, List.nil_append, List.append_nil] at rows
  refine rows.congr fun indent => ?_
  rw [text, source, indentLines_cons (.of_solid (by decide)), indentLines_cons framed,
    indentLines_solid all, continued_argv, continued_single (by decide), Row.text]
  simp only [Span.text, List.map_cons, List.map_nil, List.map_append,
    String.join_cons, String.join_append, String.join_nil, Span.join_listed,
    String.append_assoc, String.append_empty, Nat.add_zero, List.cons_append, String.ofList_toList]

theorem loop_laid (naming : Naming) {source : Literal} {body : List Step}
    (h : Laid (fun indent => stepsSource naming indent body) (stepsShown body)) :
    Laid (fun indent => stepSource naming indent (.loop source body))
      (.kept source :: stepsShown body) := by
  have text (indent : Nat) : stepSource naming indent (.loop source body) =
      blanks indent ++ "do\n"
        ++ blanks indent ++ "  local __items = " ++ source.source ++ "\n"
        ++ blanks indent ++ "  for " ++ naming.index ++ " = 0, #__items - 1 do\n"
        ++ blanks indent ++ "    local " ++ naming.item ++ " = __items[" ++ naming.index ++ " + 1]\n"
        ++ stepsSource naming (indent + 4) body
        ++ blanks indent ++ "  end\n" ++ blanks indent ++ "end\n" := rfl
  have head := (Laid.own 0 "do").append (.row ⟨2, [.own "local __items = ", .kept source]⟩)
  have binds := (Laid.own 2 ("for " ++ naming.index ++ " = 0, #__items - 1 do")).append
    (.own 4 ("local " ++ naming.item ++ " = __items[" ++ naming.index ++ " + 1]"))
  have ends := (Laid.own 2 "end").append (.own 0 "end")
  have all := head.append (binds.append ((h.deeper 4).append ends))
  have shown : Row.shown ⟨2, [.own "local __items = ", .kept source]⟩ = [.kept source] := rfl
  simp only [shown, List.nil_append, List.append_nil, List.singleton_append] at all
  refine all.congr fun indent => ?_
  simp only [text, Row.text, Span.text, List.map_cons, List.map_nil, String.join_cons,
    String.join_nil, blanks_add, String.append_assoc, String.append_empty, Nat.add_zero]
  rfl

theorem block_laid (naming : Naming) {body : List Step}
    (h : Laid (fun indent => stepsSource naming indent body) (stepsShown body)) :
    Laid (fun indent => stepSource naming indent (.block body)) (stepsShown body) := by
  have text (indent : Nat) : stepSource naming indent (.block body) =
      blanks indent ++ "do\n" ++ stepsSource naming (indent + 2) body ++ blanks indent ++ "end\n" :=
    rfl
  have all := (Laid.own 0 "do").append ((h.deeper 2).append (.own 0 "end"))
  simp only [List.nil_append, List.append_nil] at all
  refine all.congr fun indent => ?_
  simp only [text, String.append_assoc, Nat.add_zero]
  rfl

mutual

theorem step_laid (naming : Naming) :
    ∀ s, Laid (fun indent => stepSource naming indent s) s.shown
  | .declare name value => declare_laid naming name value
  | .call target args => call_laid naming target args
  | .command program args => command_laid naming program args
  | .loop _ body => loop_laid naming (steps_laid naming body)
  | .block body => block_laid naming (steps_laid naming body)

theorem steps_laid (naming : Naming) :
    ∀ steps, Laid (fun indent => stepsSource naming indent steps) (stepsShown steps)
  | [] => .nil
  | s :: ss => (step_laid naming s).append (steps_laid naming ss)

end

/-! ## Sources in the text -/

/-- A literal is part of another: it is the whole of it, or within one of its items or entries. -/
inductive Literal.Contains : Literal → Literal → Prop where
  | self {l} : Contains l l
  | seq {items l l'} : l ∈ items → Contains l l' → Contains (.seq items) l'
  | map {entries key l l'} : (key, l) ∈ entries → Contains l l' → Contains (.map entries) l'

theorem infix_flatMap {α β : Type} {a : α} {as : List α} (there : a ∈ as) (f : α → List β) :
    f a <:+: as.flatMap f := by
  rw [List.flatMap_def]
  exact List.infix_of_mem_flatten (List.mem_map_of_mem there)

theorem infix_intercalate (between : List Char) {item : List Char} {items : List (List Char)}
    (there : item ∈ items) : item <:+: between.intercalate items := by
  cases items with
  | nil => cases there
  | cons first items =>
    rw [intercalate_cons]
    rcases List.mem_cons.1 there with rfl | there
    · exact (List.prefix_append _ _).isInfix
    · have inside : between ++ item <:+: items.flatMap (between ++ ·) :=
        infix_flatMap there (between ++ ·)
      exact ((List.suffix_append _ _).isInfix.trans inside).trans (List.suffix_append _ _).isInfix

theorem Literal.infix_tableSource {field : String} {fields : List String} (there : field ∈ fields) :
    field.toList <:+: (tableSource fields).toList := by
  rw [tableSource, String.toList_append, String.toList_append, String.toList_intercalate]
  have inside := infix_intercalate ", ".toList (List.mem_map_of_mem (f := String.toList) there)
  exact inside.trans (List.infix_append _ _ _)

theorem Literal.mem_sources {l : Literal} {items : List Literal} (there : l ∈ items) :
    l.source ∈ sources items := by
  induction items with
  | nil => cases there
  | cons first items ih =>
    rcases List.mem_cons.1 there with rfl | there
    · exact .head _
    · exact .tail _ (ih there)

theorem Literal.mem_fieldSources {key : String} {l : Literal} {entries : List (String × Literal)}
    (there : (key, l) ∈ entries) : keySource key ++ " = " ++ l.source ∈ fieldSources entries := by
  induction entries with
  | nil => cases there
  | cons first entries ih =>
    rcases List.mem_cons.1 there with rfl | there
    · exact .head _
    · exact .tail _ (ih there)

/-- The source of a literal is part of the source of what contains it. -/
theorem Literal.Contains.infix_source {l l' : Literal} (h : l.Contains l') :
    l'.source.toList <:+: l.source.toList := by
  induction h with
  | self => exact List.infix_rfl
  | seq there _ ih => exact ih.trans (infix_tableSource (mem_sources there))
  | map there _ ih =>
    refine ih.trans (.trans ?_ (infix_tableSource (mem_fieldSources there)))
    rw [String.toList_append]
    exact (List.suffix_append _ _).isInfix

/-- Indenting adds to a text in front of its lines only. -/
theorem continued_infix {n : Nat} {cs code : List Char} (single : '\n' ∉ cs)
    (h : cs <:+: code) : cs <:+: continued n code := by
  obtain ⟨front, back, rfl⟩ := h
  induction front with
  | nil =>
    rw [List.nil_append, continued_single_append single]
    exact (List.prefix_append _ _).isInfix
  | cons c front ih =>
    rw [List.cons_append, List.cons_append, continued]
    split
    · exact ih.trans ((List.suffix_append _ _).isInfix.trans (List.suffix_cons _ _).isInfix)
    · exact ih.trans (List.suffix_cons _ _).isInfix

namespace Span

/-- Whether the source of a literal in a span is written as it is at any margin: it is not part of
an argument of an external program, or takes one line. -/
def Keeps : Span → Literal → Prop
  | own _, _ => False
  | kept l, l' => l.Contains l'
  | argument l, l' => l.Contains l' ∧ '\n' ∉ l'.source.toList

theorem Keeps.infix_text {s : Span} {l : Literal} (h : s.Keeps l) (margin : Nat) :
    l.source.toList <:+: (s.text margin).toList := by
  cases s with
  | own t => cases h
  | kept l' => exact h.infix_source
  | argument l' =>
    rw [text, String.toList_ofList]
    exact continued_infix h.2 h.1.infix_source

end Span

theorem infix_join {part : String} {parts : List String} (there : part ∈ parts) :
    part.toList <:+: (String.join parts).toList := by
  rw [String.toList_join]
  exact infix_flatMap there String.toList

/-- A span is part of its row. -/
theorem Row.infix_text {r : Row} {s : Span} (there : s ∈ r.shown) (indent : Nat) :
    (s.text (indent + r.depth)).toList <:+: (r.text indent).toList := by
  have inside : s ∈ r.spans := (List.mem_filter.1 there).1
  rw [text, String.toList_append, String.toList_append]
  exact (infix_join (List.mem_map_of_mem inside)).trans (List.infix_append _ _ _)

/-- At every indentation the text of steps has the same rows, which begin with more or fewer blanks.
They hold each literal of the steps, in order, and its source as it is; only in the arguments of
external programs, lines after the first are indented as well. -/
theorem literals_verbatim (naming : Naming) (steps : List Step) :
    (∃ rows : List Row,
      (∀ indent, stepsSource naming indent steps = String.join (rows.map (Row.text indent))) ∧
      rows.flatMap Row.shown = stepsShown steps) ∧
    ∀ indent, ∀ s ∈ stepsShown steps, ∀ l, s.Keeps l →
      l.source.toList <:+: (stepsSource naming indent steps).toList := by
  have laid := steps_laid naming steps
  refine ⟨laid, fun indent s there l keeps => ?_⟩
  obtain ⟨rows, same, all⟩ := laid
  rw [← all] at there
  obtain ⟨r, mem, there⟩ := List.mem_flatMap.1 there
  rw [show stepsSource naming indent steps = _ from same indent]
  calc l.source.toList
    _ <:+: (s.text (indent + r.depth)).toList := keeps.infix_text _
    _ <:+: (r.text indent).toList := Row.infix_text there indent
    _ <:+: _ := infix_join (List.mem_map_of_mem mem)

namespace Reindented

/-- A step with an argument of two lines. -/
def step : Step := .command "echo" [.expr "[[a\nb]]"]

/-- The second line of the argument moves with the program. -/
theorem argument_changes : ¬"[[a\nb]]".toList <:+: (stepsSource {} 2 [step]).toList := by
  have text : stepsSource {} 2 [step] = indentLines (commandSource
    (Literal.tableSource [Lua.quote "echo", "[[a\nb]]"])) 2 ++ "" := rfl
  rw [text, String.append_empty, toList_indentLines]
  simp only [commandSource, textOfLines, List.map_cons, List.map_nil, String.toList_join,
    String.toList_append, List.flatMap_cons, List.flatMap_nil, Literal.tableSource,
    String.toList_intercalate, Lua.quote, String.toList_ofList]
  decide +kernel

end Reindented

end Tasklang
