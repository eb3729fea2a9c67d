import Tasklang.Host.Glob
import Tasklang.Proofs.Components

/-! # What patterns match

A search for a pattern starts at the root and enters names one after another: those that a piece
without wildcards is, the names of entries, and the two names of a directory itself and of the one
above it where a piece starts with a dot. So all that it finds is absolute, and it goes up only where a
piece of the pattern does. An escaped text matches itself only.
-/

namespace Tasklang

open Tasklang.Path

/-- Whether every entry of a tree has a name. -/
def FileSystem.Named (fs : FileSystem) : Prop :=
  ∀ place, ∀ name ∈ fs.children place, IsName name

namespace Glob

/-! ## Pieces -/

/-- Whether the text of a piece matches the name of the directory above. -/
def leadsUp (text : String) : Bool :=
  (piece? text).any fun p => p.startsWithDot && p.matchesName ".."

theorem insideBrackets_subset {cs inside rest : List Char}
    (found : insideBrackets cs = some (inside, rest)) : rest ⊆ cs := by
  cases cs with
  | nil => cases found
  | cons first cs =>
    rw [insideBrackets] at found
    split at found
    next closing rest' dropped =>
      cases found
      have behind : closing :: rest <:+ cs := dropped ▸ List.dropWhile_suffix _
      exact fun c there => .tail _ (behind.subset (.tail _ there))
    next => cases found

/-- A character that a token stands for is written in the piece. -/
theorem tokens_char {fuel : Nat} {cs : List Char} {ts : List Token} {c : Char}
    (made : tokens fuel cs = some ts) (there : .char c ∈ ts) : c ∈ cs := by
  fun_induction tokens fuel cs generalizing ts with
  | case1 | case2 =>
    cases made
    cases there
  | case4 => cases made
  | case3 n r ih | case5 n r _ ih =>
    obtain ⟨ts', others, rfl⟩ := Option.map_eq_some_iff.1 made
    exact .tail _ (ih others (List.mem_of_ne_of_mem (by simp) there))
  | case6 n r ih =>
    obtain ⟨⟨inside, rest⟩, closed, made⟩ := Option.bind_eq_some_iff.1 made
    obtain ⟨ts', others, same⟩ := Option.bind_eq_some_iff.1 made
    cases same
    exact .tail _ (.tail _ (insideBrackets_subset closed
      (ih rest others (List.mem_of_ne_of_mem (by simp) there))))
  | case7 n r _ ih =>
    obtain ⟨⟨inside, rest⟩, closed, made⟩ := Option.bind_eq_some_iff.1 made
    obtain ⟨ts', others, same⟩ := Option.bind_eq_some_iff.1 made
    cases same
    exact .tail _ (insideBrackets_subset closed
      (ih rest others (List.mem_of_ne_of_mem (by simp) there)))
  | case8 n c' r _ _ _ _ _ ih =>
    obtain ⟨ts', others, rfl⟩ := Option.map_eq_some_iff.1 made
    rcases List.mem_cons.1 there with same | there
    · cases same
      exact .head _
    · exact .tail _ (ih others there)

theorem mem_of_mapM {α β : Type} {f : α → Option β} {as : List α} {bs : List β}
    (is_ : as.mapM f = some bs) : ∀ b ∈ bs, ∃ a ∈ as, f a = some b := by
  induction as generalizing bs with
  | nil =>
    cases is_
    exact fun _ there => nomatch there
  | cons a as ih =>
    rw [List.mapM_cons] at is_
    obtain ⟨b, first, others⟩ := Option.bind_eq_some_iff.1 is_
    obtain ⟨bs', rest, same⟩ := Option.bind_eq_some_iff.1 others
    cases same
    exact List.forall_mem_cons.2 ⟨⟨a, .head _, first⟩, fun b there =>
      (ih rest b there).imp fun _ found => ⟨.tail _ found.1, found.2⟩⟩

theorem chars_tokens {ts : List Token} {cs : List Char} (is_ : ts.mapM Token.char? = some cs) :
    ts = cs.map .char := by
  induction ts generalizing cs with
  | nil =>
    cases is_
    rfl
  | cons t ts ih =>
    rw [List.mapM_cons] at is_
    obtain ⟨c, first, others⟩ := Option.bind_eq_some_iff.1 is_
    obtain ⟨cs', rest, same⟩ := Option.bind_eq_some_iff.1 others
    cases same
    cases t with
    | char d =>
      cases first
      rw [ih rest, List.map_cons]
    | _ => cases first

theorem literal_tokens {p : Piece} {name : String} (is_ : p.literal? = some name) :
    p = .name (name.toList.map .char) := by
  cases p with
  | directories => cases is_
  | name ts =>
    obtain ⟨cs, chars, rfl⟩ := Option.map_eq_some_iff.1 is_
    rw [chars_tokens chars, String.toList_ofList]

section Level

variable {text : String} {p : Piece} (is_ : piece? text = some p)

include is_

theorem literal_free (free : '/' ∉ text.toList) {name : String} (literal : p.literal? = some name) :
    '/' ∉ name.toList := by
  intro there
  cases literal_tokens literal
  unfold piece? at is_
  split at is_
  · cases is_
  · obtain ⟨ts, made, same⟩ := Option.map_eq_some_iff.1 is_
    cases same
    exact free (tokens_char made (List.mem_map_of_mem there))

theorem not_leadsUp (level : leadsUp text = false) :
    p.startsWithDot = true → p.matchesName ".." = false := by
  intro dotted
  rw [leadsUp, is_, Option.any_some, dotted, Bool.true_and] at level
  exact level

theorem literal_level (level : leadsUp text = false) : p.literal? ≠ some ".." := by
  intro literal
  cases literal_tokens literal
  cases not_leadsUp is_ level rfl

end Level

/-! ## Escaped texts -/

/-- How a character is written so that it matches itself only. -/
def escapeChar (c : Char) : List Char :=
  if c = '?' ∨ c = '*' ∨ c = '[' ∨ c = ']' then ['[', c, ']'] else [c]

/-- The token of an escaped character. -/
def exactly (c : Char) : Token :=
  if c = '?' ∨ c = '*' ∨ c = '[' ∨ c = ']' then .within [(c, c)] else .char c

theorem escape_eq (text : String) : escape text = String.ofList (text.toList.flatMap escapeChar) :=
  rfl

theorem tokens_escape {fuel : Nat} {cs : List Char} (enough : cs.length ≤ fuel) :
    tokens fuel (cs.flatMap escapeChar) = some (cs.map exactly) := by
  induction cs generalizing fuel with
  | nil => cases fuel <;> rfl
  | cons c cs ih =>
    obtain ⟨fuel, rfl⟩ : ∃ n, fuel = n + 1 :=
      Nat.exists_eq_add_one.2 (Nat.lt_of_lt_of_le (Nat.succ_pos _) enough)
    have onwards := ih (Nat.le_of_succ_le_succ enough)
    rw [List.flatMap_cons, List.map_cons, escapeChar, exactly]
    by_cases special : c = '?' ∨ c = '*' ∨ c = '[' ∨ c = ']'
    · rw [if_pos special, if_pos special]
      rcases special with rfl | rfl | rfl | rfl <;>
        simp [tokens, insideBrackets, ranges, onwards]
    · rw [if_neg special, if_neg special]
      simp only [not_or] at special
      rw [List.singleton_append, tokens]
      · rw [onwards]
        rfl
      all_goals simp [special]

theorem exactly_matches (c d : Char) : (exactly c).matchesChar d = true ↔ d = c := by
  rw [exactly]
  split
  · simp only [Token.matchesChar, inRanges, List.any_cons, List.any_nil, Bool.or_false,
      Bool.and_eq_true, decide_eq_true_eq]
    constructor
    · intro both
      exact Char.le_antisymm both.2 both.1
    · intro same
      exact same ▸ ⟨Char.le_refl _, Char.le_refl _⟩
  · exact beq_iff_eq

theorem matchesName_exactly {cs ds : List Char} :
    matchesName (cs.map exactly) ds = true ↔ ds = cs := by
  induction cs generalizing ds with
  | nil => cases ds <;> simp [matchesName]
  | cons c cs ih =>
    have token : exactly c ≠ .anyText := by
      unfold exactly
      split <;> nofun
    rw [List.map_cons]
    cases ds with
    | nil => rw [matchesName] <;> simp [token]
    | cons d ds =>
      rw [matchesName, Bool.and_eq_true, exactly_matches, ih, List.cons.injEq]
      exact token

theorem length_escaped (cs : List Char) : cs.length ≤ (cs.flatMap escapeChar).length := by
  induction cs with
  | nil => exact Nat.le_refl _
  | cons c cs ih =>
    have one : 1 ≤ (escapeChar c).length := by
      unfold escapeChar
      split <;> simp
    rw [List.flatMap_cons, List.length_append, List.length_cons]
    omega

/-- An escaped text leads up only where the text itself does. -/
theorem leadsUp_escape {text : String} (up : leadsUp (escape text) = true) : text = ".." := by
  unfold leadsUp piece? at up
  split at up
  · cases up
  · rw [escape_eq, String.toList_ofList,
      tokens_escape (Nat.le_succ_of_le (length_escaped text.toList))] at up
    simp only [Option.map_some, Option.any_some, Bool.and_eq_true, Piece.matchesName] at up
    exact String.toList_injective (matchesName_exactly.1 up.2).symm

theorem splitChars_escaped (cs : List Char) : Text.splitChars '/' (cs.flatMap escapeChar) =
    (Text.splitChars '/' cs).map fun piece => piece.flatMap escapeChar := by
  induction cs with
  | nil => rfl
  | cons c cs ih =>
    obtain ⟨piece, others, spelled⟩ :=
      List.exists_cons_of_ne_nil (Text.splitChars_ne_nil '/' cs)
    rw [spelled] at ih
    rw [List.flatMap_cons, escapeChar]
    split
    next special =>
      have other : c ≠ '/' := by
        rintro rfl
        simp at special
      simp [Text.splitChars, ih, spelled, other, escapeChar, special]
    next plain =>
      by_cases slash : c = '/'
      · simp [Text.splitChars, ih, spelled, slash]
      · simp [Text.splitChars, ih, spelled, slash, escapeChar, plain]

theorem pieces_escape (path : String) : pieces (escape path) = (pieces path).map escape := by
  rw [pieces, Text.split, escape_eq, String.toList_ofList, splitChars_escaped, pieces, Text.split,
    List.map_map, List.map_map]
  refine List.map_congr_left fun piece _ => ?_
  rw [Function.comp_apply, Function.comp_apply, escape_eq, String.toList_ofList]

theorem escape_absolute {path : String} (absolute : isAbsolute path = true) (rest : String) :
    isAbsolute (escape path ++ rest) = true := by
  obtain ⟨below, rfl⟩ := isAbsolute_iff.1 absolute
  refine isAbsolute_iff.2 ⟨escape below ++ rest, String.toList_injective ?_⟩
  simp [escape_eq, escapeChar]

/-! ## Search -/

/-- The names that a search may enter for one of some pieces. -/
inductive Enters (fs : FileSystem) (ps : List Piece) (name : String) : Prop
  | literal (p : Piece) (there : p ∈ ps) (is_ : p.literal? = some name)
  | special (p : Piece) (there : p ∈ ps) (dotted : p.startsWithDot = true)
      (one : name = ".." ∨ name = ".") (matches_ : p.matchesName name = true)
  | entry (place : Place) (there : name ∈ fs.children place)

section Found

variable {fs : FileSystem} {n : Nat} {path name found : String} {p : Piece} {ps all : List Piece}

theorem mem_insertName {names : List String} {other : String} :
    other ∈ insertName name names ↔ other = name ∨ other ∈ names := by
  induction names with
  | nil => exact List.mem_cons
  | cons first names ih =>
    rw [insertName]
    split
    next => exact List.mem_cons
    next => rw [List.mem_cons, ih, List.mem_cons, or_left_comm]

theorem of_mem_ordered {names : List String} (there : name ∈ names.foldr insertName []) :
    name ∈ names := by
  induction names with
  | nil => exact there
  | cons first names ih =>
    rcases mem_insertName.1 there with rfl | there
    · exact .head _
    · exact .tail _ (ih there)

theorem namesAt_entry (there : name ∈ namesAt fs path) : ∃ place, name ∈ fs.children place := by
  unfold namesAt at there
  split at there
  · exact ⟨_, of_mem_ordered there⟩
  · cases there

theorem below_found (there : found ∈ below fs (n + 1) path (p :: ps)) :
    ∃ name, Enters fs [p] name ∧
      (found ∈ below fs n (join path name) ps ∨ found ∈ at_ fs n (join path name) name p ps) := by
  simp only [below] at there
  split at there
  next name is_ =>
    rw [List.mem_ite_nil_right] at there
    exact ⟨name, .literal p (.head _) is_, .inl there.2⟩
  next =>
    rw [List.mem_ite_nil_right, List.mem_append] at there
    obtain ⟨-, there | there⟩ := there
    · obtain ⟨name, among, there⟩ := List.mem_flatMap.1 there
      rw [List.mem_ite_nil_right, List.mem_filter, List.mem_pair] at among
      obtain ⟨dotted, one, matches_⟩ := among
      exact ⟨name, .special p (.head _) dotted one matches_, .inl there⟩
    · obtain ⟨name, among, there⟩ := List.mem_flatMap.1 there
      obtain ⟨place, entry⟩ := namesAt_entry among
      exact ⟨name, .entry place entry, .inr there⟩

theorem at_found (there : found ∈ at_ fs (n + 1) path name p ps) :
    found = path ∨ (∃ qs, qs ⊆ p :: ps ∧ found ∈ below fs n path qs) ∨
      ∃ q qs, q :: qs ⊆ p :: ps ∧ found ∈ at_ fs n path name q qs := by
  cases p with
  | directories =>
    have later : ps.dropWhile (· == .directories) ⊆ ps := (List.dropWhile_suffix _).subset
    simp only [at_] at there
    split at there
    next none_ =>
      rw [List.mem_ite_nil_right, List.mem_cons, List.mem_ite_nil_right] at there
      refine there.2.imp_right fun deeper => .inl ⟨_, ?_, deeper.2⟩
      rw [none_]
      exact List.cons_subset_cons _ (List.nil_subset _)
    next q qs some_ =>
      rw [some_] at later
      rw [List.mem_append, List.mem_ite_nil_right, some_] at there
      rcases there with there | deeper
      · exact .inr (.inr ⟨q, qs, List.subset_cons_of_subset _ later, there⟩)
      · exact .inr (.inl ⟨_, List.cons_subset_cons _ later, deeper.2⟩)
  | name ts =>
    cases ps with
    | nil =>
      simp only [at_, List.mem_ite_nil_left, List.mem_singleton] at there
      exact .inl there.2
    | cons q qs =>
      simp only [at_, List.mem_ite_nil_left] at there
      exact .inr (.inl ⟨_, List.subset_cons_self _ _, there.2⟩)

theorem Enters.of (enters : Enters fs ps name) (within : ps ⊆ all) : Enters fs all name := by
  cases enters with
  | literal p there is_ => exact .literal p (within there) is_
  | special p there dotted one matches_ => exact .special p (within there) dotted one matches_
  | entry place there => exact .entry place there

/-- What entering a name keeps, a search keeps. The two parts of the search are taken together, by
induction on how deep it may go. -/
theorem found_keeps {Q : String → Prop}
    (enters : ∀ path name, Q path → Enters fs all name → Q (join path name)) (n : Nat) :
    (∀ path ps, Q path → ps ⊆ all → ∀ found ∈ below fs n path ps, Q found) ∧
      ∀ path name p ps, Q path → p :: ps ⊆ all → ∀ found ∈ at_ fs n path name p ps, Q found := by
  induction n with
  | zero =>
    refine ⟨fun _ _ _ _ _ there => ?_, fun _ _ _ _ _ _ _ there => ?_⟩
    · rw [below] at there
      cases there
    · rw [at_] at there
      cases there
  | succ n ih =>
    obtain ⟨below_, entry_⟩ := ih
    constructor
    · intro path ps start within found there
      cases ps with
      | nil =>
        rw [below] at there
        exact List.mem_singleton.1 there ▸ start
      | cons p ps =>
        obtain ⟨name, entered, there⟩ := below_found there
        have next := enters path name start
          (entered.of (List.cons_subset.2 ⟨(List.cons_subset.1 within).1, List.nil_subset _⟩))
        rcases there with there | there
        · exact below_ _ ps next (List.cons_subset.1 within).2 found there
        · exact entry_ _ name p ps next within found there
    · intro path name p ps start within found there
      rcases at_found there with rfl | ⟨qs, part, there⟩ | ⟨q, qs, part, there⟩
      · exact start
      · exact below_ path qs start (List.Subset.trans part within) found there
      · exact entry_ path name q qs start (List.Subset.trans part within) found there

end Found


section Search

variable {fs : FileSystem} {pattern : String} {all : List Piece} {paths : List String}

/-- The pieces of a pattern are among those of its text. -/
theorem parse?_pieces (absolute : isAbsolute pattern = true) (is_ : parse? pattern = some all) :
    ∀ p ∈ all, ∃ text ∈ pieces pattern, piece? text = some p := by
  obtain ⟨rest, rfl⟩ := isAbsolute_iff.1 absolute
  have spelled : pieces ("/" ++ rest) = "" :: pieces rest := pieces_append "" rest
  intro p there
  simp only [parse?] at is_
  obtain ⟨text, among, is_⟩ := mem_of_mapM is_ p there
  have behind : String.ofList (("/" ++ rest).toList.drop 1) = rest := by simp
  refine ⟨text, ?_, is_⟩
  rw [spelled]
  rw [behind] at among
  split at among
  · exact .tail _ (List.mem_of_mem_dropLast among)
  · exact .tail _ among

theorem search_found (is_ : search fs pattern = some paths) :
    ∃ all n, parse? pattern = some all ∧ ∀ found ∈ paths, found ∈ below fs n "/" all := by
  obtain ⟨all, parsed, is_⟩ := Option.bind_eq_some_iff.1 is_
  refine ⟨all, 2 * (all.length + 1) * (fs.entries.length + 2), parsed, fun found there => ?_⟩
  obtain rfl := Option.some_inj.1 is_
  split at there
  · exact (List.mem_filter.1 there).1
  · exact there

theorem search_absolute (is_ : search fs pattern = some paths) :
    ∀ found ∈ paths, isAbsolute found = true := by
  obtain ⟨all, n, -, among⟩ := search_found is_
  intro found there
  exact (found_keeps (Q := fun path => isAbsolute path = true)
    (fun _ name start _ => join_absolute start name) n).1 "/" all (by decide +kernel)
    (List.Subset.refl _) found (among found there)

/-- A pattern none of whose pieces leads up finds no path that does. -/
theorem search_down (named : fs.Named) (absolute : isAbsolute pattern = true)
    (level : ∀ text ∈ pieces pattern, leadsUp text = false) (is_ : search fs pattern = some paths) :
    ∀ found ∈ paths, ".." ∉ pieces found := by
  obtain ⟨all, n, parsed, among⟩ := search_found is_
  have each : ∀ p ∈ all, ∃ text, '/' ∉ text.toList ∧ leadsUp text = false ∧ piece? text = some p := by
    intro p there
    obtain ⟨text, one, is_⟩ := parse?_pieces absolute parsed p there
    exact ⟨text, mem_pieces one, level text one, is_⟩
  have down (name : String) (free : '/' ∉ name.toList) (other : name ≠ "..") : ".." ∉ pieces name := by
    rw [pieces, Text.split_single free, List.mem_singleton]
    exact other.symm
  have enters (name : String) (entered : Enters fs all name) : ".." ∉ pieces name := by
    cases entered with
    | literal p there is_ =>
      obtain ⟨text, free, level, made⟩ := each p there
      refine down name (literal_free made free is_) ?_
      rintro rfl
      exact literal_level made level is_
    | special p there dotted one matches_ =>
      obtain ⟨text, -, level, made⟩ := each p there
      rcases one with rfl | rfl
      · rw [not_leadsUp made level dotted] at matches_
        cases matches_
      · decide +kernel
    | entry place there => exact down name (named place name there).free (named place name there).parent
  intro found there
  have both := (found_keeps (Q := fun path => isAbsolute path = true ∧ ".." ∉ pieces path)
    (fun path name start entered => ⟨join_absolute start.1 name,
      join_down start.1 start.2 (enters name entered)⟩) n).1 "/" all
    ⟨by decide +kernel, by decide +kernel⟩ (List.Subset.refl _) found (among found there)
  exact both.2

end Search

end Glob

end Tasklang
