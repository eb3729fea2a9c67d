import Tasklang.Proofs.Builds

/-! # Components of paths

The components of a path are told piece by piece, and a piece that is not the first one counts wherever
it stands. So a path below another one has the components of both. A built file stands below the output
directory, at as many names as the path of its task file has.
-/

namespace Tasklang

namespace Path

variable {path : String} {names : List String}

/-- The components of pieces, the first of which stands at a position. -/
def counted (n : Nat) (pieces : List String) : List Component :=
  ((pieces.zipIdx n).filter fun (p, i) => counts i p).map fun (p, _) => componentOf p

theorem components_eq (path : String) :
    components path = (if isAbsolute path then [.root] else []) ++ counted 0 (pieces path) := rfl

theorem counted_append (n : Nat) (before after : List String) :
    counted n (before ++ after) = counted n before ++ counted (n + before.length) after := by
  rw [counted, List.zipIdx_append, List.filter_append, List.map_append]
  rfl

theorem counted_cons (n : Nat) (piece : String) (after : List String) :
    counted n (piece :: after) =
      (if counts n piece then [componentOf piece] else []) ++ counted (n + 1) after := by
  by_cases there : counts n piece = true <;> simp [counted, List.zipIdx_cons, there]

theorem counted_names (n : Nat) (each : ∀ name ∈ names, IsName name) :
    counted n names = names.map .normal := by
  induction names generalizing n with
  | nil => rfl
  | cons name names ih =>
    obtain ⟨is_, others⟩ := List.forall_mem_cons.1 each
    have there : counts n name = true := by simp [counts, is_.some_, is_.current]
    rw [counted_cons, if_pos there, componentOf, if_neg is_.current, if_neg is_.parent, ih _ others]
    rfl

theorem components_ends (base : String) : components (base ++ "/") =
    (if isAbsolute (base ++ "/") then [.root] else []) ++ counted 0 (pieces base) := by
  have ends := pieces_append base ""
  have empty (n : Nat) : counted n (pieces "") = [] := rfl
  rw [String.append_empty] at ends
  rw [components_eq, ends, counted_append, empty, List.append_nil]

theorem components_slash (base rest : String) : components (base ++ "/" ++ rest) =
    components (base ++ "/") ++ counted (pieces base).length (pieces rest) := by
  rw [components_eq, pieces_append, counted_append, components_ends,
    FileSystem.isAbsolute_append (by simp), Nat.zero_add, List.append_assoc]

/-- A slash at the end of a path does not show. -/
theorem components_trailing {base : String} (some_ : base ≠ "") :
    components (base ++ "/") = components base := by
  rw [components_ends, FileSystem.isAbsolute_append some_, components_eq]

/-- A path of names below another one has the components of both. -/
theorem components_join (base : String) (some_ : names ≠ []) (each : ∀ name ∈ names, IsName name) :
    components (join base (ofNames names)) = components base ++ names.map .normal := by
  have below (start : String) : components (start ++ "/" ++ ofNames names) =
      components (start ++ "/") ++ names.map .normal := by
    rw [components_slash, pieces_ofNames some_ each, counted_names _ each]
  rw [join, ofNames_relative each, if_neg Bool.false_ne_true]
  by_cases empty : base = ""
  · rw [empty, if_pos (by simp), String.empty_append, components_ofNames some_ each]
    rfl
  split
  next ends =>
    rw [Bool.or_eq_true, String.isEmpty_iff, endsWith_slash] at ends
    obtain ⟨start, rfl⟩ := ends.resolve_left empty
    exact below start
  next => rw [below, components_trailing empty]

/-! ## Paths that lead down -/

/-- The pieces that are names, as far as none leads up. -/
def named (pieces : List String) : List String := pieces.filter fun piece => piece != "" && piece != "."

theorem parent_mem_counted (n : Nat) (pieces : List String) :
    .parent ∈ counted n pieces ↔ ".." ∈ pieces := by
  induction pieces generalizing n with
  | nil => simp [counted]
  | cons piece pieces ih =>
    rw [counted_cons, List.mem_append, ih, List.mem_cons]
    refine or_congr_left ?_
    by_cases up : piece = ".."
    · simp [up, counts, componentOf]
    · have other : componentOf piece ≠ .parent := by
        rw [componentOf, if_neg up]
        split <;> simp
      refine iff_of_false (fun there => ?_) (Ne.symm up)
      split at there
      · exact other (List.mem_singleton.1 there).symm
      · cases there

theorem parent_mem {path : String} : .parent ∈ components path ↔ ".." ∈ pieces path := by
  rw [components_eq, List.mem_append, parent_mem_counted]
  exact or_iff_right (by split <;> simp)

theorem counted_named {n : Nat} {pieces : List String} (down : ".." ∉ pieces)
    (inner : n = 0 → pieces.head? ≠ some ".") :
    counted n pieces = (named pieces).map .normal := by
  induction pieces generalizing n with
  | nil => rfl
  | cons piece pieces ih =>
    obtain ⟨level, down⟩ := not_or.1 (List.mem_cons.not.1 down)
    have onwards : counted (n + 1) pieces = (named pieces).map .normal :=
      ih down fun start => absurd start (Nat.succ_ne_zero n)
    rw [counted_cons, onwards]
    by_cases empty : piece = ""
    · simp [empty, counts, named]
    by_cases current : piece = "."
    · have later : n ≠ 0 := fun start => inner start (congrArg some current)
      simp [current, counts, later, named]
    · simp [empty, current, counts, componentOf, Ne.symm level, named]

theorem target_named {place : Place} {pieces : List String} (down : ".." ∉ pieces) :
    FileSystem.target place pieces = place ++ named pieces := by
  induction pieces generalizing place with
  | nil => exact (List.append_nil place).symm
  | cons piece pieces ih =>
    obtain ⟨level, down⟩ := not_or.1 (List.mem_cons.not.1 down)
    rw [FileSystem.target, if_neg (Ne.symm level), ih down, ih down, named, named, List.filter_cons]
    by_cases inner : piece = "" ∨ piece = "."
    · rcases inner with rfl | rfl <;> simp
    · simp [not_or.1 inner]

theorem pieces_absolute (absolute : isAbsolute path = true) :
    ∃ rest, pieces path = "" :: pieces rest := by
  obtain ⟨rest, rfl⟩ := isAbsolute_iff.1 absolute
  have spelled := pieces_append "" rest
  rw [String.empty_append] at spelled
  exact ⟨rest, spelled⟩

theorem components_absolute (absolute : isAbsolute path = true) (down : ".." ∉ pieces path) :
    components path = .root :: (named (pieces path)).map .normal := by
  have first : (pieces path).head? ≠ some "." := by
    obtain ⟨rest, spelled⟩ := pieces_absolute absolute
    simp [spelled]
  rw [components_eq, if_pos absolute, counted_named down fun _ => first]
  rfl

theorem components_relative (relative : isAbsolute path = false) (down : ".." ∉ pieces path)
    (first : (pieces path).head? ≠ some ".") : components path = (named (pieces path)).map .normal := by
  rw [components_eq, relative, counted_named down fun _ => first]
  rfl

theorem placeOf_named {place : Place} (absolute : isAbsolute path = true)
    (down : ".." ∉ pieces path) : FileSystem.placeOf place path = named (pieces path) := by
  rw [FileSystem.placeOf, if_pos absolute, target_named down, List.nil_append]

/-- The pieces of a path below another one are those of both, up to a slash at the end of the
other. -/
theorem pieces_join {base : String} (some_ : base ≠ "") (relative : isAbsolute path = false) :
    ∃ front, pieces (join base path) = front ++ pieces path ∧
      (front = pieces base ∨ pieces base = front ++ [""]) := by
  rw [join, relative, if_neg Bool.false_ne_true]
  split
  next ends =>
    rw [Bool.or_eq_true, String.isEmpty_iff, endsWith_slash] at ends
    obtain ⟨start, rfl⟩ := ends.resolve_left some_
    have spelled := pieces_append start ""
    rw [String.append_empty] at spelled
    exact ⟨_, pieces_append start path, .inr spelled⟩
  next => exact ⟨_, pieces_append base path, .inl rfl⟩

theorem join_absolute {base : String} (absolute : isAbsolute base = true) (path : String) :
    isAbsolute (join base path) = true := by
  have some_ : base ≠ "" := by
    rintro rfl
    cases absolute
  rw [join]
  split
  next own => exact own
  next =>
    split
    · rw [FileSystem.isAbsolute_append some_, absolute]
    · rw [String.append_assoc, FileSystem.isAbsolute_append some_, absolute]

theorem join_down {base : String} (absolute : isAbsolute base = true) (down : ".." ∉ pieces base)
    (down' : ".." ∉ pieces path) : ".." ∉ pieces (join base path) := by
  by_cases own : isAbsolute path = true
  · rwa [join, if_pos own]
  · have some_ : base ≠ "" := by
      rintro rfl
      cases absolute
    obtain ⟨front, spelled, front_⟩ := pieces_join some_ (Bool.not_eq_true _ ▸ own)
    rw [spelled, List.mem_append, not_or]
    refine ⟨fun there => down ?_, down'⟩
    rcases front_ with rfl | base_
    · exact there
    · rw [base_]
      exact List.mem_append_left _ there

theorem named_join {base : String} (some_ : base ≠ "") (relative : isAbsolute path = false) :
    named (pieces (join base path)) = named (pieces base) ++ named (pieces path) := by
  obtain ⟨front, spelled, front_⟩ := pieces_join some_ relative
  rw [spelled, named, List.filter_append]
  rcases front_ with rfl | base_
  · rfl
  · rw [base_, named, List.filter_append]
    simp [named]

end Path

namespace Artifact

open Tasklang.Path

/-- A built file stands inside the output directory: the components of its path are those of the
directory and then as many names as the path of the task file has, which are the names of that path
except for the last one, in which the ending stands after the stem. -/
theorem built_inside (dist path ending : String) (is_ : ending ∈ [moduleEnding, runtimeEnding])
    (named : normalNames path ≠ []) :
    ∃ names, pathIn dist path ending = join dist (ofNames names) ∧
      components (pathIn dist path ending) = components dist ++ names.map .normal ∧
      names.length = (normalNames path).length ∧ (∀ name ∈ names, IsName name) ∧
      names.dropLast = (normalNames path).dropLast ∧
      names.getLast? = some (stem ((normalNames path).getLast named) ++ ending) := by
  have ends : IsEnding ending := by
    rcases List.mem_pair.1 is_ with rfl | rfl
    · exact moduleEnding_isEnding
    · exact runtimeEnding_isEnding
  have last := List.getLast?_eq_some_getLast named
  have at_ : below ending (site path) =
      (normalNames path).dropLast ++ [stem ((normalNames path).getLast named) ++ ending] := by
    rw [site, last]
    rfl
  have names : ∀ name ∈ below ending (site path), IsName name := below_isName ends
  have is_ := pathIn_eq ends dist path
  rw [at_] at names is_
  refine ⟨_, is_, ?_, ?_, names, List.dropLast_concat, List.getLast?_concat⟩
  · rw [is_, components_join dist (by simp) names]
  · have positive := List.length_pos_iff.2 named
    rw [List.length_append, List.length_dropLast, List.length_singleton]
    omega

/-- A file whose name is nothing but dots, reached from the directory above. -/
theorem built_inside_dots : normalNames "../tasks/..." = ["tasks", "..."] ∧
    components (pathIn "dist" "../tasks/..." moduleEnding) =
      [.normal "dist", .normal "tasks", .normal "...lua"] := by
  have named : normalNames "../tasks/..." = ["tasks", "..."] := by decide +kernel
  obtain ⟨names, -, spelled, -, -, above, last⟩ :=
    built_inside "dist" "../tasks/..." moduleEnding (.head _) (by simp [named])
  have stem_ : stem "..." = ".." := by decide +kernel
  have all : names = ["tasks", "..." ++ "lua"] := by
    rw [← List.dropLast_append_getLast? _ last, above]
    simp only [named, List.getLast_cons_cons, List.getLast_singleton, stem_]
    rfl
  refine ⟨named, spelled.trans ?_⟩
  rw [all]
  decide +kernel

end Artifact

end Tasklang
