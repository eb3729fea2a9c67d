import Tasklang.Config.Selection
import Tasklang.Proofs.Patterns

/-! # Chosen task files

Chosen files are told apart by the components of the paths that are shown for them. A path without a
piece of two dots has as components the names of the place it leads to, those of the working directory
left out where they come first. So a file can be chosen twice only by a path that goes up, which no file
argument, directory or pattern leads to unless it has a piece that does.
-/

namespace Tasklang

open Tasklang.Path

namespace Path

variable {path : String}

/-- The positions that count are those of pieces that say something. -/
theorem positions_piece {n : Nat} (there : n ∈ positions path) :
    ∃ piece, (pieces path)[n]? = some piece ∧ counts n piece = true := by
  obtain ⟨⟨piece, i⟩, among, rfl⟩ := List.mem_map.1 there
  obtain ⟨at_, counted⟩ := List.mem_filter.1 among
  exact ⟨piece, List.mem_zipIdx_iff_getElem?.1 at_, counted⟩

/-- What is left of an absolute path without its first components is a relative path of some of its
pieces, the first of which is no dot. -/
theorem dropComponents_pieces (absolute : isAbsolute path = true) (n : Nat) :
    isAbsolute (dropComponents path n) = false ∧ pieces (dropComponents path n) ⊆ pieces path ∧
      (pieces (dropComponents path n)).head? ≠ some "." := by
  obtain ⟨rest, spelled⟩ := pieces_absolute absolute
  have nothing : isAbsolute "" = false ∧ pieces "" ⊆ pieces path ∧ (pieces "").head? ≠ some "." := by
    refine ⟨by decide +kernel, ?_, by decide +kernel⟩
    rw [show pieces "" = [""] by decide +kernel, spelled]
    exact List.cons_subset_cons _ (List.nil_subset _)
  rw [dropComponents]
  split
  next => exact nothing
  next first others dropped =>
    obtain ⟨piece, at_, counted⟩ := positions_piece
      (List.mem_of_mem_drop (dropped ▸ List.mem_cons_self))
    dsimp only
    generalize others.getLast?.getD first + 1 - first = k
    cases k with
    | zero => exact nothing
    | succ k =>
      have part : ((pieces path).drop first).take (k + 1) =
          piece :: ((pieces path).drop (first + 1)).take k := by
        rw [List.drop_eq_getElem?_toList_append, at_]
        rfl
      have some_ : piece ≠ "" := by
        rintro rfl
        cases counted
      have named : piece ≠ "." := by
        rintro rfl
        cases first with
        | zero => simp [spelled] at at_
        | succ first => cases counted
      have within : ((pieces path).drop first).take (k + 1) ⊆ pieces path :=
        List.Subset.trans (List.take_subset _ _) (List.drop_subset _ _)
      have made := pieces_intercalate (part ▸ List.cons_ne_nil _ _)
        fun name there => mem_pieces (within there)
      rw [made]
      refine ⟨Bool.eq_false_iff.2 fun absolute => ?_, within, ?_⟩
      · obtain ⟨rest', spelled'⟩ := pieces_absolute absolute
        rw [made, part] at spelled'
        exact some_ (List.cons.inj spelled').1
      · rw [part]
        simpa using named

end Path

namespace Selection

/-- The place that a chosen path leads to from the working directory. -/
def placed (place : Place) (cwd path : String) : Place :=
  FileSystem.placeOf place (Path.join cwd path)

/-- How a path is shown that leads down from the root: as a relative path if the working directory
is above it, else as it is. -/
inductive Shown (cwd path : String) : Prop
  | below (relative : isAbsolute path = false) (first : (pieces path).head? ≠ some ".")
  | apart (absolute : isAbsolute path = true) (apart : ¬components cwd <+: components path)

theorem shown_spec (cwd : String) {path : String} (own : isAbsolute path = true) :
    Shown cwd (shown cwd path) ∧ pieces (shown cwd path) ⊆ pieces path := by
  rw [shown, stripPrefix?]
  split
  next =>
    obtain ⟨relative, within, first⟩ := dropComponents_pieces own
      ((components cwd).filter (· != .root)).length
    exact ⟨.below relative first, within⟩
  next apart =>
    exact ⟨.apart own fun below => apart (List.isPrefixOf_iff_prefix.2 below), List.Subset.refl _⟩

section Places

variable {place : Place} {cwd path path' : String}

theorem placed_below (absolute : isAbsolute cwd = true) (level : ".." ∉ pieces cwd)
    (relative : isAbsolute path = false) (down : ".." ∉ pieces path) :
    placed place cwd path = named (pieces cwd) ++ named (pieces path) := by
  have some_ : cwd ≠ "" := by
    rintro rfl
    cases absolute
  rw [placed, placeOf_named (join_absolute absolute path) (join_down absolute level down),
    named_join some_ relative]

theorem placed_apart (own : isAbsolute path = true) (down : ".." ∉ pieces path) :
    placed place cwd path = named (pieces path) := by
  rw [placed, join, if_pos own, placeOf_named own down]

/-- A path that is shown as it is leads to no place below the working directory. -/
theorem apart_placed (absolute : isAbsolute cwd = true) (level : ".." ∉ pieces cwd)
    (own : isAbsolute path = true) (apart : ¬components cwd <+: components path)
    (down : ".." ∉ pieces path) : ¬named (pieces cwd) <+: placed place cwd path := by
  rintro ⟨rest, spelled⟩
  rw [placed_apart own down] at spelled
  refine apart ⟨rest.map .normal, ?_⟩
  rw [components_absolute absolute level, components_absolute own down, ← spelled, List.map_append,
    List.cons_append]

/-- Shown paths that lead down have the same components where they lead to the same place. -/
theorem placed_inj (absolute : isAbsolute cwd = true) (level : ".." ∉ pieces cwd)
    (shown : Shown cwd path) (shown' : Shown cwd path') (down : ".." ∉ pieces path)
    (down' : ".." ∉ pieces path') (same : placed place cwd path = placed place cwd path') :
    components path = components path' := by
  have below {path : String} (relative : isAbsolute path = false) (down : ".." ∉ pieces path) :
      named (pieces cwd) <+: placed place cwd path :=
    ⟨_, (placed_below absolute level relative down).symm⟩
  cases shown with
  | below relative first =>
    cases shown' with
    | below relative' first' =>
      rw [placed_below absolute level relative down, placed_below absolute level relative' down',
        List.append_cancel_left_eq] at same
      rw [components_relative relative down first, components_relative relative' down' first', same]
    | apart own' apart' =>
      exact absurd (same ▸ below relative down) (apart_placed absolute level own' apart' down')
  | apart own apart =>
    cases shown' with
    | below relative' first' =>
      exact absurd (same ▸ below relative' down') (apart_placed absolute level own apart down)
    | apart own' apart' =>
      rw [placed_apart own down, placed_apart own' down'] at same
      rw [components_absolute own down, components_absolute own' down', same]

end Places

/-! ## What is found -/

theorem of_bind_ok {α β ε : Type} {x : Except ε α} {f : α → Except ε β} {b : β}
    (is_ : x >>= f = .ok b) : ∃ a, x = .ok a ∧ f a = .ok b := by
  cases x with
  | error e => cases is_
  | ok a => exact ⟨a, rfl, is_⟩

theorem mem_of_mapM_ok {α β ε : Type} {f : α → Except ε β} {as : List α} {bs : List β}
    (is_ : as.mapM f = .ok bs) : ∀ b ∈ bs, ∃ a ∈ as, f a = .ok b := by
  induction as generalizing bs with
  | nil =>
    cases is_
    exact fun _ there => nomatch there
  | cons a as ih =>
    rw [List.mapM_cons] at is_
    obtain ⟨b, first, others⟩ := of_bind_ok is_
    obtain ⟨bs', rest, same⟩ := of_bind_ok others
    cases same
    exact List.forall_mem_cons.2 ⟨⟨a, .head _, first⟩, fun b there =>
      (ih rest b there).imp fun _ found => ⟨.tail _ found.1, found.2⟩⟩

/-- The patterns that a selection asks for. -/
inductive Asks (s : Selection) (cwd : String) : String → Prop
  | all : Asks s cwd (allBelow cwd)
  | directory (d : String) (there : d ∈ s.directories) : Asks s cwd (allBelow (Path.join cwd d))
  | pattern (t : String) (there : t ∈ s.patterns) (is_ : Glob.isPattern t = true) :
      Asks s cwd (fullPattern cwd t)

/-- How a path comes to be chosen: a file argument names it, or it is found for a pattern. -/
inductive Finds (s : Selection) (fs : FileSystem) (cwd : String) : String → Prop
  | file (t : String) (there : t ∈ s.patterns) (plain : Glob.isPattern t = false) :
      Finds s fs cwd (Path.join cwd t)
  | search (pattern path : String) (paths : List String) (asks : Asks s cwd pattern)
      (is_ : Glob.search fs pattern = some paths) (there : path ∈ paths) : Finds s fs cwd path

section Found

variable {s : Selection} {fs : FileSystem} {place : Place} {cwd path : String}
  {chosen : List String}

theorem asks_of_mem {fromDirectories : List String}
    (dirs : directoryPatterns fs place cwd s.directories = .ok fromDirectories) :
    ∀ pattern ∈ s.allPatterns cwd fromDirectories, Asks s cwd pattern := by
  intro pattern there
  rw [allPatterns, List.mem_append, List.mem_append, List.mem_ite_nil_right, List.mem_singleton] at there
  rcases there with (⟨-, rfl⟩ | there) | there
  · exact .all
  · obtain ⟨d, among, made⟩ := mem_of_mapM_ok dirs pattern there
    dsimp only at made
    split at made
    · cases made
      exact .directory d among
    · cases made
  · obtain ⟨t, among, rfl⟩ := List.mem_map.1 there
    obtain ⟨among, is_⟩ := List.mem_filter.1 among
    exact .pattern t among is_

theorem finds_named {named : List String} (is_ : namedFiles fs place cwd s.patterns = .ok named) :
    ∀ path ∈ named, Finds s fs cwd path := by
  intro path there
  obtain ⟨t, among, made⟩ := mem_of_mapM_ok is_ path there
  obtain ⟨among, plain⟩ := List.mem_filter.1 among
  dsimp only at made
  split at made
  · cases made
    exact .file t among (by simpa using plain)
  · cases made

theorem finds_searched {patterns found : List String} (asks : ∀ p ∈ patterns, Asks s cwd p)
    (is_ : search fs place patterns = .ok found) : ∀ path ∈ found, Finds s fs cwd path := by
  obtain ⟨lists, each, same⟩ := of_bind_ok is_
  cases same
  intro path there
  obtain ⟨list, among, there⟩ := List.mem_flatten.1 there
  obtain ⟨pattern, asked, made⟩ := mem_of_mapM_ok each list among
  split at made
  next paths is_ =>
    cases made
    exact .search pattern path paths (asks pattern asked) is_ (List.mem_filter.1 there).1
  next => cases made

theorem files_chosen (is_ : s.files fs place cwd = .ok chosen) :
    ∃ found : List String, chosen = distinct [] (found.map (shown cwd)) ∧ ∀ path ∈ found, Finds s fs cwd path := by
  obtain ⟨fromDirectories, dirs, is_⟩ := of_bind_ok is_
  obtain ⟨named, files, is_⟩ := of_bind_ok is_
  obtain ⟨found, searched, is_⟩ := of_bind_ok is_
  refine ⟨named ++ found, ?_, fun path there => ?_⟩
  · dsimp only at is_
    split at is_
    · cases is_
    · exact (Except.ok.inj is_).symm
  · rcases List.mem_append.1 there with there | there
    · exact finds_named files path there
    · exact finds_searched (asks_of_mem dirs) searched path there

theorem distinct_sublist (seen : List (List Component)) (ps : List String) :
    (distinct seen ps).Sublist ps := by
  fun_induction distinct seen ps with
  | case1 => exact .slnil
  | case2 seen p ps cs _ ih => exact .cons p ih
  | case3 seen p ps cs _ ih => exact .cons_cons p ih

/-- No two of the paths kept have the same components, and none has those of a path seen before. -/
theorem distinct_nodup (seen : List (List Component)) (ps : List String) :
    ((distinct seen ps).map components).Nodup ∧ ∀ p ∈ distinct seen ps, components p ∉ seen := by
  fun_induction distinct seen ps with
  | case1 => exact ⟨.nil, fun _ there => nomatch there⟩
  | case2 seen p ps cs _ ih => exact ih
  | case3 seen p ps cs new ih =>
    obtain ⟨nodup, fresh⟩ := ih
    refine ⟨List.nodup_cons.2 ⟨fun there => ?_, nodup⟩, List.forall_mem_cons.2 ⟨by simpa using new, ?_⟩⟩
    · obtain ⟨q, among, same⟩ := List.mem_map.1 there
      exact fresh q among (same ▸ List.mem_cons_self)
    · exact fun q there seen_ => fresh q there (.tail _ seen_)

end Found

/-! ## Selections that lead down -/

/-- Whether no path or pattern of a selection goes up. -/
structure Descends (s : Selection) : Prop where
  files : ∀ t ∈ s.patterns, Glob.isPattern t = false → ".." ∉ pieces t
  directories : ∀ d ∈ s.directories, ".." ∉ pieces d
  patterns : ∀ t ∈ s.patterns, Glob.isPattern t = true →
    ∀ text ∈ pieces t, Glob.leadsUp text = false

section Down

variable {s : Selection} {fs : FileSystem} {place : Place} {cwd path pattern : String}
  {chosen : List String} (rooted : isAbsolute cwd = true)

theorem allBelow_eq (directory : String) :
    allBelow directory = Glob.escape directory ++ "/" ++ ("**" ++ "/" ++ "*.ys.yml") := by
  rw [allBelow, String.append_assoc, String.append_assoc]
  rfl

theorem escaped_level {directory : String} (level : ".." ∉ pieces directory) :
    ∀ text ∈ pieces (Glob.escape directory), Glob.leadsUp text = false := by
  rw [Glob.pieces_escape]
  intro text there
  obtain ⟨piece, among, rfl⟩ := List.mem_map.1 there
  exact Bool.eq_false_iff.2 fun up => level (Glob.leadsUp_escape up ▸ among)

theorem allBelow_level {directory : String} (level : ".." ∉ pieces directory) :
    ∀ text ∈ pieces (allBelow directory), Glob.leadsUp text = false := by
  rw [allBelow_eq, pieces_append, pieces_append]
  intro text there
  rcases List.mem_append.1 there with there | there
  · exact escaped_level level text there
  · have two : pieces "**" ++ pieces "*.ys.yml" = ["**", "*.ys.yml"] := by decide +kernel
    rw [two, List.mem_pair] at there
    rcases there with rfl | rfl <;> decide +kernel

include rooted

theorem below_absolute (rest : String) : isAbsolute (Glob.escape cwd ++ "/" ++ rest) = true := by
  rw [String.append_assoc]
  exact Glob.escape_absolute rooted _

theorem Asks.absolute (asks : Asks s cwd pattern) : isAbsolute pattern = true := by
  cases asks with
  | all => exact allBelow_eq cwd ▸ below_absolute rooted _
  | directory d =>
    exact allBelow_eq (Path.join cwd d) ▸ below_absolute (join_absolute rooted d) _
  | pattern t =>
    rw [fullPattern]
    split
    next own => exact own
    next => exact below_absolute rooted t

theorem Asks.level (asks : Asks s cwd pattern) (level : ".." ∉ pieces cwd) (descends : s.Descends) :
    ∀ text ∈ pieces pattern, Glob.leadsUp text = false := by
  cases asks with
  | all => exact allBelow_level level
  | directory d there =>
    exact allBelow_level (join_down rooted level (descends.directories d there))
  | pattern t there is_ =>
    rw [fullPattern]
    split
    next => exact descends.patterns t there is_
    next =>
      rw [pieces_append]
      intro text among
      rcases List.mem_append.1 among with among | among
      · exact escaped_level level text among
      · exact descends.patterns t there is_ text among

theorem Finds.absolute (finds : Finds s fs cwd path) : isAbsolute path = true := by
  cases finds with
  | file t => exact join_absolute rooted t
  | search pattern path paths asks is_ there => exact Glob.search_absolute is_ path there

theorem Finds.down (finds : Finds s fs cwd path) (level : ".." ∉ pieces cwd) (names : fs.Named)
    (descends : s.Descends) : ".." ∉ pieces path := by
  cases finds with
  | file t there plain => exact join_down rooted level (descends.files t there plain)
  | search pattern path paths asks is_ there =>
    exact Glob.search_down names (asks.absolute rooted) (asks.level rooted level descends) is_ path
      there

end Down

/-- Chosen files are told apart by components. Two chosen paths lead to the same file only if one of
them goes up, and none does in a selection that leads down: then every file is chosen once. -/
theorem files_apart (s : Selection) (fs : FileSystem) (place : Place) (cwd : String)
    (chosen : List String) (absolute : isAbsolute cwd = true) (level : ".." ∉ pieces cwd)
    (is_ : s.files fs place cwd = .ok chosen) :
    (chosen.map components).Nodup ∧
      chosen.Pairwise (fun path path' => placed place cwd path = placed place cwd path' →
        .parent ∈ components path ∨ .parent ∈ components path') ∧
      (fs.Named → s.Descends → (chosen.map (placed place cwd)).Nodup) := by
  obtain ⟨found, rfl, finds⟩ := files_chosen is_
  have each : ∀ path ∈ distinct [] (found.map (shown cwd)), Shown cwd path ∧
      (fs.Named → s.Descends → ".." ∉ pieces path) := by
    intro path there
    obtain ⟨origin, among, rfl⟩ := List.mem_map.1 ((distinct_sublist _ _).subset there)
    obtain ⟨spec, within⟩ := shown_spec cwd ((finds origin among).absolute absolute)
    exact ⟨spec, fun names descends up =>
      (finds origin among).down absolute level names descends (within up)⟩
  have nodup := (distinct_nodup [] (found.map (shown cwd))).1
  have apart : (distinct [] (found.map (shown cwd))).Pairwise fun path path' =>
      placed place cwd path = placed place cwd path' →
        .parent ∈ components path ∨ .parent ∈ components path' := by
    refine (List.pairwise_map.1 nodup).imp_of_mem fun {path path'} there there' other same => ?_
    by_contra down
    rw [parent_mem, parent_mem, not_or] at down
    obtain ⟨down, down'⟩ := down
    exact other (placed_inj absolute level (each path there).1 (each path' there').1 down down' same)
  refine ⟨nodup, apart, fun names descends => List.pairwise_map.2 ?_⟩
  refine apart.imp_of_mem fun {path path'} there there' up same => ?_
  rcases up same with up | up
  · exact (each path there).2 names descends (parent_mem.1 up)
  · exact (each path' there').2 names descends (parent_mem.1 up)

namespace Apart

/-- A file in the working directory, and one in a directory below it. -/
def tree : FileSystem :=
  ⟨[(["w"], .directory), (["w", "a.ys.yml"], .file []), (["w", "sub"], .directory),
    (["w", "sub", "b.ys.yml"], .file [])]⟩

/-- Both files, each in several ways. -/
def overlapping : Selection := ⟨["./a.ys.yml", "s*/b.ys.yml", "/w/*.ys.yml"], ["sub/."], true⟩

theorem overlapping_chosen :
    overlapping.files tree ["w"] "/w" = .ok ["a.ys.yml", "sub/b.ys.yml"] := by
  decide +kernel

theorem tree_named : tree.Named := by
  intro place name there
  have among : name ∈ ["w", "a.ys.yml", "sub", "b.ys.yml"] := by
    obtain ⟨⟨path, _⟩, listed, last⟩ := List.mem_filterMap.1 there
    simp only [tree, List.mem_cons, Prod.mk.injEq, List.not_mem_nil, or_false] at listed
    rcases listed with ⟨rfl, -⟩ | ⟨rfl, -⟩ | ⟨rfl, -⟩ | ⟨rfl, -⟩ <;> simp_all
  have each : ∀ name ∈ ["w", "a.ys.yml", "sub", "b.ys.yml"],
      name ≠ "" ∧ '/' ∉ name.toList ∧ name ≠ "." ∧ name ≠ ".." := by decide +kernel
  obtain ⟨some_, free, current, parent⟩ := each name among
  exact ⟨some_, free, current, parent⟩

theorem overlapping_descends : overlapping.Descends :=
  ⟨by decide +kernel, by decide +kernel, by decide +kernel⟩

theorem overlapping_apart :
    overlapping.files tree ["w"] "/w" = .ok ["a.ys.yml", "sub/b.ys.yml"] ∧
      (["a.ys.yml", "sub/b.ys.yml"].map (placed ["w"] "/w")).Nodup := by
  refine ⟨overlapping_chosen, ?_⟩
  have apart := files_apart overlapping tree ["w"] "/w" _ (by decide +kernel) (by decide +kernel)
    overlapping_chosen
  exact apart.2.2 tree_named overlapping_descends

end Apart

/-- The same file by its name and through a directory beside it. -/
theorem through_sibling :
    Selection.files ⟨["a.ys.yml", "sub/../a.ys.yml"], [], false⟩ Apart.tree ["w"] "/w" =
        .ok ["a.ys.yml", "sub/../a.ys.yml"] ∧
      placed ["w"] "/w" "sub/../a.ys.yml" = placed ["w"] "/w" "a.ys.yml" := by
  decide +kernel

end Selection

end Tasklang
