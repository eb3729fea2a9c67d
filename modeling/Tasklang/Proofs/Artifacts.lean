import Tasklang.Proofs.Identifiers
import Tasklang.Build.Artifact

/-! # Paths of built files

The components of a path that are names have no slash in them, so that a path is told apart by
them. What is written for a task file stands below the output directory, in the directories that the
path of the task file names. Its own name is that of the task file without its extension and mark, so
that different task files share a built file exactly when nothing else sets their names apart.
-/

namespace Tasklang

namespace Path

/-- Whether a text is the name of a file or directory, as it stands in a path. -/
structure IsName (name : String) : Prop where
  some_ : name ≠ ""
  free : '/' ∉ name.toList
  current : name ≠ "."
  parent : name ≠ ".."

theorem endsWith_slash {path : String} :
    path.endsWith "/" = true ↔ ∃ rest, path = rest ++ "/" := by
  rw [String.endsWith, String.Slice.endsWith_string_iff, String.copy_toSlice]
  constructor
  · rintro ⟨rest, spelled⟩
    exact ⟨String.ofList rest, String.toList_injective (by simpa using spelled.symm)⟩
  · rintro ⟨rest, rfl⟩
    exact ⟨rest.toList, (String.toList_append ..).symm⟩

theorem isAbsolute_iff {path : String} : isAbsolute path = true ↔ ∃ rest, path = "/" ++ rest := by
  rw [isAbsolute, String.startsWith_string_iff]
  constructor
  · rintro ⟨rest, spelled⟩
    exact ⟨String.ofList rest, String.toList_injective (by simpa using spelled.symm)⟩
  · rintro ⟨rest, rfl⟩
    exact ⟨rest.toList, (String.toList_append ..).symm⟩

/-! ## Pieces -/

theorem pieces_append (before after : String) :
    pieces (before ++ "/" ++ after) = pieces before ++ pieces after := by
  have spelled : (before ++ "/" ++ after).toList = before.toList ++ '/' :: after.toList := by simp
  rw [pieces, Text.split, spelled, Text.splitChars_append, List.map_append]
  rfl

theorem pieces_intercalate {names : List String} (some_ : names ≠ [])
    (free : ∀ name ∈ names, '/' ∉ name.toList) : pieces ("/".intercalate names) = names := by
  induction names with
  | nil => exact absurd rfl some_
  | cons name names ih =>
    obtain ⟨first, others⟩ := List.forall_mem_cons.1 free
    by_cases last : names = []
    · subst last
      rw [String.intercalate_singleton]
      exact Text.split_single first
    · rw [String.intercalate_cons_of_ne_nil last, pieces_append, ih last others]
      exact congrArg (· ++ names) (Text.split_single first)

theorem mem_pieces {path piece : String} (there : piece ∈ pieces path) : '/' ∉ piece.toList := by
  have free : ∀ cs : List Char, ∀ p ∈ Text.splitChars '/' cs, '/' ∉ p := by
    intro cs
    induction cs with
    | nil => simp [Text.splitChars]
    | cons c cs ih =>
      obtain ⟨p, ps, is_⟩ := List.exists_cons_of_ne_nil (Text.splitChars_ne_nil '/' cs)
      rw [is_] at ih
      rw [Text.splitChars, is_]
      split
      · simpa using ih
      next other => simpa [Ne.symm other] using ih
  obtain ⟨p, p_there, rfl⟩ := List.mem_map.1 there
  rw [String.toList_ofList]
  exact free _ p p_there

theorem isName_of_mem_normalNames {path name : String} (there : name ∈ normalNames path) :
    IsName name := by
  obtain ⟨c, c_there, is_⟩ := List.mem_filterMap.1 there
  cases c with
  | normal name' =>
    cases is_
    rcases List.mem_append.1 c_there with root | piece
    · split at root <;> simp at root
    · obtain ⟨⟨p, i⟩, kept, is_⟩ := List.mem_map.1 piece
      obtain ⟨inside, counts_⟩ := List.mem_filter.1 kept
      have free := mem_pieces (List.fst_mem_of_mem_zipIdx inside)
      simp only [counts, Bool.and_eq_true, bne_iff_ne] at counts_
      dsimp only [componentOf] at is_
      split_ifs at is_ with current parent
      cases is_
      exact ⟨counts_.1, free, current, parent⟩
  | _ => cases is_

/-! ## Paths of names -/

section Names

variable {dirs : List String} {last : String}

/-- The path that names make up. -/
def ofNames (names : List String) : String := "/".intercalate names

theorem pieces_ofNames {names : List String} (some_ : names ≠ []) (each : ∀ name ∈ names, IsName name) :
    pieces (ofNames names) = names :=
  pieces_intercalate some_ fun name there => (each name there).free

theorem ofNames_relative {names : List String} (each : ∀ name ∈ names, IsName name) :
    isAbsolute (ofNames names) = false := by
  rw [← Bool.not_eq_true, isAbsolute_iff]
  rintro ⟨rest, spelled⟩
  by_cases none : names = []
  · simpa [none, ofNames] using congrArg String.toList spelled
  · have pieces_ := pieces_append "" rest
    rw [String.empty_append, ← spelled, pieces_ofNames none each] at pieces_
    exact (each "" (pieces_ ▸ .head _)).some_ rfl

theorem ofNames_open {names : List String} (each : ∀ name ∈ names, IsName name) :
    (ofNames names).endsWith "/" = false := by
  rw [← Bool.not_eq_true, endsWith_slash]
  rintro ⟨rest, spelled⟩
  by_cases none : names = []
  · simpa [none, ofNames] using congrArg String.toList spelled
  · have pieces_ := pieces_append rest ""
    rw [String.append_empty, ← spelled, pieces_ofNames none each] at pieces_
    exact (each "" (pieces_ ▸ List.mem_append_right _ (.head _))).some_ rfl

theorem kept_names {names : List String} (each : ∀ name ∈ names, IsName name) :
    (names.zipIdx.filter fun (p, i) => counts i p) = names.zipIdx := by
  refine List.filter_eq_self.2 fun ⟨p, i⟩ there => ?_
  have name := each p (List.fst_mem_of_mem_zipIdx there)
  simp [counts, name.some_, name.current]

theorem components_ofNames {names : List String} (some_ : names ≠ [])
    (each : ∀ name ∈ names, IsName name) :
    components (ofNames names) = names.map .normal := by
  rw [components, ofNames_relative each, pieces_ofNames some_ each, kept_names each]
  have normal : ∀ e ∈ names.zipIdx, componentOf e.1 = .normal e.1 := by
    intro e there
    have name := each e.1 (List.fst_mem_of_mem_zipIdx there)
    rw [componentOf, if_neg name.current, if_neg name.parent]
  rw [if_neg Bool.false_ne_true, List.nil_append]
  calc names.zipIdx.map (fun (p, _) => componentOf p)
      = names.zipIdx.map fun e => Component.normal e.1 := List.map_congr_left normal
    _ = (names.zipIdx.map Prod.fst).map .normal := by rw [List.map_map]; rfl
    _ = names.map .normal := by rw [List.zipIdx_map_fst]

theorem positions_ofNames {names : List String} (some_ : names ≠ [])
    (each : ∀ name ∈ names, IsName name) : positions (ofNames names) = List.range names.length := by
  rw [positions, pieces_ofNames some_ each, kept_names each, List.range_eq_range']
  exact List.zipIdx_map_snd 0 names

theorem fileName?_ofNames (each : ∀ name ∈ dirs ++ [last], IsName name) :
    fileName? (ofNames (dirs ++ [last])) = some last := by
  rw [fileName?, components_ofNames (by simp) each, List.map_append, List.map_singleton,
    List.getLast?_concat]

theorem ofNames_ne_empty {names : List String} (some_ : names ≠ [])
    (each : ∀ name ∈ names, IsName name) : ofNames names ≠ "" := by
  intro empty
  have pieces_ := pieces_ofNames some_ each
  rw [empty] at pieces_
  exact (each "" (pieces_ ▸ .head _)).some_ rfl

theorem ofNames_inj {names names' : List String} (each : ∀ name ∈ names, IsName name)
    (each' : ∀ name ∈ names', IsName name) : ofNames names = ofNames names' ↔ names = names' := by
  refine ⟨fun same => ?_, congrArg ofNames⟩
  by_cases none : names = []
  · by_contra apart
    exact ofNames_ne_empty (fun none' => apart (none.trans none'.symm)) each' (by rw [← same, none]; rfl)
  · by_cases none' : names' = []
    · exact absurd (by rw [same, none']; rfl) (ofNames_ne_empty none each)
    · rw [← pieces_ofNames none each, same, pieces_ofNames none' each']

theorem parent?_ofNames (each : ∀ name ∈ dirs ++ [last], IsName name) :
    parent? (ofNames (dirs ++ [last])) = some (ofNames dirs) := by
  rw [parent?, positions_ofNames (by simp) each, ofNames_relative each]
  cases dirs using List.reverseRecOn with
  | nil => rfl
  | append_singleton dirs dir =>
    have pieces_ := pieces_ofNames (by simp) each
    simp only [List.length_append, List.length_singleton, List.range_succ, List.reverse_concat, upTo,
      pieces_]
    rw [List.take_left' (by simp)]
    rfl

/-- A path of names with another last name. -/
theorem withFileName_ofNames {name : String} (each : ∀ name ∈ dirs ++ [last], IsName name)
    (free : '/' ∉ name.toList) :
    withFileName (ofNames (dirs ++ [last])) name = ofNames (dirs ++ [name]) := by
  have each_dir : ∀ dir ∈ dirs, IsName dir := fun dir there => each dir (List.mem_append_left _ there)
  have relative : isAbsolute name = false := by
    rw [← Bool.not_eq_true, isAbsolute_iff]
    rintro ⟨rest, rfl⟩
    simp at free
  rw [withFileName, fileName?_ofNames each, parent?_ofNames each]
  simp only [join, relative, ofNames_open each_dir]
  by_cases none : dirs = []
  · subst none
    rw [List.nil_append, ofNames, ofNames, String.intercalate_singleton]
    rfl
  · have some_ : (ofNames dirs).isEmpty = false := by simp [ofNames_ne_empty none each_dir]
    rw [some_, ofNames, ofNames, String.intercalate_append_of_ne_nil none (by simp),
      String.intercalate_singleton]
    rfl

theorem join_inj {base path path' : String} (relative : isAbsolute path = false)
    (relative' : isAbsolute path' = false) : join base path = join base path' ↔ path = path' := by
  rw [join, join, relative, relative', if_neg Bool.false_ne_true, if_neg Bool.false_ne_true]
  split <;> simp

end Names

end Path

namespace Artifact

open Tasklang.Path

/-! ## Names of built files -/

theorem withoutExtension_begins (name : List Char) : withoutExtension name <+: name := by
  unfold withoutExtension
  split
  · dsimp only
    split
    · exact List.prefix_refl _
    · rw [← List.reverse_suffix, List.reverse_reverse]
      exact (List.drop_suffix _ _).trans (List.dropWhile_suffix _)
  · exact List.prefix_refl _

theorem withoutMark_begins (name : List Char) : withoutMark name <+: name := by
  unfold withoutMark
  split
  next r spelled =>
    rw [← List.reverse_suffix, List.reverse_reverse, spelled]
    exact ⟨['s', 'y', '.'], rfl⟩
  next => exact List.prefix_refl _

/-- A stem is the beginning of its name. -/
theorem stem_begins (name : String) : (stem name).toList <+: name.toList := by
  rw [stem, String.toList_ofList]
  exact (withoutMark_begins _).trans (withoutExtension_begins _)

/-- Whether an ending makes a name of every stem. -/
structure IsEnding (ending : String) : Prop where
  long : 2 < ending.toList.length
  free : '/' ∉ ending.toList

theorem moduleEnding_isEnding : IsEnding moduleEnding := ⟨by decide, by decide⟩

theorem runtimeEnding_isEnding : IsEnding runtimeEnding := ⟨by decide, by decide⟩

theorem IsEnding.isName {ending name : String} (is_ : IsEnding ending) (free : '/' ∉ name.toList) :
    IsName (name ++ ending) := by
  have other {text : String} (short : text.toList.length ≤ 2) : name ++ ending ≠ text := by
    rintro rfl
    rw [String.toList_append, List.length_append] at short
    have long := is_.long
    omega
  refine ⟨other (by decide), ?_, other (by decide), other (by decide)⟩
  rw [String.toList_append, List.mem_append, not_or]
  exact ⟨free, is_.free⟩

/-! ## Sites -/

/-- What its built files keep of the path of a task file: the directories, and the stem. A path
without names has none. -/
def site (path : String) : Option (List String × String) :=
  (normalNames path).getLast?.map fun last => ((normalNames path).dropLast, stem last)

/-- Where a built file with an ending stands below the output directory. -/
def below (ending : String) : Option (List String × String) → List String
  | none => []
  | some (dirs, name) => dirs ++ [name ++ ending]

/-- The site of a task file whose module is the text that runs inside a host for another one. -/
def runtimeSite (at_ : List String × String) : List String × String := (at_.1, at_.2 ++ ".runtime")

theorem below_runtime (at_ : Option (List String × String)) :
    below runtimeEnding at_ = below moduleEnding (at_.map runtimeSite) := by
  cases at_ with
  | none => rfl
  | some at_ =>
    show at_.1 ++ [at_.2 ++ runtimeEnding] = at_.1 ++ [at_.2 ++ ".runtime" ++ moduleEnding]
    rw [String.append_assoc]
    rfl

theorem below_inj (ending : String) {at_ at_' : Option (List String × String)} :
    below ending at_ = below ending at_' ↔ at_ = at_' := by
  cases at_ <;> cases at_' <;> simp [below, Prod.ext_iff]

theorem runtimeSite_inj : Function.Injective runtimeSite := by
  rintro ⟨dirs, name⟩ ⟨dirs', name'⟩ same
  simpa [runtimeSite] using same

section Inner

variable {ending : String} (is_ : IsEnding ending)

include is_

theorem below_isName {path : String} : ∀ name ∈ below ending (site path), IsName name := by
  have own : ∀ name ∈ normalNames path, IsName name := fun _ => isName_of_mem_normalNames
  rw [site]
  cases is_last : (normalNames path).getLast? with
  | none => nofun
  | some last =>
    intro name there
    rcases List.mem_append.1 there with above | here
    · exact own name (List.mem_of_mem_dropLast above)
    · rw [List.mem_singleton.1 here]
      have free := (own last (List.mem_of_getLast? is_last)).free
      exact is_.isName fun there => free ((stem_begins last).subset there)

/-- The path of a built file is that of its names below the output directory. -/
theorem pathIn_eq (dist path : String) :
    pathIn dist path ending = join dist (ofNames (below ending (site path))) := by
  have own : ∀ name ∈ normalNames path, IsName name := fun _ => isName_of_mem_normalNames
  have names : ∀ name ∈ below ending (site path), IsName name := below_isName is_
  rw [site] at names ⊢
  cases is_last : (normalNames path).getLast? with
  | none =>
    rw [pathIn, List.getLast?_eq_none_iff.1 is_last]
    rfl
  | some last =>
    rw [is_last] at names
    have spelled : (normalNames path).dropLast ++ [last] = normalNames path :=
      List.dropLast_append_getLast? last is_last
    rw [← spelled] at own
    have free := (names (stem last ++ ending) (by simp [below])).free
    have changed := withFileName_ofNames own free
    have named := fileName?_ofNames own
    rw [spelled] at changed named
    show join dist (changeEnding (ofNames (normalNames path)) ending) = _
    rw [changeEnding, named]
    exact congrArg (join dist) changed

end Inner

/-- The paths that are written for a task file. -/
def targets (dist : String) (withRuntime : Bool) (file : String) : List String :=
  pathIn dist file moduleEnding :: if withRuntime then [pathIn dist file runtimeEnding] else []

theorem all_paths (p : CompiledProgram) (file dist : String) (withRuntime : Bool) :
    (all p file dist withRuntime).map (·.1) = targets dist withRuntime file := by
  cases withRuntime <;> simp [all, targets]

/-- Whether task files have built files of their own: their sites differ, and when the texts that run
inside a host are built as well, none of those is the module of another. -/
def Apart (withRuntime : Bool) (files : List String) : Prop :=
  (files.map site).Nodup ∧
    (withRuntime = true → ∀ f ∈ files, ∀ g ∈ files, site f ≠ (site g).map runtimeSite)

theorem pathIn_inj {dist path path' ending ending' : String} (is_ : IsEnding ending)
    (is_' : IsEnding ending') : pathIn dist path ending = pathIn dist path' ending' ↔
      below ending (site path) = below ending' (site path') := by
  rw [pathIn_eq is_, pathIn_eq is_', join_inj (ofNames_relative (below_isName is_))
    (ofNames_relative (below_isName is_')), ofNames_inj (below_isName is_) (below_isName is_')]

theorem pathIn_nodup {ending : String} (is_ : IsEnding ending) (dist : String) (files : List String) :
    (files.map fun f => pathIn dist f ending).Nodup ↔ (files.map site).Nodup := by
  simp only [List.Nodup, List.pairwise_map, ne_eq, pathIn_inj is_ is_, below_inj]

/-- No two built files have one path exactly when the task files have built files of their own. -/
theorem targets_nodup (dist : String) (withRuntime : Bool) (files : List String) :
    (files.flatMap (targets dist withRuntime)).Nodup ↔ Apart withRuntime files := by
  cases withRuntime with
  | false =>
    have modules : files.flatMap (targets dist false) =
        files.map fun f => pathIn dist f moduleEnding := List.flatMap_pure_eq_map _ _
    simp [modules, pathIn_nodup moduleEnding_isEnding, Apart]
  | true =>
    have parted := List.flatMap_append_perm files (fun f => [pathIn dist f moduleEnding])
      (fun f => [pathIn dist f runtimeEnding])
    have each (ending : String) : files.flatMap (fun f => [pathIn dist f ending]) =
        files.map fun f => pathIn dist f ending := List.flatMap_pure_eq_map _ _
    have crossed (f g : String) : pathIn dist f moduleEnding = pathIn dist g runtimeEnding ↔
        site f = (site g).map runtimeSite := by
      rw [pathIn_inj moduleEnding_isEnding runtimeEnding_isEnding, below_runtime, below_inj]
    rw [each, each] at parted
    refine parted.nodup_iff.symm.trans ?_
    rw [List.nodup_append, pathIn_nodup moduleEnding_isEnding, pathIn_nodup runtimeEnding_isEnding]
    simp only [List.forall_mem_map, ne_eq, crossed, Apart, true_imp_iff, and_self_left]

end Artifact

end Tasklang
