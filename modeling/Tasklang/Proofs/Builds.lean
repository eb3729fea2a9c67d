import Tasklang.CommandLine.App
import Tasklang.Proofs.Artifacts

/-! # Builds

Writing a file changes what stands at one place and keeps all directories, so that whatever is read at
another place is read there as before. The places of built files are apart when their paths are. So
when a build ends, the files that were built for a task file hold its program, unless its own code has
changed them.
-/

namespace Tasklang

namespace FileSystem

variable {fs fs' : FileSystem} {cwd place : Place} {path : String}

/-! ## Places -/

/-- The place that pieces of a path lead to, as far as no name is missing. -/
def target : Place → List String → Place
  | place, [] => place
  | place, piece :: rest =>
    if piece = "" ∨ piece = "." then target place rest
    else if piece = ".." then target place.dropLast rest
    else target (place ++ [piece]) rest

/-- The place of a path, as far as no name is missing. -/
def placeOf (cwd : Place) (path : String) : Place :=
  target (if Path.isAbsolute path then [] else cwd) (Path.pieces path)

theorem target_append (place : Place) (before after : List String) :
    target place (before ++ after) = target (target place before) after := by
  induction before generalizing place with
  | nil => rfl
  | cons piece before ih =>
    rw [List.cons_append, target, target]
    split_ifs <;> exact ih _

theorem target_names (place : Place) {names : List String}
    (each : ∀ name ∈ names, Path.IsName name) : target place names = place ++ names := by
  induction names generalizing place with
  | nil => exact (List.append_nil place).symm
  | cons name names ih =>
    obtain ⟨is_, others⟩ := List.forall_mem_cons.1 each
    rw [target, if_neg (not_or.2 ⟨is_.some_, is_.current⟩), if_neg is_.parent, ih _ others,
      List.append_assoc]
    rfl

theorem target_ofNames (place : Place) {names : List String}
    (each : ∀ name ∈ names, Path.IsName name) :
    target place (Path.pieces (Path.ofNames names)) = place ++ names := by
  by_cases none : names = []
  · rw [none, List.append_nil]
    rfl
  · rw [Path.pieces_ofNames none each, target_names place each]

theorem isAbsolute_append {base : String} (some_ : base ≠ "") (rest : String) :
    Path.isAbsolute (base ++ rest) = Path.isAbsolute base := by
  obtain ⟨c, cs, chars⟩ : ∃ c cs, base.toList = c :: cs :=
    List.exists_cons_of_ne_nil fun none => some_ (String.toList_eq_nil_iff.1 none)
  rw [Bool.eq_iff_iff, Path.isAbsolute, Path.isAbsolute, String.startsWith_string_iff,
    String.startsWith_string_iff, String.toList_append, chars]
  simp

theorem placeOf_slash {base : String} (some_ : base ≠ "") :
    placeOf cwd (base ++ "/") = placeOf cwd base := by
  have pieces_ := Path.pieces_append base ""
  rw [String.append_empty] at pieces_
  rw [placeOf, isAbsolute_append some_, pieces_, target_append]
  rfl

theorem placeOf_append (cwd : Place) (base rest : String) : placeOf cwd (base ++ "/" ++ rest) =
    target (placeOf cwd (base ++ "/")) (Path.pieces rest) := by
  have pieces_ := Path.pieces_append base ""
  rw [String.append_empty] at pieces_
  rw [placeOf, placeOf, isAbsolute_append (by simp), Path.pieces_append, pieces_, target_append,
    target_append]
  rfl

/-- The place of a path below another one. -/
theorem placeOf_join (cwd : Place) (base : String) {names : List String}
    (each : ∀ name ∈ names, Path.IsName name) :
    placeOf cwd (Path.join base (Path.ofNames names)) = placeOf cwd base ++ names := by
  have relative := Path.ofNames_relative each
  have below (start : String) : placeOf cwd (start ++ "/" ++ Path.ofNames names) =
      placeOf cwd (start ++ "/") ++ names := by rw [placeOf_append, target_ofNames _ each]
  rw [Path.join, relative, if_neg Bool.false_ne_true]
  by_cases empty : base = ""
  · rw [empty, if_pos (by simp), String.empty_append, placeOf, relative, target_ofNames _ each]
    rfl
  split
  next ends =>
    rw [Bool.or_eq_true, String.isEmpty_iff, Path.endsWith_slash] at ends
    obtain ⟨start, rfl⟩ := ends.resolve_left empty
    exact below start
  next => rw [below, placeOf_slash empty]

theorem walk_place {pieces : List String} {start : Place}
    (done : fs.walk start pieces = .ok place) : place = target start pieces := by
  induction pieces generalizing start with
  | nil =>
    cases done
    rfl
  | cons piece pieces ih =>
    rw [walk] at done
    rw [target]
    split at done
    · cases done
    · cases done
    · split_ifs at done ⊢
      all_goals exact ih done

theorem resolve_place (done : fs.resolve cwd path = .ok place) : place = placeOf cwd path := by
  unfold resolve at done
  split_ifs at done with empty nul absolute
  · rw [placeOf, if_pos absolute]
    exact walk_place done
  · rw [placeOf, if_neg absolute]
    exact walk_place done

/-! ## Trees that keep their directories -/

/-- Whether all directories of a tree are directories of another one. -/
def KeepsDirectories (fs fs' : FileSystem) : Prop :=
  ∀ place, fs.lookup place = some .directory → fs'.lookup place = some .directory

theorem KeepsDirectories.walk (h : KeepsDirectories fs fs') {pieces : List String} {start : Place}
    (done : fs.walk start pieces = .ok place) : fs'.walk start pieces = .ok place := by
  induction pieces generalizing start with
  | nil => exact done
  | cons piece pieces ih =>
    rw [FileSystem.walk] at done ⊢
    split at done
    · cases done
    · cases done
    next here =>
      simp only [h _ here]
      split_ifs at done ⊢
      all_goals exact ih done

theorem KeepsDirectories.resolve (h : KeepsDirectories fs fs')
    (done : fs.resolve cwd path = .ok place) : fs'.resolve cwd path = .ok place := by
  unfold FileSystem.resolve at done ⊢
  split_ifs at done ⊢
  · exact h.walk done
  · exact h.walk done

theorem read_ok {contents : Bytes} : fs.read cwd path = .ok contents ↔
    ∃ place, fs.resolve cwd path = .ok place ∧ fs.lookup place = some (.file contents) := by
  unfold read stat
  cases fs.resolve cwd path with
  | error e => simp
  | ok place =>
    cases found : fs.lookup place with
    | none => simp [found]
    | some entry => cases entry <;> simp [found]

/-! ## Writing -/

theorem lookup_put (fs : FileSystem) (place : Place) (entry : Entry) (other : Place) :
    (fs.put place entry).lookup other =
      if other = [] then some .directory else if other = place then some entry else fs.lookup other := by
  have replaced (entries : List (Place × Entry)) : (put.replace place entry entries).lookup other =
      if other = place then some entry else entries.lookup other := by
    induction entries with
    | nil =>
      by_cases same : other = place
      · simp [put.replace, same]
      · simp [put.replace, List.lookup_cons, beq_eq_false_iff_ne.2 same, same]
    | cons e rest ih =>
      obtain ⟨p, e⟩ := e
      rw [put.replace]
      by_cases here : p = place
      · by_cases same : other = place
        · simp [here, same]
        · simp [here, List.lookup_cons, beq_eq_false_iff_ne.2 same, same]
      · by_cases same : other = p
        · simp [here, same]
        · simp [here, List.lookup_cons, beq_eq_false_iff_ne.2 same, ih]
  rw [lookup, put, replaced, lookup]
  split_ifs <;> rfl

/-- A tree in which all that stood somewhere still stands there. -/
def Extends (fs fs' : FileSystem) : Prop :=
  ∀ place entry, fs.lookup place = some entry → fs'.lookup place = some entry

theorem Extends.refl (fs : FileSystem) : Extends fs fs := fun _ _ there => there

theorem Extends.trans {fs'' : FileSystem} (h : Extends fs fs') (h' : Extends fs' fs'') :
    Extends fs fs'' := fun place entry there => h' place entry (h place entry there)

theorem makeDirectory_extends (done : fs.makeDirectory cwd path = .ok fs') : Extends fs fs' := by
  unfold makeDirectory at done
  split at done
  · cases done
  next place _ =>
    split at done
    · cases done
    next new =>
      split at done
      · cases done
        intro other entry there
        have apart : other ≠ place := by
          rintro rfl
          rw [new] at there
          cases there
        rw [lookup_put, if_neg apart]
        split
        next root =>
          rw [root, lookup, if_pos rfl] at there
          exact there
        next => exact there
      · cases done
      · cases done

theorem makeDirectories_extends (done : fs.makeDirectories cwd path = .ok fs') : Extends fs fs' := by
  have made (n : Nat) {fs fs' : FileSystem} {path : String}
      (done : makeDirectories.go cwd n fs path = .ok fs') : Extends fs fs' := by
    induction n generalizing fs fs' path with
    | zero =>
      cases done
      exact .refl _
    | succ n ih =>
      rw [makeDirectories.go] at done
      split at done
      · cases done
        exact .refl _
      · split at done
        next own =>
          cases done
          exact makeDirectory_extends own
        · split at done
          · cases done
          · split at done
            · cases done
            next above =>
              split at done
              next own =>
                cases done
                exact (ih above).trans (makeDirectory_extends own)
              · split at done
                · cases done
                  exact ih above
                · cases done
        · split at done
          · cases done
            exact .refl _
          · cases done
  exact made _ done

theorem withoutTrailingSlashes_open (open_ : path.endsWith "/" = false) :
    Path.withoutTrailingSlashes path = path := by
  rw [← Bool.not_eq_true, Path.endsWith_slash] at open_
  rw [Path.withoutTrailingSlashes]
  cases reversed : path.toList.reverse with
  | nil =>
    obtain rfl : path = "" := by simpa using reversed
    exact if_neg (by simp [Path.isAbsolute])
  | cons c cs =>
    have chars : path.toList = cs.reverse ++ [c] := by
      rw [← List.reverse_cons, ← reversed, List.reverse_reverse]
    have other : c ≠ '/' := by
      rintro rfl
      exact open_ ⟨String.ofList cs.reverse, String.toList_injective (by simpa using chars)⟩
    rw [List.dropWhile_cons_of_neg (by simpa using other)]
    exact String.toList_injective (by simpa using chars.symm)

/-- What writing a file comes to. -/
theorem write_done {contents : Bytes} (done : fs.write cwd path contents = .ok fs') :
    path.endsWith "/" = false ∧ ∃ place, fs.resolve cwd path = .ok place ∧ place ≠ [] ∧
      fs.lookup place ≠ some .directory ∧ fs' = fs.put place (.file contents) := by
  unfold write at done
  split at done
  · cases done
  next place resolved =>
    split_ifs at done with open_
    rw [Bool.not_eq_true] at open_
    rw [withoutTrailingSlashes_open open_] at resolved
    refine ⟨open_, place, resolved, ?_⟩
    have named (other : fs.lookup place ≠ some .directory) : place ≠ [] := by
      rintro rfl
      exact other rfl
    split at done
    · cases done
    next found =>
      cases done
      have other : fs.lookup place ≠ some .directory := by simp [found]
      exact ⟨named other, other, rfl⟩
    next found =>
      have other : fs.lookup place ≠ some .directory := by simp [found]
      split at done
      · cases done
        exact ⟨named other, other, rfl⟩
      · cases done
      · cases done

end FileSystem

namespace Artifact

open FileSystem

variable {fs fs' : FileSystem} {cwd : Place} {path text : String}

/-- Writing a file makes it readable, and leaves all files at other places. -/
theorem writeFile_done (done : writeFile fs cwd path text = (.ok (), fs')) :
    fs'.read cwd path = .ok (Bytes.ofString text) ∧
      ∀ other contents, placeOf cwd other ≠ placeOf cwd path → fs.read cwd other = .ok contents →
        fs'.read cwd other = .ok contents := by
  obtain ⟨fs₁, made, written⟩ : ∃ fs₁, Extends fs fs₁ ∧
      fs₁.write cwd path (Bytes.ofString text) = .ok fs' := by
    unfold writeFile at done
    dsimp only at done
    split at done
    · cases done
    next fs₁ made =>
      split at done
      · cases done
      next written =>
        cases done
        refine ⟨fs₁, ?_, written⟩
        split at made
        · exact makeDirectories_extends made
        · cases made
          exact .refl _
  obtain ⟨-, place, resolved, named, other, rfl⟩ := write_done written
  have kept : KeepsDirectories fs₁ (fs₁.put place (.file (Bytes.ofString text))) := by
    intro above there
    rw [lookup_put]
    split_ifs with root same
    · rfl
    · exact absurd (same ▸ there) other
    · exact there
  constructor
  · refine read_ok.2 ⟨place, kept.resolve resolved, ?_⟩
    rw [lookup_put, if_neg named, if_pos rfl]
  · intro other contents apart read
    obtain ⟨place', resolved', found⟩ := read_ok.1 read
    have directories : KeepsDirectories fs fs₁ := fun above => made above _
    have apart' : place' ≠ place := by
      rwa [resolve_place resolved, resolve_place resolved']
    have named' : place' ≠ [] := by
      rintro rfl
      cases found
    refine read_ok.2 ⟨place', kept.resolve (directories.resolve resolved'), ?_⟩
    rw [lookup_put, if_neg named', if_neg apart']
    exact made _ _ found

/-- Writing files at places that differ makes them readable, and leaves all files at other places. -/
theorem writeAll_done {files : List (String × String)} {paths : List String}
    (apart : (files.map fun f => placeOf cwd f.1).Nodup)
    (done : writeAll fs cwd files = (.ok paths, fs')) :
    (∀ f ∈ files, fs'.read cwd f.1 = .ok (Bytes.ofString f.2)) ∧
      ∀ other contents, (∀ f ∈ files, placeOf cwd other ≠ placeOf cwd f.1) →
        fs.read cwd other = .ok contents → fs'.read cwd other = .ok contents := by
  induction files generalizing fs paths with
  | nil =>
    cases done
    exact ⟨List.forall_mem_nil _, fun _ _ _ read => read⟩
  | cons f files ih =>
    obtain ⟨path, text⟩ := f
    obtain ⟨first, others⟩ := List.nodup_cons.1 apart
    unfold writeAll at done
    split at done
    · cases done
    next fs₁ wrote =>
      split at done
      · cases done
      next paths' fs₂ rest =>
        cases done
        obtain ⟨own, kept⟩ := writeFile_done wrote
        obtain ⟨later, kept'⟩ := ih others rest
        refine ⟨List.forall_mem_cons.2 ⟨kept' _ _ (fun f there same => first ?_) own, later⟩,
          fun other contents aside read => ?_⟩
        · exact List.mem_map.2 ⟨f, there, same.symm⟩
        · obtain ⟨here, aside⟩ := List.forall_mem_cons.1 aside
          exact kept' _ _ aside (kept _ _ here read)

section Targets

variable {dist file file' target target' : String} {withRuntime : Bool}

theorem mem_targets (there : target ∈ targets dist withRuntime file) :
    ∃ ending, IsEnding ending ∧ target = pathIn dist file ending := by
  rcases List.mem_cons.1 there with rfl | there
  · exact ⟨_, moduleEnding_isEnding, rfl⟩
  · split at there
    · exact ⟨_, runtimeEnding_isEnding, List.mem_singleton.1 there⟩
    · cases there

theorem mem_targets_of_all {p : CompiledProgram} {f : String × String}
    (there : f ∈ all p file dist withRuntime) : f.1 ∈ targets dist withRuntime file := by
  rw [← all_paths p]
  exact List.mem_map_of_mem there

/-- Built files with different paths stand at different places. -/
theorem placeOf_target (cwd : Place) (there : target ∈ targets dist withRuntime file)
    (there' : target' ∈ targets dist withRuntime file') :
    placeOf cwd target = placeOf cwd target' ↔ target = target' := by
  obtain ⟨ending, is_, rfl⟩ := mem_targets there
  obtain ⟨ending', is_', rfl⟩ := mem_targets there'
  rw [pathIn_inj is_ is_', pathIn_eq is_, pathIn_eq is_', placeOf_join cwd dist (below_isName is_),
    placeOf_join cwd dist (below_isName is_'), List.append_cancel_left_eq]

theorem all_places (cwd : Place) (p : CompiledProgram)
    (apart : (targets dist withRuntime file).Nodup) :
    ((all p file dist withRuntime).map fun f => placeOf cwd f.1).Nodup := by
  have places : (all p file dist withRuntime).map (fun f => placeOf cwd f.1) =
      (targets dist withRuntime file).map (placeOf cwd) := by
    rw [← all_paths p, List.map_map]
    rfl
  rw [places, List.nodup_map_iff_inj_on apart]
  exact fun target there target' there' => (placeOf_target cwd there there').1

end Targets

end Artifact

namespace CommandLine

open Lua FileSystem

/-- Whether every file of the world is read as it was read before. -/
def KeepsFiles (m m' : Machine) : Prop :=
  ∀ path contents, m.world.files.read m.world.cwd path = .ok contents →
    m'.world.files.read m'.world.cwd path = .ok contents

/-- Task files that were compiled and written in order, each with its program. `keeps` says what is
asked of compiling. -/
inductive Built (options : CompileOptions) (cwd dist : String) (withRuntime : Bool)
    (keeps : Machine → Machine → Prop) :
    Machine → List (String × CompiledProgram) → Machine → Prop where
  | none {m} : Built options cwd dist withRuntime keeps m [] m
  | next {m file p m₁ paths m₂ built m'} : compileFile options cwd file m = (.ok p, m₁) → keeps m m₁ →
    writeArtifacts p file dist withRuntime m₁ = (.ok paths, m₂) →
    Built options cwd dist withRuntime keeps m₂ built m' →
    Built options cwd dist withRuntime keeps m ((file, p) :: built) m'

section Building

variable {options : CompileOptions} {cwd dist : String} {withRuntime : Bool} {m m' : Machine}
  {built : List (String × CompiledProgram)}

theorem bind_apply {α β : Type} (x : Action α) (f : α → Action β) (m : Machine) :
    (x >>= f) m = match x m with
      | (.ok a, m) => f a m
      | (.error e, m) => (.error e, m) := rfl

theorem pure_ok {α : Type} {a b : α} : (pure a : Action α) m = (.ok b, m') ↔ a = b ∧ m = m' := by
  show (Except.ok a, m) = (.ok b, m') ↔ _
  rw [Prod.mk.injEq, Except.ok.injEq]

theorem bind_ok {α β : Type} {x : Action α} {f : α → Action β} {b : β} :
    (x >>= f) m = (.ok b, m') ↔ ∃ a m₁, x m = (.ok a, m₁) ∧ f a m₁ = (.ok b, m') := by
  rw [bind_apply]
  split
  next a m₁ is_ => simp [is_]
  next e m₁ is_ => simp [is_]

theorem writeArtifacts_done {p : CompiledProgram} {file : String} {paths : List String}
    (done : writeArtifacts p file dist withRuntime m = (.ok paths, m')) :
    ∃ files, Artifact.writeAll m.world.files m.world.cwd (Artifact.all p file dist withRuntime) =
      (.ok paths, files) ∧ m' = { m with world := { m.world with files } } := by
  simp only [writeArtifacts, bind_apply, Action.world, Action.setWorld] at done
  cases wrote : Artifact.writeAll m.world.files m.world.cwd
      (Artifact.all p file dist withRuntime) with
  | mk result files =>
    rw [wrote] at done
    cases result with
    | ok paths' =>
      obtain ⟨same, is_⟩ := Prod.mk.inj done
      exact ⟨files, by rw [Except.ok.inj same], is_.symm⟩
    | error e =>
      obtain ⟨same, -⟩ := Prod.mk.inj done
      cases same

theorem buildFile_ok {file : String} {u : Unit} :
    buildFile options cwd dist withRuntime file m = (.ok u, m') ↔
    ∃ p m₁ paths, compileFile options cwd file m = (.ok p, m₁) ∧
      writeArtifacts p file dist withRuntime m₁ = (.ok paths, m') := by
  simp only [buildFile, bind_ok, pure_ok, true_and]
  constructor
  · rintro ⟨p, m₁, compiled, paths, _, wrote, rfl⟩
    exact ⟨p, m₁, paths, compiled, wrote⟩
  · rintro ⟨p, m₁, paths, compiled, wrote⟩
    exact ⟨p, m₁, compiled, paths, _, wrote, rfl⟩

/-- A build comes to its end exactly when all its task files are compiled and written. -/
theorem buildFiles_done {files : List String} :
    buildFiles options cwd dist withRuntime files m = (.ok (), m') ↔
      ∃ built, built.map (·.1) = files ∧
        Built options cwd dist withRuntime (fun _ _ => True) m built m' := by
  rw [buildFiles]
  induction files generalizing m with
  | nil =>
    rw [Action.forEach, pure_ok]
    constructor
    · rintro ⟨-, rfl⟩
      exact ⟨[], rfl, .none⟩
    · rintro ⟨built, names, run⟩
      cases run with
      | none => exact ⟨rfl, rfl⟩
      | next => cases names
  | cons file files ih =>
    rw [Action.forEach]
    simp only [bind_ok, buildFile_ok, ih]
    constructor
    · rintro ⟨_, m₂, ⟨p, m₁, paths, compiled, wrote⟩, built, rfl, run⟩
      exact ⟨(file, p) :: built, rfl, .next compiled trivial wrote run⟩
    · rintro ⟨built, names, run⟩
      cases run with
      | none => cases names
      | next compiled _ wrote run =>
        obtain ⟨rfl, others⟩ := List.cons.inj names
        exact ⟨(), _, ⟨_, _, _, compiled, wrote⟩, _, others, run⟩

/-- Built files that are not among those of a build are read after it as before. -/
theorem Built.reads (h : Built options cwd dist withRuntime KeepsFiles m built m') {file target : String}
    {contents : Bytes} (own : target ∈ Artifact.targets dist withRuntime file)
    (apart : ∀ e ∈ built, (Artifact.targets dist withRuntime e.1).Nodup)
    (aside : ∀ e ∈ built, target ∉ Artifact.targets dist withRuntime e.1)
    (read : m.world.files.read m.world.cwd target = .ok contents) :
    m'.world.files.read m'.world.cwd target = .ok contents := by
  induction h with
  | none => exact read
  | @next m file' p m₁ paths m₂ built m' compiled keeps wrote run ih =>
    obtain ⟨apart_here, apart⟩ := List.forall_mem_cons.1 apart
    obtain ⟨aside_here, aside⟩ := List.forall_mem_cons.1 aside
    obtain ⟨files, written, rfl⟩ := writeArtifacts_done wrote
    have places := Artifact.all_places m₁.world.cwd p apart_here
    obtain ⟨-, kept⟩ := Artifact.writeAll_done places written
    refine ih apart aside (kept _ _ (fun f there same => aside_here ?_) (keeps _ _ read))
    have other := Artifact.mem_targets_of_all there
    rwa [(Artifact.placeOf_target _ own other).1 same]

/-- A build in which no code changes files: the built files of task files that have built files of
their own hold their programs. -/
theorem Built.holds (h : Built options cwd dist withRuntime KeepsFiles m built m')
    (apart : (built.flatMap fun e => Artifact.targets dist withRuntime e.1).Nodup) :
    ∀ e ∈ built, ∀ target ∈ Artifact.all e.2 e.1 dist withRuntime,
      m'.world.files.read m'.world.cwd target.1 = .ok (Bytes.ofString target.2) := by
  induction h with
  | none => exact List.forall_mem_nil _
  | @next m file p m₁ paths m₂ built m' compiled keeps wrote run ih =>
    rw [List.flatMap_cons, List.nodup_append] at apart
    obtain ⟨apart_here, apart, crossed⟩ := apart
    obtain ⟨files, written, rfl⟩ := writeArtifacts_done wrote
    refine List.forall_mem_cons.2 ⟨fun target there => ?_, ih apart⟩
    have own := Artifact.mem_targets_of_all there
    have places := Artifact.all_places m₁.world.cwd p apart_here
    obtain ⟨held, -⟩ := Artifact.writeAll_done places written
    refine run.reads own (fun e there => ?_) (fun e there same => ?_) (held _ there)
    · exact (List.nodup_flatMap.1 apart).1 e there
    · exact crossed _ own _ (List.mem_flatMap.2 ⟨e, there, same⟩) rfl

end Building

/-- Any list of task files. No two of their built files have one path exactly when the task files have
built files of their own; a build that comes to its end has compiled and written them in order, and
unless the code that is run on the way has changed files, the built files of each then hold its
program. -/
theorem builds_apart (dist : String) (withRuntime : Bool) (files : List String) :
    ((files.flatMap (Artifact.targets dist withRuntime)).Nodup ↔ Artifact.Apart withRuntime files) ∧
    (∀ options cwd m m', buildFiles options cwd dist withRuntime files m = (.ok (), m') ↔
      ∃ built, built.map (·.1) = files ∧
        Built options cwd dist withRuntime (fun _ _ => True) m built m') ∧
    ∀ options cwd m built m', Artifact.Apart withRuntime files → built.map (·.1) = files →
      Built options cwd dist withRuntime KeepsFiles m built m' →
      ∀ e ∈ built, ∀ target ∈ Artifact.all e.2 e.1 dist withRuntime,
        m'.world.files.read m'.world.cwd target.1 = .ok (Bytes.ofString target.2) := by
  refine ⟨Artifact.targets_nodup dist withRuntime files, fun _ _ _ _ => buildFiles_done, ?_⟩
  rintro options cwd m built m' apart rfl run
  refine run.holds ?_
  have own := (Artifact.targets_nodup dist withRuntime _).2 apart
  rwa [List.flatMap_map] at own

/-- Task files that differ in their extension only, or by the mark of task files, have one built file,
and so has a task file that is named like the text of another one that runs inside a host. -/
theorem builds_share :
    (["a.yml", "a.ys.yml"].Nodup ∧
      ¬(["a.yml", "a.ys.yml"].flatMap (Artifact.targets "dist" false)).Nodup) ∧
    ["a.yml", "a.runtime.yml"].Nodup ∧
      ¬(["a.yml", "a.runtime.yml"].flatMap (Artifact.targets "dist" true)).Nodup := by
  decide +kernel

/-! ## A build of two task files -/

section Running

variable (options : CompileOptions) (cwd dist : String) (withRuntime : Bool)

/-- The machine after a task file was compiled and written, when no code that was run on the way
changed files. -/
def quietly (m : Machine) (file : String) : Option Machine :=
  match compileFile options cwd file m with
  | (.error _, _) => none
  | (.ok p, m₁) =>
    if m₁.world.files = m.world.files ∧ m₁.world.cwd = m.world.cwd then
      match writeArtifacts p file dist withRuntime m₁ with
      | (.error _, _) => none
      | (.ok _, m₂) => some m₂
    else none

theorem Built.of_quietly {files : List String} {m m' : Machine}
    (ran : files.foldlM (quietly options cwd dist withRuntime) m = some m') :
    ∃ built, built.map (·.1) = files ∧ Built options cwd dist withRuntime KeepsFiles m built m' := by
  induction files generalizing m with
  | nil =>
    cases ran
    exact ⟨[], rfl, .none⟩
  | cons file files ih =>
    rw [List.foldlM_cons, Option.bind_eq_bind, Option.bind_eq_some_iff] at ran
    obtain ⟨m₂, first, ran⟩ := ran
    obtain ⟨built, names, run⟩ := ih ran
    unfold quietly at first
    split at first
    · cases first
    next p m₁ compiled =>
      split_ifs at first with same
      split at first
      · cases first
      next paths _ wrote =>
        cases first
        have keeps : KeepsFiles m m₁ := fun path contents read => by rwa [same.1, same.2]
        exact ⟨(file, p) :: built, congrArg (file :: ·) names, .next compiled keeps wrote run⟩

end Running

/-- A world with two task files. -/
def pair : World :=
  let task := Entry.file (Bytes.ofString "- use: print\n")
  { files := ⟨[(["a.yml"], task), (["b.yml"], task)]⟩ }

theorem builds_apart_pair : ∃ built m', built.map (·.1) = ["a.yml", "b.yml"] ∧
    Built {} "" "dist" true KeepsFiles (Machine.initial pair) built m' ∧
    ∀ e ∈ built, ∀ target ∈ Artifact.all e.2 e.1 "dist" true,
      m'.world.files.read m'.world.cwd target.1 = .ok (Bytes.ofString target.2) := by
  have quiet : (["a.yml", "b.yml"].foldlM (quietly {} "" "dist" true)
      (Machine.initial pair)).isSome = true := by decide +kernel
  obtain ⟨m', ran⟩ := Option.isSome_iff_exists.1 quiet
  obtain ⟨built, names, run⟩ := Built.of_quietly _ _ _ _ ran
  obtain ⟨apart, -, holds⟩ := builds_apart "dist" true ["a.yml", "b.yml"]
  have own : (["a.yml", "b.yml"].flatMap (Artifact.targets "dist" true)).Nodup := by decide +kernel
  exact ⟨built, m', names, run, holds _ _ _ _ _ (apart.1 own) names run⟩

end CommandLine

end Tasklang
