import ClientGen.Client.Generate
import ClientGen.Proofs.ClassNames
import ClientGen.Proofs.FilePaths
import ClientGen.Proofs.StaleFiles

/-!
# Files that an earlier run leaves

A run that removes stale files looks for them directly in the generated directories. What the run
before has written there is removed or written again; what it has written deeper down, by way of a
suffix with a slash, stays (`Client.noLeftovers_iff`).
-/
namespace ClientGen

namespace FilePath

/-- A text that is a name as it stands: it has no slash, and is not one of those that say nothing or
lead up. -/
def IsName (s : String) : Prop :=
  '/' ∉ s.toList ∧ s ∉ ["", ".", ".."]

instance (s : String) : Decidable (IsName s) :=
  inferInstanceAs (Decidable (_ ∧ _))

section Names

variable {folder name : String}

theorem IsName.isKept (isName : IsName name) : (name != "" && name != ".") = true := by
  have named := isName.2
  simp only [List.mem_cons, List.not_mem_nil, or_false, not_or] at named
  simp [named]

theorem IsName.ne_dots (isName : IsName name) : ".." ≠ name := by
  rintro rfl
  exact absurd isName (by decide)

/-- A name spells the path of a file. -/
theorem IsName.namesOf (isName : IsName name) : namesOf name = [name] := by
  rw [FilePath.namesOf, Text.splitOn_of_absent isName.1, List.map_singleton,
    String.ofList_toList, List.filter_singleton, isName.isKept]
  rfl

/-- Two names with a slash spell the path of a file in a directory. -/
theorem IsName.namesOf_append (outer : IsName folder) (inner : IsName name) :
    FilePath.namesOf (folder ++ "/" ++ name) = [folder, name] := by
  have whole : (folder ++ "/" ++ name).toList = folder.toList ++ '/' :: name.toList := by simp
  rw [FilePath.namesOf, whole, Text.splitOn_append_cons, Text.splitOn_of_absent outer.1,
    Text.splitOn_of_absent inner.1, List.singleton_append, List.map_cons, List.map_singleton,
    String.ofList_toList, String.ofList_toList, List.filter_cons, outer.isKept,
    List.filter_singleton, inner.isKept]
  rfl

theorem absolute_ofText_append (isName : IsName name) (rest : String) :
    (ofText (name ++ rest)).absolute = false := by
  cases chars : name.toList with
  | nil =>
    obtain rfl := String.toList_eq_nil_iff.mp chars
    exact absurd isName (by decide)
  | cons c others =>
    have other : c ≠ '/' := by
      rintro rfl
      exact isName.1 (chars ▸ List.mem_cons_self)
    simp [ofText, chars, other]

theorem IsName.isInside (isName : IsName name) : IsInside name := by
  have relative := absolute_ofText_append isName ""
  rw [String.append_empty] at relative
  refine ⟨relative, ?_, ?_⟩
  · exact ne_of_eq_of_ne isName.namesOf (List.cons_ne_nil _ _)
  · have names : (ofText name).names = [name] := isName.namesOf
    rw [names, List.mem_singleton]
    exact isName.ne_dots

theorem IsName.isInside_append (outer : IsName folder) (inner : IsName name) :
    IsInside (folder ++ "/" ++ name) := by
  refine ⟨?_, ?_, ?_⟩
  · rw [String.append_assoc]
    exact absolute_ofText_append outer _
  · exact ne_of_eq_of_ne (outer.namesOf_append inner) (List.cons_ne_nil _ _)
  · have names : (ofText (folder ++ "/" ++ name)).names = [folder, name] :=
      outer.namesOf_append inner
    rw [names, List.mem_pair, not_or]
    exact ⟨outer.ne_dots, inner.ne_dots⟩

end Names

/-- A text without slashes that is appended ends the last name. -/
theorem namesOf_append (s : String) {ending : String} (absent : '/' ∉ ending.toList)
    (long : 2 < ending.length) :
    ∃ above name, namesOf (s ++ ending) = above ++ [name ++ ending] ∧ name ++ ending ≠ ".." := by
  obtain ⟨pieces, back, split⟩ := Text.splitOn_append_of_absent absent s.toList
  -- with what is appended the last piece is too long to say nothing, or to lead up
  have longer : 2 < (String.ofList back ++ ending).length := by
    rw [String.length_append]
    omega
  have named : ∀ short : String, short.length ≤ 2 → String.ofList back ++ ending ≠ short := by
    rintro short brief rfl
    exact absurd longer (Nat.not_lt.mpr brief)
  have kept : (String.ofList back ++ ending != "" && String.ofList back ++ ending != ".") =
      true := by
    rw [Bool.and_eq_true, bne_iff_ne, bne_iff_ne]
    exact ⟨named "" (by decide), named "." (by decide)⟩
  refine ⟨(pieces.map String.ofList).filter fun name => name != "" && name != ".",
    String.ofList back, ?_, named ".." (by decide)⟩
  rw [namesOf, String.toList_append, split, List.map_append, List.filter_append,
    List.map_singleton, String.ofList_append, String.ofList_toList, List.filter_singleton, kept]
  rfl

end FilePath

namespace Disk

variable {d after : Disk} {writes : List (Location × String)} {way : List Location} {l : Location}

def hasFile (d : Disk) (l : Location) : Bool :=
  (d.get? l).any Entry.isFile

theorem hasFile_of_get? {text : String} (found : d.get? l = some (.file text)) :
    d.hasFile l = true := by
  rw [hasFile, found]
  rfl

theorem textAt_eq_none : textAt writes l = none ↔ ¬∃ w ∈ writes, w.1 = l := by
  rw [textAt, Option.map_eq_none_iff, List.find?_eq_none]
  simp only [List.mem_reverse, decide_eq_true_eq, not_exists, not_and]

/-- After writes there is a file where one was before, and where a text was written. -/
theorem Written.hasFile_iff (written : d.Written after writes way) :
    after.hasFile l = true ↔ (∃ w ∈ writes, w.1 = l) ∨ d.hasFile l = true := by
  by_cases unwritten : textAt writes l = none
  · simp only [textAt_eq_none.mp unwritten, false_or]
    by_cases made : d.get? l = none ∧ l ∈ way
    · simp [hasFile, made.1, written.passed made.2, Entry.isFile]
    · rw [hasFile, hasFile, written.kept unwritten fun absent passed => made ⟨absent, passed⟩]
  · obtain ⟨text, last⟩ := Option.ne_none_iff_exists'.mp unwritten
    have among : ∃ w ∈ writes, w.1 = l := by
      by_contra none
      exact unwritten (textAt_eq_none.mpr none)
    exact ⟨fun _ => .inl among, fun _ => hasFile_of_get? (written.written last)⟩

/-- A path whose last name is not a pair of dots leads to that name. -/
theorem destination_of_concat {p : FilePath} {above : List String} {name : String}
    (ends : p.names = above ++ [name]) (plain : name ≠ "..") :
    d.destination p = d.destination ⟨p.absolute, above⟩ ++ [name] := by
  have walked : Location.walk (d.start p) (above ++ [name]) =
      Location.walk (d.start p) above ++ [name] := by
    rw [Location.walk_append, Location.walk_cons, Location.walk_nil, Location.step_of_ne _ plain]
  rw [destination, ends]
  exact walked

end Disk

namespace Output

variable {medium : Medium} {o : Output} {d between after : Disk} {root l : Location}
  {files : Table String} {produced : List String} {paths removed written : List FilePath}

/-- A location below one of the generated directories of the output directory at `root`. -/
def IsGenerated (root l : Location) : Prop :=
  ∃ folder ∈ generatedDirectories, ∃ names, names ≠ [] ∧ l = root ++ folder :: names

/-- A location below a directory in one of the generated directories. -/
def IsNested (root l : Location) : Prop :=
  ∃ folder ∈ generatedDirectories, ∃ names, 2 ≤ names.length ∧ l = root ++ folder :: names

theorem IsNested.isGenerated (nested : IsNested root l) : IsGenerated root l := by
  obtain ⟨folder, generated, names, deep, rfl⟩ := nested
  exact ⟨folder, generated, names, List.ne_nil_of_length_pos (by omega), rfl⟩

/-- What is not deeper lies directly in a generated directory. -/
theorem IsGenerated.direct (generated : IsGenerated root l) (shallow : ¬IsNested root l) :
    ∃ folder ∈ generatedDirectories, ∃ name, l = root ++ [folder, name] := by
  obtain ⟨folder, among, names, some, rfl⟩ := generated
  match names with
  | [name] => exact ⟨folder, among, name, rfl⟩
  | first :: second :: rest =>
    exact absurd ⟨folder, among, _, by simp, rfl⟩ shallow

theorem writeEach_value {directory : FilePath} {files : List (String × String)}
    (success : (writeEach medium directory files).Succeeds d written after) :
    written = files.map fun file => directory.append (.ofText file.1) := by
  induction files generalizing d written after with
  | nil => exact (OnDisk.succeeds_pure.mp success).1.symm
  | cons file rest ih =>
    obtain ⟨_, between, first, success⟩ := OnDisk.succeeds_bind.mp success
    obtain ⟨more, _, others, success⟩ := OnDisk.succeeds_bind.mp success
    obtain ⟨rfl, -⟩ := OnDisk.succeeds_pure.mp success
    rw [List.map_cons, ih others]

theorem workingDirectory_of_removeEach
    (success : (removeEach o produced paths).Succeeds d removed after) :
    after.workingDirectory = d.workingDirectory := by
  induction paths generalizing d removed after with
  | nil => rw [(OnDisk.succeeds_pure.mp success).2]
  | cons path rest ih =>
    unfold removeEach at success
    obtain ⟨found, _, looking, success⟩ := OnDisk.succeeds_bind.mp success
    obtain ⟨-, rfl⟩ := OnDisk.succeeds_look.mp looking
    split at success
    · obtain ⟨_, between, removing, success⟩ := OnDisk.succeeds_bind.mp success
      obtain ⟨_, _, others, success⟩ := OnDisk.succeeds_bind.mp success
      obtain ⟨-, rfl⟩ := OnDisk.succeeds_pure.mp success
      obtain ⟨l, -, rfl⟩ := remove_succeeds.mp removing
      have same := ih others
      exact same
    · exact ih success

/-- What a run leaves that has written its files on the disk `d`, after which the disk is `between`,
and has then removed stale files, or has not been asked to. -/
structure Ran (o : Output) (files : Table String) (d between after : Disk) : Prop where
  wrote : d.Written between (writes d o.directory files.entries) (o.ways files d)
  cleaned : (o.removesStale = false ∧ after = between) ∨
    ∃ paths, o.candidates between = .ok paths ∧ o.Removed files.keys paths between after
  workingDirectory : after.workingDirectory = d.workingDirectory

theorem writeAllOn_ran (tree : d.IsTree)
    (success : (o.writeAllOn medium files).Succeeds d written after) :
    written = files.keys.map o.path ∧ ∃ between, o.Ran files d between after := by
  unfold writeAllOn at success
  obtain ⟨_, between, writing, success⟩ := OnDisk.succeeds_bind.mp success
  have wrote := writeEach_ok tree writing
  have value := writeEach_value writing
  split at success
  · obtain ⟨_, _, cleaning, success⟩ := OnDisk.succeeds_bind.mp success
    obtain ⟨rfl, rfl⟩ := OnDisk.succeeds_pure.mp success
    obtain ⟨paths, _, looking, removing⟩ := OnDisk.succeeds_bind.mp cleaning
    obtain ⟨found, rfl⟩ := OnDisk.succeeds_look.mp looking
    refine ⟨by rw [value, Table.keys, List.map_map]; rfl, between, wrote, .inr ⟨paths, found, ?_⟩,
      (workingDirectory_of_removeEach removing).trans wrote.workingDirectory⟩
    exact removeEach_ok wrote.tree removing
  · rename_i keeps
    obtain ⟨rfl, rfl⟩ := OnDisk.succeeds_pure.mp success
    refine ⟨by rw [value, Table.keys, List.map_map]; rfl, _, wrote, .inl ⟨?_, rfl⟩,
      wrote.workingDirectory⟩
    simpa using keeps

namespace Ran

theorem tree (ran : o.Ran files d between after) : after.IsTree := by
  rcases ran.cleaned with ⟨-, rfl⟩ | ⟨paths, -, cleaned⟩
  · exact ran.wrote.tree
  · exact cleaned.tree

theorem hasFile_between (ran : o.Ran files d between after) :
    between.hasFile l = true ↔
      (∃ name ∈ files.keys, d.destination (o.path name) = l) ∨ d.hasFile l = true := by
  rw [ran.wrote.hasFile_iff]
  refine or_congr_left ?_
  simp only [writes, Table.keys, List.mem_map, path]
  constructor
  · rintro ⟨_, ⟨file, member, rfl⟩, same⟩
    exact ⟨file.1, ⟨file, member, rfl⟩, same⟩
  · rintro ⟨_, ⟨file, member, rfl⟩, same⟩
    exact ⟨_, ⟨file, member, rfl⟩, same⟩

/-- A file that is there after a run was written by it, or was there before. -/
theorem written_or_before (ran : o.Ran files d between after) (file : after.hasFile l = true) :
    (∃ name ∈ files.keys, d.destination (o.path name) = l) ∨ d.hasFile l = true := by
  rw [← ran.hasFile_between]
  rcases ran.cleaned with ⟨-, rfl⟩ | ⟨paths, -, cleaned⟩
  · exact file
  · by_cases dropped : o.Drops files.keys paths between l
    · rw [Disk.hasFile, cleaned.gone dropped] at file
      cases file
    · rwa [Disk.hasFile, cleaned.kept dropped] at file

/-- What lies deeper is not looked for, and stays. -/
theorem hasFile_of_nested (ran : o.Ran files d between after)
    (optional : ∀ name ∈ o.optionalFiles,
      FilePath.IsInside name ∧ (FilePath.ofText name).names.length = 1)
    (nested : IsNested (d.destination o.directory) l)
    (file : (∃ name ∈ files.keys, d.destination (o.path name) = l) ∨ d.hasFile l = true) :
    after.hasFile l = true := by
  rw [← ran.hasFile_between] at file
  rcases ran.cleaned with ⟨-, rfl⟩ | ⟨paths, found, cleaned⟩
  · exact file
  rw [Disk.hasFile, cleaned.kept]
  · exact file
  rintro ⟨-, q, member, -, located⟩
  have inside := fun name among => (optional name among).1
  obtain ⟨names, left, rfl⟩ := mayLeave_of_candidates inside found member
  obtain ⟨-, rfl⟩ := locate?_below (plain_of_mayLeave inside left) located
  obtain ⟨folder, -, deep, long, same⟩ := nested
  rw [Disk.destination_of_workingDirectory ran.wrote.workingDirectory,
    List.append_cancel_left_eq] at same
  -- the names that are looked for are a file, or a folder and a file
  have short : names.length ≤ 2 := by
    rcases left with ⟨_, -, _, -, rfl⟩ | ⟨name, among, rfl⟩
    · exact Nat.le_refl 2
    · rw [(optional name among).2]
      omega
  rw [same, List.length_cons] at short
  omega

/-- A source directly in a generated directory is there after a run that removes stale files only if
the run has written it. -/
theorem written_of_direct (ran : o.Ran files d between after) (tree : d.IsTree)
    (removes : o.removesStale = true) (optional : ∀ name ∈ o.optionalFiles, FilePath.IsInside name)
    (entered : ∃ name ∈ files.keys, FilePath.IsInside name) {folder name : String}
    (generated : folder ∈ generatedDirectories) (ending : sourceEnding.toList <:+ name.toList)
    (file : after.hasFile (d.destination o.directory ++ [folder, name]) = true) :
    ∃ given ∈ files.keys,
      d.destination (o.path given) = d.destination o.directory ++ [folder, name] := by
  obtain ⟨paths, found, cleaned⟩ : ∃ paths, o.candidates between = .ok paths ∧
      o.Removed files.keys paths between after := by
    rcases ran.cleaned with ⟨keeps, -⟩ | cleaning
    · rw [removes] at keeps
      cases keeps
    · exact cleaning
  have stays : ¬o.Drops files.keys paths between (d.destination o.directory ++ [folder, name]) := by
    intro dropped
    rw [Disk.hasFile, cleaned.gone dropped] at file
    cases file
  rw [Disk.hasFile, cleaned.kept stays] at file
  obtain ⟨entry, present, -⟩ := (Option.any_eq_true ..).mp file
  by_contra new
  refine stays ⟨file, ?_⟩
  have left : o.MayLeave [folder, name] := .inl ⟨folder, generated, name, ending, rfl⟩
  have root := Disk.destination_of_workingDirectory ran.wrote.workingDirectory o.directory
  have followed : between.follow (between.start o.directory) o.directory.names =
      some (between.destination o.directory) := by
    obtain ⟨given, member, inside⟩ := entered
    rw [Disk.start_of_workingDirectory ran.wrote.workingDirectory, root]
    refine Disk.follow_of_trail (ran.wrote.directories (tree.start o.directory)) ?_
    intro m among
    exact ran.wrote.passed (approach_subset_ways member (trail_subset_approach inside among))
  rw [← root] at present ⊢
  have candidate := below_mem_candidates ran.wrote.tree optional found left followed present
  refine ⟨_, candidate, ?_, ?_⟩
  · rw [← Bool.not_eq_true, below, isProduced_append rfl]
    rintro ⟨given, member, spells⟩
    refine new ⟨given, member, ?_⟩
    rw [path, spells]
    exact destination_append d o.directory rfl (plain_of_mayLeave optional left)
  · exact locate?_of_follow ran.wrote.tree (cleaned.fits _ candidate)
      (follow_below ran.wrote.tree (plain_of_mayLeave optional left) followed present) present

end Ran

theorem not_isNested_of_short {name : String} (inside : FilePath.IsInside name)
    (short : (FilePath.ofText name).names.length ≤ 2) :
    ¬IsNested (d.destination o.directory) (d.destination (o.path name)) := by
  rintro ⟨folder, -, names, deep, same⟩
  rw [destination_path inside, List.append_cancel_left_eq] at same
  rw [same, List.length_cons] at short
  omega

/-- A path that is spelled with the ending of sources leads to a source. -/
theorem exists_destination_source (d : Disk) (o : Output) (stem : String) :
    ∃ above name,
      d.destination (o.path (stem ++ sourceEnding)) = above ++ [name ++ sourceEnding] := by
  obtain ⟨above, name, names, plain⟩ :=
    FilePath.namesOf_append stem (show '/' ∉ sourceEnding.toList by decide) (by decide)
  obtain ⟨before, ends⟩ : ∃ before,
      (o.path (stem ++ sourceEnding)).names = before ++ [name ++ sourceEnding] := by
    unfold path FilePath.append
    split
    · exact ⟨above, names⟩
    · refine ⟨o.directory.names ++ above, ?_⟩
      rw [List.append_assoc, ← names]
      rfl
  exact ⟨_, name, Disk.destination_of_concat ends plain⟩

end Output

namespace Client

open OnDisk Output

variable {platform next : Platform} {engine : TemplateEngine} {config first second : Config}
  {document earlier later : Value} {directory : FilePath}
  {d after : Disk} {api : Api} {templates : Templates} {table : Table String}
  {written more : List FilePath} {key stem : String}

/-- A run succeeds exactly if its files can be made and written. -/
theorem generateOn_succeeds :
    (generateOn platform config document directory).Succeeds d written after ↔
      ∃ files, (platform.engine.render config (templatesOn d config) document).outcome =
          .ok files ∧
        ((outputFor config directory).writeAllOn platform.medium files).Succeeds d written
          after := by
  constructor
  · intro success
    unfold generateOn at success
    obtain ⟨_, _, looking, success⟩ := succeeds_bind.mp success
    obtain ⟨same, rfl⟩ := succeeds_look.mp looking
    cases same
    obtain ⟨files, _, ⟨rendered, rfl⟩, success⟩ := succeeds_bind.mp success
    obtain ⟨_, _, writing, success⟩ := succeeds_bind.mp success
    obtain ⟨_, _, noting, success⟩ := succeeds_bind.mp success
    obtain ⟨rfl, rfl⟩ := succeeds_pure.mp success
    obtain rfl := succeeds_note.mp noting
    exact ⟨files, rendered, writing⟩
  · rintro ⟨files, rendered, writing⟩
    refine succeeds_bind.mpr ⟨_, d, succeeds_look.mpr ⟨rfl, rfl⟩, succeeds_bind.mpr ?_⟩
    refine ⟨files, d, ⟨rendered, rfl⟩, succeeds_bind.mpr ⟨written, after, writing, ?_⟩⟩
    exact succeeds_bind.mpr ⟨(), after, succeeds_note.mpr rfl, succeeds_pure.mpr ⟨rfl, rfl⟩⟩

/-- The files of a document are those that are planned for what it compiles to. -/
theorem render_eq_ok
    (rendered : (engine.render config templates document).outcome = .ok table) :
    ∃ api, (Api.compile config document).outcome = .ok api ∧
      ∀ key, key ∈ table.keys ↔ key ∈ (plans ⟨config, api.rootUrl⟩ api).map FilePlan.path := by
  obtain ⟨api, compiled, made⟩ := Logged.outcome_bind_eq_ok.mp rendered
  obtain ⟨entries, texts, made⟩ := bind_eq_ok.mp made
  cases made
  refine ⟨api, compiled, fun key => ?_⟩
  rw [Table.mem_keys_ofList, map_fst_texts texts]

/-- All files that are generated have the ending of sources. -/
theorem exists_stem_of_mem_plans {g : Globals}
    (planned : key ∈ (plans g api).map FilePlan.path) : ∃ stem, key = stem ++ sourceEnding := by
  rw [(perm_paths g api).mem_iff, List.mem_append, List.mem_append] at planned
  rcases planned with model | service | top
  · obtain ⟨stem, -, rfl⟩ := List.mem_map.mp model
    exact ⟨"models/" ++ stem, rfl⟩
  · obtain ⟨stem, -, rfl⟩ := List.mem_map.mp service
    exact ⟨"services/" ++ stem, rfl⟩
  · obtain ⟨stem, -, rfl⟩ := List.mem_map.mp top
    exact ⟨stem, rfl⟩

theorem isName_source (plain : '/' ∉ stem.toList) : FilePath.IsName (stem ++ sourceEnding) := by
  constructor
  · rw [String.toList_append, List.mem_append, not_or]
    exact ⟨plain, by decide⟩
  · intro among
    have brief : ∀ s ∈ ["", ".", ".."], s.length < 3 := by decide
    have short := brief _ among
    rw [String.length_append] at short
    exact absurd short (Nat.not_lt.mpr (Nat.le_add_left 3 _))

theorem modelPath_eq (stem : String) :
    modelPath stem = "models" ++ "/" ++ (stem ++ sourceEnding) := by
  have folder : "models/" = "models" ++ "/" := by decide
  rw [modelPath, folder, String.append_assoc, String.append_assoc, String.append_assoc]
  rfl

theorem servicePath_eq (stem : String) :
    servicePath stem = "services" ++ "/" ++ (stem ++ sourceEnding) := by
  have folder : "services/" = "services" ++ "/" := by decide
  rw [servicePath, folder, String.append_assoc, String.append_assoc, String.append_assoc]
  rfl

theorem isName_topPath {g : Globals} (shared : stem ∈ sharedStems g) :
    FilePath.IsName (topPath stem) :=
  isName_source (slash_not_mem_sharedStems g stem shared)

/-- The files that a configuration leaves out have names of their own. -/
theorem isName_of_omitted (omitted : key ∈ omittedFiles config) : FilePath.IsName key := by
  have shared : ∀ (stem : String) {wanted : Bool}, stem ∈ sharedStems ⟨config, ""⟩ →
      key ∈ (if wanted then [] else [topPath stem]) → FilePath.IsName key := by
    intro stem wanted shared among
    cases wanted with
    | true => cases among
    | false =>
      rw [List.mem_singleton.mp among]
      exact isName_topPath shared
  unfold omittedFiles at omitted
  rw [List.mem_append, List.mem_append] at omitted
  rcases omitted with (models | services) | module
  · exact shared "models" (by simp [sharedStems]) models
  · exact shared "services" (by simp [sharedStems]) services
  · exact shared (moduleStem config) (by simp [sharedStems]) module

/-- The names that the omitted files are known by are single ones. -/
theorem inside_of_omitted (omitted : key ∈ omittedFiles config) :
    FilePath.IsInside key ∧ (FilePath.ofText key).names.length = 1 :=
  ⟨(isName_of_omitted omitted).isInside, congrArg List.length (isName_of_omitted omitted).namesOf⟩

structure PlainSuffixes (config : Config) : Prop where
  model : '/' ∉ config.modelFileSuffix.toList
  service : '/' ∉ config.serviceFileSuffix.toList
  sample : config.generateExamples = true → '/' ∉ config.exampleFileSuffix.toList

/-- With such suffixes no file lies deeper than directly in a directory. -/
theorem not_isNested_of_plainSuffixes (plain : PlainSuffixes config)
    (compiled : (Api.compile config document).outcome = .ok api)
    (planned : key ∈ (plans ⟨config, api.rootUrl⟩ api).map FilePlan.path) (o : Output) :
    ¬IsNested (d.destination o.directory) (d.destination (o.path key)) := by
  have suffixed : ∀ {name suffix : String}, '/' ∉ suffix.toList →
      FilePath.IsName (Naming.fileStem (Naming.className name) ++ suffix ++ sourceEnding) := by
    intro name suffix absent
    refine isName_source ?_
    rw [String.toList_append, List.mem_append, not_or]
    exact ⟨Naming.slash_not_mem_fileStem name, absent⟩
  have inFolder : ∀ {folder name : String}, FilePath.IsName folder → FilePath.IsName name →
      ¬IsNested (d.destination o.directory) (d.destination (o.path (folder ++ "/" ++ name))) :=
    fun outer inner => not_isNested_of_short (outer.isInside_append inner)
      (Nat.le_of_eq (congrArg List.length (outer.namesOf_append inner)))
  rw [(perm_paths _ api).mem_iff, List.mem_append, List.mem_append] at planned
  rcases planned with model | service | top
  · obtain ⟨stem, among, rfl⟩ := List.mem_map.mp model
    have named : FilePath.IsName (stem ++ sourceEnding) := by
      rcases List.mem_append.mp among with own | sample
      · obtain ⟨m, member, rfl⟩ := List.mem_map.mp own
        obtain ⟨key, present⟩ := Table.mem_values.mp member
        obtain ⟨-, ⟨name, className⟩, stems⟩ := Api.named_of_compile compiled present
        rw [stems.fileStem, className]
        exact suffixed plain.model
      · obtain ⟨m, kept, rfl⟩ := List.mem_map.mp sample
        obtain ⟨member, there⟩ := List.mem_filter.mp kept
        obtain ⟨key, present⟩ := Table.mem_values.mp member
        obtain ⟨-, ⟨name, className⟩, stems⟩ := Api.named_of_compile compiled present
        rw [hasExample, Bool.and_eq_true] at there
        rw [stems.sampleFile, className]
        exact suffixed (plain.sample there.1)
    rw [modelPath_eq]
    exact inFolder (by decide) named
  · obtain ⟨stem, among, rfl⟩ := List.mem_map.mp service
    obtain ⟨s, member, rfl⟩ := List.mem_map.mp among
    obtain ⟨tag, present⟩ := Table.mem_values.mp member
    have named : FilePath.IsName (s.fileStem ++ sourceEnding) := by
      rw [Api.fileStem_of_compile compiled present]
      exact suffixed plain.service
    rw [servicePath_eq]
    exact inFolder (by decide) named
  · obtain ⟨stem, wanted, rfl⟩ := List.mem_map.mp top
    have named := isName_topPath ((wantedStems_sublist _).subset wanted)
    refine not_isNested_of_short named.isInside ?_
    exact (Nat.le_of_eq (congrArg List.length named.namesOf)).trans (Nat.le_succ 1)

/-- What a run that succeeds has done to a disk: the files that it gives are those of the compiled
document, and one of them is the base of all services. -/
structure Generated (config : Config) (document : Value) (directory : FilePath) (d : Disk)
    (written : List FilePath) (api : Api) (table : Table String) (between after : Disk) :
    Prop where
  compiled : (Api.compile config document).outcome = .ok api
  keys : ∀ key, key ∈ table.keys ↔ key ∈ (plans ⟨config, api.rootUrl⟩ api).map FilePlan.path
  written : written = table.keys.map (outputFor config directory).path
  ran : (outputFor config directory).Ran table d between after

theorem generated_of_succeeds (tree : d.IsTree)
    (success : (generateOn platform config document directory).Succeeds d written after) :
    ∃ api table between, Generated config document directory d written api table between after := by
  obtain ⟨table, rendered, writing⟩ := generateOn_succeeds.mp success
  obtain ⟨api, compiled, keys⟩ := render_eq_ok rendered
  obtain ⟨value, between, ran⟩ := writeAllOn_ran tree writing
  exact ⟨api, table, between, compiled, keys, value, ran⟩

namespace Generated

variable {between : Disk} {l : Location}

theorem exists_written
    (run : Generated config document directory d written api table between after) :
    (∃ p ∈ written, d.destination p = l) ↔
      ∃ key ∈ table.keys, d.destination ((outputFor config directory).path key) = l := by
  rw [run.written]
  simp only [List.mem_map, exists_exists_and_eq_and]

/-- A generated file that does not lie deeper is a source directly in a generated directory. -/
theorem direct (run : Generated config document directory d written api table between after)
    (given : ∃ p ∈ written, d.destination p = l)
    (generated : IsGenerated (d.destination directory) l)
    (shallow : ¬IsNested (d.destination directory) l) :
    ∃ folder ∈ generatedDirectories, ∃ name, sourceEnding.toList <:+ name.toList ∧
      l = d.destination directory ++ [folder, name] := by
  obtain ⟨key, member, leads⟩ := run.exists_written.mp given
  obtain ⟨stem, rfl⟩ := exists_stem_of_mem_plans ((run.keys key).mp member)
  obtain ⟨above, name, ends⟩ := exists_destination_source d (outputFor config directory) stem
  obtain ⟨folder, among, last, rfl⟩ := generated.direct shallow
  refine ⟨folder, among, last, ?_, rfl⟩
  rw [leads, List.append_cons] at ends
  have same : last = name ++ sourceEnding := (List.append_inj' ends rfl).2 |> List.singleton_inj.mp
  rw [same, String.toList_append]
  exact List.suffix_append _ _

theorem entered (run : Generated config document directory d written api table between after) :
    ∃ key ∈ table.keys, FilePath.IsInside key := by
  refine ⟨"base-service.ts", (run.keys _).mpr ?_, by decide⟩
  rw [(perm_paths _ api).mem_iff, map_topPath_wantedStems]
  simp

end Generated

/-- Whether a run leaves no files of earlier runs: every file in a generated directory of the output
directory is one of those that it gives. -/
def NoLeftovers (d after : Disk) (directory : FilePath) (more : List FilePath) : Prop :=
  ∀ l, IsGenerated (d.destination directory) l → after.hasFile l = true →
    ∃ p ∈ more, d.destination p = l

/-- After a run into an empty directory, a run that removes stale files leaves none exactly if it
writes all files of the first run again that lie deeper than directly in a generated directory.
There are no such files if the suffixes of the first run have no slash. This is so whatever the
templates of the two runs mean. -/
theorem noLeftovers_iff (tree : d.IsTree)
    (empty : ∀ names, names ≠ [] → d.get? (d.destination directory ++ names) = none)
    (wrote : (generateOn platform first earlier directory d).outcome = .ok written)
    (cleans : second.removeStaleFiles = true)
    (again : (generateOn next second later directory
      (generateOn platform first earlier directory d).disk).outcome = .ok more) :
    (NoLeftovers d (generateOn next second later directory
        (generateOn platform first earlier directory d).disk).disk directory more ↔
      ∀ p ∈ written, IsNested (d.destination directory) (d.destination p) →
        ∃ q ∈ more, d.destination q = d.destination p) ∧
    (PlainSuffixes first →
      NoLeftovers d (generateOn next second later directory
        (generateOn platform first earlier directory d).disk).disk directory more) := by
  obtain ⟨api, table, between, run⟩ := generated_of_succeeds tree ⟨wrote, rfl⟩
  generalize (generateOn platform first earlier directory d).disk = left at run again ⊢
  obtain ⟨laterApi, laterTable, laterBetween, rerun⟩ :=
    generated_of_succeeds run.ran.tree ⟨again, rfl⟩
  generalize (generateOn next second later directory left).disk = last at rerun ⊢
  have same : ∀ p, left.destination p = d.destination p :=
    Disk.destination_of_workingDirectory run.ran.workingDirectory
  -- what is left of the first run is what it has written
  have fromFirst : ∀ l, IsGenerated (d.destination directory) l → left.hasFile l = true →
      ∃ p ∈ written, d.destination p = l := by
    rintro l ⟨folder, -, names, -, rfl⟩ file
    rcases run.ran.written_or_before file with given | before
    · exact run.exists_written.mpr given
    · rw [Disk.hasFile, empty _ (List.cons_ne_nil _ _)] at before
      cases before
  have exact : NoLeftovers d last directory more ↔
      ∀ p ∈ written, IsNested (d.destination directory) (d.destination p) →
        ∃ q ∈ more, d.destination q = d.destination p := by
    constructor
    · intro clean p member nested
      refine clean _ nested.isGenerated ?_
      have early : left.hasFile (d.destination p) = true :=
        run.ran.hasFile_of_nested (fun _ => inside_of_omitted) nested
          (.inl (run.exists_written.mp ⟨p, member, rfl⟩))
      refine rerun.ran.hasFile_of_nested (fun _ => inside_of_omitted) ?_ (.inr early)
      exact (same directory).symm ▸ nested
    · intro rewritten l generated file
      rcases rerun.ran.written_or_before file with given | before
      · obtain ⟨q, member, leads⟩ := rerun.exists_written.mpr given
        exact ⟨q, member, same q ▸ leads⟩
      obtain ⟨p, member, rfl⟩ := fromFirst l generated before
      by_cases nested : IsNested (d.destination directory) (d.destination p)
      · exact rewritten p member nested
      · obtain ⟨folder, among, name, ending, place⟩ := run.direct ⟨p, member, rfl⟩ generated nested
        rw [place, ← same directory] at file
        obtain ⟨q, member, leads⟩ := rerun.exists_written.mpr
          (rerun.ran.written_of_direct run.ran.tree cleans
            (fun _ omitted => (inside_of_omitted omitted).1) rerun.entered among ending file)
        exact ⟨q, member, by rw [← same q, leads, place, ← same directory]; rfl⟩
  refine ⟨exact, fun plain => exact.mpr ?_⟩
  intro p member nested
  obtain ⟨key, given, leads⟩ := run.exists_written.mp ⟨p, member, rfl⟩
  rw [← leads] at nested
  exact absurd nested
    (not_isNested_of_plainSuffixes plain run.compiled ((run.keys key).mp given) _)

/-- A run succeeds that can make its files and write them, where all names are short. -/
theorem generateOn_of_short {between : Disk}
    (rendered : (platform.engine.render config (templatesOn d config) document).outcome = .ok table)
    (writing : (writeEach platform.medium directory table.entries).Succeeds d written between)
    (folders : ∀ folder ∈ generatedDirectories, (directory.child folder).IsShort)
    (sources : ∀ folder ∈ generatedDirectories, ∀ entry ∈ between.entries,
      ((directory.child folder).child ((entry.1.getLast?).getD "")).IsShort)
    (optional : ∀ name ∈ omittedFiles config, (directory.append (.ofText name)).IsShort) :
    (generateOn platform config document directory d).outcome = .ok written := by
  obtain ⟨after, writesAll⟩ : ∃ after,
      ((outputFor config directory).writeAllOn platform.medium table).Succeeds d written after := by
    cases removes : config.removeStaleFiles with
    | true =>
      obtain ⟨removed, after, cleaning⟩ := exists_removeStale (o := outputFor config directory)
        folders sources optional table.keys
      exact ⟨after, (writeAll_succeeds removes).mpr ⟨between, writing, removed, cleaning⟩⟩
    | false =>
      have keeps : (outputFor config directory).removesStale = false := removes
      refine ⟨between, succeeds_bind.mpr ⟨written, between, writing, ?_⟩⟩
      rw [keeps]
      exact succeeds_pure.mpr ⟨rfl, rfl⟩
  exact (generateOn_succeeds.mpr ⟨table, rendered, writesAll⟩).outcome

def emptyDisk : Disk where
  workingDirectory := ["home"]
  entries := [(["home"], .directory), (["home", "out"], .directory)]

theorem isTree_emptyDisk : emptyDisk.IsTree :=
  Disk.isTree_of_entries (by decide) (by decide)

theorem get?_emptyDisk (names : List String) (below : names ≠ []) :
    emptyDisk.get? (emptyDisk.destination (.ofText "out") ++ names) = none := by
  have place : emptyDisk.destination (.ofText "out") = ["home", "out"] := by decide
  obtain ⟨name, rest, rfl⟩ := List.exists_cons_of_ne_nil below
  rw [place]
  rfl

def modelDocument (name : String) : Value :=
  .object [(.text "swagger", .text "2.0"),
    (.text "definitions", .object [(.text name, .object [(.text "type", .text "object")])])]

/-- The entries of a configuration that keeps all models, with a suffix for their files. -/
def suffixEntries (suffix : String) : Value :=
  .object [(.text "ignoreUnusedModels", .bool false),
    (.text Config.suffixesKey, .object [(.text "model", .text suffix)])]

/-- The configuration that is read from these entries. -/
def suffixConfig (suffix : String) : Config :=
  { ignoreUnusedModels := false, modelFileSuffix := suffix }

/-- The files of a document that are made without templates. -/
def filesOf (config : Config) (document : Value) : Table String :=
  ((render config (fun _ => none) document).outcome.toOption).getD .empty

/-- The paths of the file of one model and of those that are there for every document. -/
def pathsWith (model : String) : List FilePath :=
  [model, "out/models.ts", "out/services.ts", "out/api.module.ts", "out/api-configuration.ts",
    "out/strict-http-response.ts", "out/base-service.ts"].map .ofText

def petDisk (suffix : String) : Disk :=
  (generate (suffixConfig suffix) (modelDocument "Pet") (.ofText "out") emptyDisk).disk

/-- A run for pets and then one for cats, of which what they write is computed. -/
theorem generate_cats (suffix : String) (paths : List FilePath)
    (runs : (generate (suffixConfig suffix) (modelDocument "Pet") (.ofText "out")
        emptyDisk).outcome = .ok paths ∧
      (writeEach .willing (.ofText "out") (filesOf (suffixConfig "") (modelDocument "Cat")).entries
        (petDisk suffix)).outcome = .ok (pathsWith "out/models/cat.ts") ∧
      ∀ folder ∈ generatedDirectories, ∀ entry ∈ (writeEach .willing (.ofText "out")
          (filesOf (suffixConfig "") (modelDocument "Cat")).entries (petDisk suffix)).disk.entries,
        (((FilePath.ofText "out").child folder).child ((entry.1.getLast?).getD "")).IsShort) :
    (generate (suffixConfig suffix) (modelDocument "Pet") (.ofText "out") emptyDisk).outcome =
        .ok paths ∧
      (generate (suffixConfig "") (modelDocument "Cat") (.ofText "out")
        (generate (suffixConfig suffix) (modelDocument "Pet") (.ofText "out")
          emptyDisk).disk).outcome = .ok (pathsWith "out/models/cat.ts") := by
  have renders : (render (suffixConfig "") (fun _ => none)
      (modelDocument "Cat")).outcome.toBool = true := by
    decide +kernel
  have rendered : (render (suffixConfig "") (fun _ => none) (modelDocument "Cat")).outcome =
      .ok (filesOf (suffixConfig "") (modelDocument "Cat")) := by
    unfold filesOf
    cases made : (render (suffixConfig "") (fun _ => none) (modelDocument "Cat")).outcome with
    | error e =>
      rw [made] at renders
      cases renders
    | ok table => rfl
  obtain ⟨pets, writing, sources⟩ := runs
  rw [petDisk] at writing sources
  exact ⟨pets, generateOn_of_short rendered ⟨writing, rfl⟩ (by decide) sources (by decide)⟩

/-- The file of a model that is no longer defined is removed. -/
theorem noLeftovers_cats :
    emptyDisk.IsTree ∧
      (∀ names, names ≠ [] →
        emptyDisk.get? (emptyDisk.destination (.ofText "out") ++ names) = none) ∧
      (generate (suffixConfig "") (modelDocument "Pet") (.ofText "out") emptyDisk).outcome =
        .ok (pathsWith "out/models/pet.ts") ∧
      (suffixConfig "").removeStaleFiles = true ∧ PlainSuffixes (suffixConfig "") ∧
      (generate (suffixConfig "") (modelDocument "Cat") (.ofText "out") (petDisk "")).outcome =
        .ok (pathsWith "out/models/cat.ts") ∧
      NoLeftovers emptyDisk
        (generate (suffixConfig "") (modelDocument "Cat") (.ofText "out") (petDisk "")).disk
        (.ofText "out") (pathsWith "out/models/cat.ts") := by
  obtain ⟨wrote, again⟩ :=
    generate_cats "" (pathsWith "out/models/pet.ts") (by decide +kernel)
  have plain : PlainSuffixes (suffixConfig "") := ⟨by decide, by decide, by decide⟩
  rw [petDisk]
  exact ⟨isTree_emptyDisk, get?_emptyDisk, wrote, rfl, plain, again,
    (noLeftovers_iff isTree_emptyDisk get?_emptyDisk wrote rfl again).2 plain⟩

/-- The file of a model stays that a suffix has put in a directory of its own. -/
theorem leftover_of_slash : ∃ first second,
    Config.ofValue (suffixEntries "/model") = .ok first ∧
      Config.ofValue (suffixEntries "") = .ok second ∧ second.removeStaleFiles = true ∧
      emptyDisk.IsTree ∧
      (∀ names, names ≠ [] →
        emptyDisk.get? (emptyDisk.destination (.ofText "out") ++ names) = none) ∧
      (generate first (modelDocument "Pet") (.ofText "out") emptyDisk).outcome =
        .ok (pathsWith "out/models/pet/model.ts") ∧
      (generate second (modelDocument "Cat") (.ofText "out")
        (generate first (modelDocument "Pet") (.ofText "out") emptyDisk).disk).outcome =
          .ok (pathsWith "out/models/cat.ts") ∧
      ¬NoLeftovers emptyDisk
        (generate second (modelDocument "Cat") (.ofText "out")
          (generate first (modelDocument "Pet") (.ofText "out") emptyDisk).disk).disk
        (.ofText "out") (pathsWith "out/models/cat.ts") := by
  obtain ⟨wrote, again⟩ :=
    generate_cats "/model" (pathsWith "out/models/pet/model.ts") (by decide +kernel)
  refine ⟨suffixConfig "/model", suffixConfig "", by decide +kernel, by decide +kernel, rfl,
    isTree_emptyDisk, get?_emptyDisk, wrote, again, ?_⟩
  intro clean
  have nested : IsNested (emptyDisk.destination (.ofText "out"))
      ["home", "out", "models", "pet", "model.ts"] :=
    ⟨"models", by decide, ["pet", "model.ts"], by decide, by decide⟩
  obtain ⟨_, _, _, run⟩ := generated_of_succeeds isTree_emptyDisk ⟨wrote, rfl⟩
  obtain ⟨_, _, _, rerun⟩ := generated_of_succeeds run.ran.tree ⟨again, rfl⟩
  have early := run.ran.hasFile_of_nested (fun _ => inside_of_omitted) nested
    (.inl (run.exists_written.mp ⟨.ofText "out/models/pet/model.ts", by decide, by decide⟩))
  have stays := rerun.ran.hasFile_of_nested (fun _ => inside_of_omitted)
    (by rw [Disk.destination_of_workingDirectory run.ran.workingDirectory]; exact nested)
    (.inr early)
  exact absurd (clean _ nested.isGenerated stays) (by decide +kernel)

end Client

end ClientGen
