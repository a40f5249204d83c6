import ClientGen.Proofs.FileWrites
import ClientGen.Proofs.Runs

/-!
# Stale files

After the files of a run have been written, the files of earlier runs that are not among them are
removed: the sources that lie in the generated directories, and the optional files. What is written
and what is removed together say what stands at every location afterwards
(`Output.writeAll_leaves`).
-/
namespace ClientGen

namespace FilePath

/-- A text spells a path below a directory: it starts there, names something, and does not lead
up. -/
def IsInside (s : String) : Prop :=
  (ofText s).absolute = false ∧ (ofText s).names ≠ [] ∧ ".." ∉ (ofText s).names

instance (s : String) : Decidable (IsInside s) :=
  inferInstanceAs (Decidable (_ ∧ _ ∧ _))

end FilePath

namespace Disk

variable {d : Disk} {l : Location} {name : String}

/-- The names in a directory are those of the locations just below it. -/
theorem mem_namesIn : name ∈ d.namesIn l ↔ (d.get? (l ++ [name])).isSome = true := by
  unfold namesIn get?
  dsimp only
  rw [List.mem_mergeSort, List.mem_filterMap, if_neg (by simp), List.lookup_isSome_iff]
  constructor
  · rintro ⟨⟨m, entry⟩, present, named⟩
    dsimp only at named
    split at named
    · rename_i below
      refine ⟨(m, entry), present, ?_⟩
      rw [← below.2, List.dropLast_append_getLast? name named]
      exact beq_self_eq_true _
    · cases named
  · rintro ⟨⟨m, entry⟩, present, same⟩
    obtain rfl := eq_of_beq same
    refine ⟨_, present, ?_⟩
    simp

/-- What stands at a location in a disk in which a file is erased, and the other way round. -/
theorem directories_erase (other : d.get? l ≠ some .directory) (m : Location) :
    (d.erase l).get? m = some .directory ↔ d.get? m = some .directory := by
  rw [d.get?_erase l m (ne_nil_of_get? other)]
  split
  · rename_i same
    subst m
    simp [other]
  · exact Iff.rfl

end Disk

namespace Output

/-- The path of a file that is named below the directory. -/
def path (o : Output) (name : String) : FilePath :=
  o.directory.append (.ofText name)

/-- The text that a table of files gives to a path: that of the last name that spells the path. -/
def lastText (files : Table String) (name : String) : Option String :=
  (files.entries.reverse.find? fun file =>
    FilePath.ofText file.1 = FilePath.ofText name).map Prod.snd

variable {medium : Medium} {o : Output} {d between after : Disk} {l m : Location}
  {name folder : String} {produced : List String} {paths removed : List FilePath}
  {names : List String} {files : Table String}

section Destinations

theorem destination_append (d : Disk) (p : FilePath) {q : FilePath} (relative : q.absolute = false)
    (plain : ".." ∉ q.names) : d.destination (p.append q) = d.destination p ++ q.names := by
  have appended : p.append q = ⟨p.absolute, p.names ++ q.names⟩ := by
    rw [FilePath.append, if_neg (by simp [relative])]
  have walked : Location.walk (d.start p) (p.names ++ q.names) = d.destination p ++ q.names := by
    rw [Location.walk_append, Location.walk_plain _ plain]
    rfl
  rw [appended]
  exact walked

theorem destination_path (inside : FilePath.IsInside name) :
    d.destination (o.path name) = d.destination o.directory ++ (FilePath.ofText name).names :=
  destination_append d o.directory inside.1 inside.2.2

/-- Names below a directory lead to one location exactly if they spell one path. -/
theorem destination_path_inj {other : String} (inside : FilePath.IsInside name)
    (among : FilePath.IsInside other) :
    d.destination (o.path name) = d.destination (o.path other) ↔
      FilePath.ofText name = FilePath.ofText other := by
  rw [destination_path inside, destination_path among, List.append_cancel_left_eq]
  constructor
  · intro same
    have both : (FilePath.ofText name).absolute = (FilePath.ofText other).absolute := by
      rw [inside.1, among.1]
    cases first : FilePath.ofText name
    cases second : FilePath.ofText other
    simp_all
  · intro same
    rw [same]

/-- The last write to the location of a name is that of the last name that spells its path. -/
theorem textAt_writes (inside : ∀ other ∈ files.keys, FilePath.IsInside other)
    (among : FilePath.IsInside name) :
    Disk.textAt (writes d o.directory files.entries) (d.destination (o.path name)) =
      lastText files name := by
  unfold Disk.textAt writes lastText
  rw [← List.map_reverse, List.find?_map, Option.map_map, ← List.head?_filter, ← List.head?_filter]
  refine congrArg (fun kept => (List.head? kept).map Prod.snd) (List.filter_congr ?_)
  intro file member
  have given := inside file.1 (List.mem_map_of_mem (List.mem_reverse.mp member))
  exact decide_eq_decide.mpr (destination_path_inj given among)

theorem textAt_writes_eq_none (apart : ∀ name ∈ files.keys, d.destination (o.path name) ≠ l) :
    Disk.textAt (writes d o.directory files.entries) l = none := by
  unfold Disk.textAt
  rw [Option.map_eq_none_iff, List.find?_eq_none]
  intro w member
  obtain ⟨file, among, rfl⟩ := List.mem_map.mp (List.mem_reverse.mp member)
  rw [decide_eq_true_iff]
  exact apart file.1 (List.mem_map_of_mem among)

theorem exists_lastText (given : name ∈ files.keys) : ∃ text, lastText files name = some text := by
  obtain ⟨file, member, rfl⟩ := List.mem_map.mp given
  obtain ⟨last, found⟩ : ∃ last, files.entries.reverse.find?
      (fun other => decide (FilePath.ofText other.1 = FilePath.ofText file.1)) = some last := by
    rw [← Option.isSome_iff_exists, List.find?_isSome]
    exact ⟨file, List.mem_reverse.mpr member, by simp⟩
  exact ⟨last.2, by rw [lastText, found]; rfl⟩

/-- A path is produced exactly if one of the names spells what it adds to the directory. -/
theorem isProduced_append {q : FilePath} (relative : q.absolute = false) :
    o.isProduced produced (o.directory.append q) = true ↔
      ∃ name ∈ produced, FilePath.ofText name = q := by
  obtain ⟨absolute, names⟩ := q
  cases relative
  simp [isProduced, FilePath.append]

end Destinations

section Removal

/-- A file is dropped when one of the paths leads to it and is not produced. -/
def Drops (o : Output) (produced : List String) (paths : List FilePath) (d : Disk) (l : Location) :
    Prop :=
  (d.get? l).any Entry.isFile = true ∧
    ∃ path ∈ paths, o.isProduced produced path = false ∧ d.locate? path = some l

/-- What stands on a disk after files have been removed from it. -/
structure Removed (o : Output) (produced : List String) (paths : List FilePath) (d after : Disk) :
    Prop where
  gone : ∀ {l}, o.Drops produced paths d l → after.get? l = none
  kept : ∀ {l}, ¬ o.Drops produced paths d l → after.get? l = d.get? l
  fits : ∀ path ∈ paths, path.isPossible = true → path.isFit = true
  tree : after.IsTree

theorem remove_succeeds {path : FilePath} {value : Unit} :
    (remove path).Succeeds d value after ↔ ∃ l, d.locate? path = some l ∧ d.erase l = after := by
  unfold remove
  refine OnDisk.succeeds_bind.trans ?_
  constructor
  · rintro ⟨_, _, noted, outcome, disk⟩
    obtain rfl := OnDisk.succeeds_note.mp noted
    cases located : d.locate? path with
    | none =>
      rw [located] at outcome
      cases outcome
    | some l =>
      rw [located] at disk
      exact ⟨l, rfl, disk⟩
  · rintro ⟨l, located, rfl⟩
    refine ⟨(), d, OnDisk.succeeds_note.mpr rfl, ?_⟩
    constructor
    · rw [located]
    · rw [located]

/-- A path that leads to a file that is not produced drops the file. -/
theorem drops_cons_of_removed {path : FilePath} (other : d.get? l ≠ some .directory)
    (file : (d.get? l).any Entry.isFile = true) (located : d.locate? path = some l)
    (absent : o.isProduced produced path = false) :
    o.Drops produced (path :: paths) d m ↔ m = l ∨ o.Drops produced paths (d.erase l) m := by
  have erased := d.get?_erase l m (Disk.ne_nil_of_get? other)
  have same : ∀ p, (d.erase l).locate? p = d.locate? p :=
    Disk.locate?_of_directories (Disk.directories_erase other) rfl
  constructor
  · rintro ⟨there, p, member, new, leads⟩
    by_cases here : m = l
    · exact .inl here
    · rw [if_neg here] at erased
      rcases List.mem_cons.mp member with rfl | later
      · rw [located] at leads
        exact absurd (Option.some.inj leads).symm here
      · exact .inr ⟨by rwa [erased], p, later, new, by rwa [same]⟩
  · rintro (rfl | ⟨there, p, member, new, leads⟩)
    · exact ⟨file, path, List.mem_cons_self, absent, located⟩
    · rw [erased] at there
      split at there
      · cases there
      · exact ⟨there, p, List.mem_cons_of_mem path member, new, same p ▸ leads⟩

/-- A path that leads to no file, or that is produced, drops nothing. -/
theorem drops_cons_of_kept {path : FilePath}
    (stays : ((d.find? path).any Entry.isFile && !o.isProduced produced path) = false) :
    o.Drops produced (path :: paths) d m ↔ o.Drops produced paths d m := by
  constructor
  · rintro ⟨there, p, member, new, leads⟩
    rcases List.mem_cons.mp member with rfl | later
    · rw [Disk.find?, leads, Option.bind_some, there, new] at stays
      cases stays
    · exact ⟨there, p, later, new, leads⟩
  · rintro ⟨there, p, member, new, leads⟩
    exact ⟨there, p, List.mem_cons_of_mem path member, new, leads⟩

/-- Exactly the files that the paths drop are removed. -/
theorem removeEach_ok (tree : d.IsTree)
    (success : (removeEach o produced paths).Succeeds d removed after) :
    o.Removed produced paths d after := by
  induction paths generalizing d removed with
  | nil =>
    obtain ⟨-, rfl⟩ := OnDisk.succeeds_pure.mp success
    exact ⟨fun ⟨_, _, member, _⟩ => absurd member List.not_mem_nil, fun _ => rfl, by simp, tree⟩
  | cons path rest ih =>
    unfold removeEach at success
    obtain ⟨found, _, looking, success⟩ := OnDisk.succeeds_bind.mp success
    obtain ⟨looked, rfl⟩ := OnDisk.succeeds_look.mp looking
    have fits := Disk.isFit_of_lookFor looked
    rw [← Disk.find?_of_lookFor looked] at success
    split at success
    · rename_i leaves
      obtain ⟨_, between, removing, success⟩ := OnDisk.succeeds_bind.mp success
      obtain ⟨_, _, others, success⟩ := OnDisk.succeeds_bind.mp success
      obtain ⟨-, rfl⟩ := OnDisk.succeeds_pure.mp success
      obtain ⟨l, located, rfl⟩ := remove_succeeds.mp removing
      rw [Bool.and_eq_true, Disk.find?, located, Option.bind_some, Bool.not_eq_true'] at leaves
      have other : d.get? l ≠ some .directory := by
        intro here
        rw [here] at leaves
        cases leaves.1
      have later := ih (tree.erase other) others
      have drops : ∀ m, o.Drops produced (path :: rest) d m ↔
          m = l ∨ o.Drops produced rest (d.erase l) m :=
        fun m => drops_cons_of_removed other leaves.1 located leaves.2
      have erased : ∀ m, (d.erase l).get? m = if m = l then none else d.get? m :=
        fun m => d.get?_erase l m (Disk.ne_nil_of_get? other)
      constructor
      · intro m dropped
        by_cases again : o.Drops produced rest (d.erase l) m
        · exact later.gone again
        · have same := ((drops m).mp dropped).resolve_right again
          rw [later.kept again, erased, if_pos same]
      · intro m stays
        rw [drops, not_or] at stays
        rw [later.kept stays.2, erased, if_neg stays.1]
      · exact List.forall_mem_cons.mpr ⟨fits, later.fits⟩
      · exact later.tree
    · rename_i stays
      have later := ih tree success
      have drops : ∀ m, o.Drops produced (path :: rest) d m ↔ o.Drops produced rest d m :=
        fun m => drops_cons_of_kept (by simpa using stays)
      constructor
      · intro m dropped
        exact later.gone ((drops m).mp dropped)
      · intro m stays
        exact later.kept fun dropped => stays ((drops m).mpr dropped)
      · exact List.forall_mem_cons.mpr ⟨fits, later.fits⟩
      · exact later.tree

end Removal

section Candidates

/-- The names below the directory of a file that an earlier run may have left: a source in a
generated directory, or an optional file. -/
def MayLeave (o : Output) (names : List String) : Prop :=
  (∃ folder ∈ generatedDirectories, ∃ name : String,
    sourceEnding.toList <:+ name.toList ∧ names = [folder, name]) ∨
  ∃ name ∈ o.optionalFiles, names = (FilePath.ofText name).names

def below (o : Output) (names : List String) : FilePath :=
  o.directory.append ⟨false, names⟩

theorem path_eq_below (inside : FilePath.IsInside name) :
    o.path name = o.below (FilePath.ofText name).names := by
  unfold path below
  rw [← inside.1]

theorem plain_of_mayLeave (optional : ∀ name ∈ o.optionalFiles, FilePath.IsInside name)
    (left : o.MayLeave names) : ".." ∉ names := by
  rcases left with ⟨folder, among, name, ending, rfl⟩ | ⟨name, among, rfl⟩
  · have apart : ∀ folder ∈ generatedDirectories, ".." ≠ folder := by decide
    intro dots
    rcases List.mem_pair.mp dots with rfl | rfl
    · exact apart _ among rfl
    · exact absurd ending (by decide)
  · exact (optional name among).2.2

/-- Where the names of the directory can be followed, so can those of what lies below it. -/
theorem follow_below (tree : d.IsTree) {entry : Entry} (plain : ".." ∉ names)
    (followed : d.follow (d.start o.directory) o.directory.names = some (d.destination o.directory))
    (present : d.get? (d.destination o.directory ++ names) = some entry) :
    d.follow (d.start (o.below names)) (o.below names).names =
      some (d.destination o.directory ++ names) := by
  have within : d.follow (d.start o.directory) (o.directory.names ++ names) =
      some (d.destination o.directory ++ names) := by
    rw [Disk.follow_append, followed, Option.bind_some, tree.follow_plain plain present]
  exact within

/-- What can be looked for below the directory is where its names are added to the directory. -/
theorem locate?_below (plain : ".." ∉ names) (located : d.locate? (o.below names) = some l) :
    d.follow (d.start o.directory) o.directory.names = some (d.destination o.directory) ∧
      l = d.destination o.directory ++ names := by
  constructor
  · have followed : d.follow (d.start o.directory) (o.directory.names ++ names) = some l :=
      (Disk.locate?_eq_some.mp located).2
    rw [Disk.follow_append, Option.bind_eq_some_iff] at followed
    obtain ⟨m, first, -⟩ := followed
    rw [first, Disk.eq_walk_of_follow first]
    rfl
  · rw [Disk.eq_destination_of_locate? located]
    exact destination_append d o.directory rfl plain

theorem locate?_of_follow (tree : d.IsTree) {p : FilePath} {entry : Entry}
    (fits : p.isPossible = true → p.isFit = true) (followed : d.follow (d.start p) p.names = some l)
    (present : d.get? l = some entry) : d.locate? p = some l :=
  Disk.locate?_eq_some.mpr ⟨fits (tree.possible_of_follow followed present), followed⟩

/-- The sources in a directory are the files and directories in it that have the right ending. -/
theorem mem_sourcesIn {p q : FilePath} (found : sourcesIn d p = .ok paths) :
    q ∈ paths ↔ ∃ l name, d.locate? p = some l ∧ d.get? l = some .directory ∧
      (d.get? (l ++ [name])).isSome = true ∧ sourceEnding.toList <:+ name.toList ∧
      q = p.child name := by
  unfold sourcesIn at found
  obtain ⟨entry, looked, found⟩ := bind_eq_ok.mp found
  rw [← Disk.find?_of_lookFor looked] at found
  split at found
  · rename_i here
    cases found
    obtain ⟨l, located, directory⟩ := Option.bind_eq_some_iff.mp here
    rw [located, Option.map_some, Option.getD_some, List.mem_map]
    constructor
    · rintro ⟨name, kept, rfl⟩
      obtain ⟨member, ending⟩ := List.mem_filter.mp kept
      exact ⟨l, name, rfl, directory, Disk.mem_namesIn.mp member,
        List.isSuffixOf_iff_suffix.mp ending, rfl⟩
    · rintro ⟨m, name, same, -, present, ending, rfl⟩
      cases same
      exact ⟨name, List.mem_filter.mpr ⟨Disk.mem_namesIn.mpr present,
        List.isSuffixOf_iff_suffix.mpr ending⟩, rfl⟩
  · rename_i other
    cases found
    constructor
    · intro member
      cases member
    · rintro ⟨l, name, located, directory, -⟩
      exact absurd (by rw [Disk.find?, located, Option.bind_some, directory]) other

theorem fits_of_sourcesIn {p : FilePath} (found : sourcesIn d p = .ok paths)
    (possible : p.isPossible = true) : p.isFit = true := by
  obtain ⟨entry, looked, -⟩ := bind_eq_ok.mp found
  exact Disk.isFit_of_lookFor looked possible

theorem exists_sourcesIn (found : o.candidates d = .ok paths)
    (generated : folder ∈ generatedDirectories) :
    ∃ sources, sourcesIn d (o.directory.child folder) = .ok sources := by
  obtain ⟨sources, passed, -⟩ := bind_eq_ok.mp found
  obtain ⟨part, -, read⟩ := exists_of_forall₂ (forall₂_of_mapM_ok passed) generated
  exact ⟨part, read⟩

theorem mem_candidates (found : o.candidates d = .ok paths) (q : FilePath) :
    q ∈ paths ↔ (∃ folder ∈ generatedDirectories, ∃ sources,
      sourcesIn d (o.directory.child folder) = .ok sources ∧ q ∈ sources) ∨
      ∃ name ∈ o.optionalFiles, q = o.path name := by
  unfold candidates at found
  obtain ⟨sources, passed, found⟩ := bind_eq_ok.mp found
  cases found
  have pairs := forall₂_of_mapM_ok passed
  rw [List.mem_append, List.mem_flatten, List.mem_map]
  refine or_congr ?_ ?_
  · constructor
    · rintro ⟨part, member, among⟩
      obtain ⟨folder, generated, same⟩ := exists_of_forall₂ pairs.flip member
      exact ⟨folder, generated, part, same, among⟩
    · rintro ⟨folder, generated, part, same, among⟩
      obtain ⟨other, member, found⟩ := exists_of_forall₂ pairs generated
      rw [same] at found
      cases found
      exact ⟨part, member, among⟩
  · constructor
    · rintro ⟨name, among, rfl⟩
      exact ⟨name, among, rfl⟩
    · rintro ⟨name, among, rfl⟩
      exact ⟨name, among, rfl⟩

/-- A path that is looked at when stale files are removed is that of a file that may be left. -/
theorem mayLeave_of_candidates (optional : ∀ name ∈ o.optionalFiles, FilePath.IsInside name)
    (found : o.candidates d = .ok paths) {q : FilePath} (member : q ∈ paths) :
    ∃ names, o.MayLeave names ∧ q = o.below names := by
  rcases (mem_candidates found q).mp member with ⟨folder, generated, sources, read, among⟩ |
    ⟨name, among, rfl⟩
  · obtain ⟨l, name, -, -, -, ending, rfl⟩ := (mem_sourcesIn read).mp among
    refine ⟨[folder, name], .inl ⟨folder, generated, name, ending, rfl⟩, ?_⟩
    simp [below, FilePath.append, FilePath.child]
  · exact ⟨_, .inr ⟨name, among, rfl⟩, path_eq_below (optional name among)⟩

/-- What is there of the files that may be left is looked at. -/
theorem below_mem_candidates (tree : d.IsTree)
    (optional : ∀ name ∈ o.optionalFiles, FilePath.IsInside name)
    (found : o.candidates d = .ok paths) {entry : Entry} (left : o.MayLeave names)
    (followed : d.follow (d.start o.directory) o.directory.names = some (d.destination o.directory))
    (present : d.get? (d.destination o.directory ++ names) = some entry) :
    o.below names ∈ paths := by
  rw [mem_candidates found]
  have plain := plain_of_mayLeave optional left
  rcases left with ⟨folder, generated, name, ending, rfl⟩ | ⟨name, among, rfl⟩
  · rw [List.append_cons] at present
    obtain ⟨sources, read⟩ := exists_sourcesIn found generated
    have outside : ".." ∉ [folder] := fun dots => plain (List.mem_append_left [name] dots)
    have here := tree.parent present
    have located : d.locate? (o.below [folder]) = some (d.destination o.directory ++ [folder]) :=
      locate?_of_follow tree (fits_of_sourcesIn read) (follow_below tree outside followed here) here
    refine .inl ⟨folder, generated, sources, read, (mem_sourcesIn read).mpr ?_⟩
    refine ⟨_, name, located, here, by rw [present]; rfl, ending, ?_⟩
    simp [below, FilePath.append, FilePath.child]
  · exact .inr ⟨name, among, (path_eq_below (optional name among)).symm⟩

end Candidates

section Cleaning

/-- The files of earlier runs that a run removes: those which may be left and which it does not
produce. They are found by way of the directory, which is there or is made for a file. -/
structure IsStale (o : Output) (files : Table String) (d : Disk) (l : Location) : Prop where
  file : (d.get? l).any Entry.isFile = true
  left : ∃ names, o.MayLeave names ∧ l = d.destination o.directory ++ names
  absent : ∀ name ∈ files.keys, d.destination (o.path name) ≠ l
  entered : files.entries ≠ [] ∨
    d.follow (d.start o.directory) o.directory.names = some (d.destination o.directory)

def ways (o : Output) (files : Table String) (d : Disk) : List Location :=
  files.entries.flatMap fun file => d.approach (o.path file.1)

theorem approach_subset_ways (given : name ∈ files.keys) :
    d.approach (o.path name) ⊆ o.ways files d := by
  obtain ⟨file, member, rfl⟩ := List.mem_map.mp given
  intro l among
  exact List.mem_flatMap.mpr ⟨file, member, among⟩

/-- The way to a file leads through the directory. -/
theorem trail_subset_approach (inside : FilePath.IsInside name) :
    Location.trail (d.start o.directory) o.directory.names ⊆ d.approach (o.path name) := by
  rw [path_eq_below inside]
  have way : d.approach (o.below (FilePath.ofText name).names) =
      Location.trail (d.start o.directory)
        (o.directory.names ++ (FilePath.ofText name).names).dropLast := rfl
  rw [way, List.dropLast_append_of_ne_nil inside.2.1, Location.trail_append]
  exact List.subset_append_left _ _

variable (tree : d.IsTree) (inside : ∀ name ∈ files.keys, FilePath.IsInside name)
  (optional : ∀ name ∈ o.optionalFiles, FilePath.IsInside name)
  (written : d.Written between (writes d o.directory files.entries) (o.ways files d))

include tree inside written in
/-- After the files have been written, the directory can be entered exactly if it was there, or a
file was written to it. -/
theorem entered_iff :
    between.follow (between.start o.directory) o.directory.names =
        some (between.destination o.directory) ↔
      files.entries ≠ [] ∨
        d.follow (d.start o.directory) o.directory.names = some (d.destination o.directory) := by
  have start := Disk.start_of_workingDirectory written.workingDirectory o.directory
  have root := Disk.destination_of_workingDirectory written.workingDirectory o.directory
  rw [start, root]
  constructor
  · intro followed
    by_cases none : files.entries = []
    · refine .inr ?_
      have same : ∀ m, between.get? m = d.get? m := by
        intro m
        refine written.kept ?_ ?_
        · simp [none, writes, Disk.textAt]
        · simp [ways, none]
      rw [← followed]
      refine Disk.follow_of_directories ?_ _ _
      intro m
      rw [same]
    · exact .inl none
  · rintro (some | followed)
    · obtain ⟨file, member⟩ := List.exists_mem_of_ne_nil _ some
      have given : file.1 ∈ files.keys := List.mem_map_of_mem member
      refine Disk.follow_of_trail (written.directories (tree.start o.directory)) ?_
      intro m among
      have way := trail_subset_approach (inside _ given) among
      exact written.passed (approach_subset_ways given way)
    · exact Disk.follow_mono (fun m => written.directories) followed

include tree inside optional written in
/-- Among the disk's files after the writes, the ones that are dropped are the stale ones. -/
theorem drops_iff_isStale (found : o.candidates between = .ok paths)
    (fits : ∀ path ∈ paths, path.isPossible = true → path.isFit = true) :
    o.Drops files.keys paths between l ↔ o.IsStale files d l := by
  have root := Disk.destination_of_workingDirectory written.workingDirectory o.directory
  constructor
  · rintro ⟨file, q, member, new, located⟩
    obtain ⟨names, left, rfl⟩ := mayLeave_of_candidates optional found member
    obtain ⟨followed, rfl⟩ := locate?_below (plain_of_mayLeave optional left) located
    rw [root] at file ⊢
    have absent : ∀ name ∈ files.keys,
        d.destination (o.path name) ≠ d.destination o.directory ++ names := by
      intro name given same
      rw [destination_path (inside name given), List.append_cancel_left_eq] at same
      have produced : o.isProduced files.keys (o.below names) = true := by
        refine (isProduced_append rfl).mpr ⟨name, given, ?_⟩
        rw [← same, ← (inside name given).1]
      rw [produced] at new
      cases new
    have same : between.get? (d.destination o.directory ++ names) =
        d.get? (d.destination o.directory ++ names) := by
      refine written.kept (textAt_writes_eq_none absent) ?_
      intro _ way
      rw [written.passed way] at file
      cases file
    exact ⟨same ▸ file, ⟨names, left, rfl⟩, absent, (entered_iff tree inside written).mp followed⟩
  · rintro ⟨file, ⟨names, left, rfl⟩, absent, entered⟩
    obtain ⟨entry, present, -⟩ := (Option.any_eq_true ..).mp file
    have same : between.get? (d.destination o.directory ++ names) =
        d.get? (d.destination o.directory ++ names) := by
      refine written.kept (textAt_writes_eq_none absent) ?_
      intro none
      rw [present] at none
      cases none
    have followed := (entered_iff tree inside written).mpr entered
    rw [← same, ← root] at present file
    rw [← root]
    have member := below_mem_candidates written.tree optional found left followed present
    refine ⟨file, o.below names, member, ?_, ?_⟩
    · rw [← Bool.not_eq_true, below, isProduced_append rfl]
      rintro ⟨name, given, spells⟩
      refine absent name given ?_
      rw [destination_path (inside name given), spells]
    · exact locate?_of_follow written.tree (fits _ member)
        (follow_below written.tree (plain_of_mayLeave optional left) followed present) present

structure Leaves (o : Output) (files : Table String) (d after : Disk) : Prop where
  /-- Every file is there with the last text that is given to its path. -/
  given : ∀ name ∈ files.keys, ∃ text, lastText files name = some text ∧
    after.get? (d.destination (o.path name)) = some (.file text)
  /-- Of what was there, exactly the stale files are gone. -/
  lost : ∀ l, d.get? l ≠ none → (after.get? l = none ↔ o.IsStale files d l)
  /-- All else that was there is as it was. -/
  kept : ∀ l, d.get? l ≠ none → ¬ o.IsStale files d l →
    (∀ name ∈ files.keys, d.destination (o.path name) ≠ l) → after.get? l = d.get? l
  /-- What was not there is one of the files, or a directory on the way to one. -/
  added : ∀ l, d.get? l = none → after.get? l ≠ none → ∃ name ∈ files.keys,
    d.destination (o.path name) = l ∨
      (l ∈ d.approach (o.path name) ∧ after.get? l = some .directory)
  tree : after.IsTree

include tree inside optional written in
theorem leaves_of_removed (found : o.candidates between = .ok paths)
    (cleaned : o.Removed files.keys paths between after) : o.Leaves files d after := by
  have drops : ∀ l, o.Drops files.keys paths between l ↔ o.IsStale files d l :=
    fun l => drops_iff_isStale tree inside optional written found cleaned.fits
  have present : ∀ {l}, d.get? l ≠ none → between.get? l ≠ none := by
    intro l there
    by_cases unwritten : Disk.textAt (writes d o.directory files.entries) l = none
    · rw [written.kept unwritten fun absent => absurd absent there]
      exact there
    · obtain ⟨text, last⟩ := Option.ne_none_iff_exists'.mp unwritten
      rw [written.written last]
      exact Option.some_ne_none _
  constructor
  · intro name given
    obtain ⟨text, last⟩ := exists_lastText given
    refine ⟨text, last, ?_⟩
    rw [cleaned.kept, written.written (by rw [textAt_writes inside (inside name given), last])]
    rw [drops]
    intro stale
    exact stale.absent name given rfl
  · intro l there
    rw [← drops]
    constructor
    · intro gone
      by_contra stays
      exact present there (cleaned.kept stays ▸ gone)
    · exact cleaned.gone
  · intro l there fresh apart
    rw [cleaned.kept ((drops l).not.mpr fresh), written.kept (textAt_writes_eq_none apart)]
    exact fun absent => absurd absent there
  · intro l absent now
    have stays : ¬ o.Drops files.keys paths between l := fun dropped => now (cleaned.gone dropped)
    rw [cleaned.kept stays] at now ⊢
    by_cases apart : ∀ name ∈ files.keys, d.destination (o.path name) ≠ l
    · have way : l ∈ o.ways files d := by
        by_contra outside
        exact now ((written.kept (textAt_writes_eq_none apart) fun _ => outside).trans absent)
      obtain ⟨file, member, among⟩ := List.mem_flatMap.mp way
      exact ⟨file.1, List.mem_map_of_mem member, .inr ⟨among, written.passed way⟩⟩
    · obtain ⟨name, given, same⟩ := by simpa using apart
      exact ⟨name, given, .inl same⟩
  · exact cleaned.tree

end Cleaning

section Progress

/-- Files with short paths can be removed. -/
theorem exists_removeEach (short : ∀ path ∈ paths, path.IsShort) (d : Disk) :
    ∃ removed after, (removeEach o produced paths).Succeeds d removed after := by
  induction paths generalizing d with
  | nil => exact ⟨[], d, OnDisk.succeeds_pure.mpr ⟨rfl, rfl⟩⟩
  | cons path rest ih =>
    obtain ⟨first, others⟩ := List.forall_mem_cons.mp short
    have looked := d.lookFor_of_short first
    unfold removeEach
    by_cases leaves : ((d.find? path).any Entry.isFile && !o.isProduced produced path) = true
    · obtain ⟨l, located⟩ : ∃ l, d.locate? path = some l := by
        rw [Bool.and_eq_true, Option.any_eq_true] at leaves
        obtain ⟨⟨entry, found, -⟩, -⟩ := leaves
        obtain ⟨l, located, -⟩ := Option.bind_eq_some_iff.mp found
        exact ⟨l, located⟩
      obtain ⟨removed, after, success⟩ := ih others (d.erase l)
      refine ⟨path :: removed, after, OnDisk.succeeds_bind.mpr
        ⟨_, d, OnDisk.succeeds_look.mpr ⟨looked, rfl⟩, ?_⟩⟩
      rw [if_pos leaves, OnDisk.succeeds_bind]
      refine ⟨(), _, remove_succeeds.mpr ⟨l, located, rfl⟩, OnDisk.succeeds_bind.mpr ?_⟩
      exact ⟨removed, after, success, OnDisk.succeeds_pure.mpr ⟨rfl, rfl⟩⟩
    · obtain ⟨removed, after, success⟩ := ih others d
      refine ⟨removed, after, OnDisk.succeeds_bind.mpr
        ⟨_, d, OnDisk.succeeds_look.mpr ⟨looked, rfl⟩, ?_⟩⟩
      rw [if_neg leaves]
      exact success

theorem exists_sourcesIn_of_short {p : FilePath} (short : p.IsShort) (d : Disk) :
    ∃ sources, sourcesIn d p = .ok sources := by
  refine exists_bind_eq_ok ⟨_, d.lookFor_of_short short⟩ fun found => ?_
  split
  · exact ⟨_, rfl⟩
  · exact ⟨_, rfl⟩

theorem exists_candidates
    (short : ∀ folder ∈ generatedDirectories, (o.directory.child folder).IsShort)
    (d : Disk) : ∃ paths, o.candidates d = .ok paths := by
  refine exists_bind_eq_ok (exists_mapM_eq_ok ?_) fun sources => ⟨_, rfl⟩
  intro folder generated
  exact exists_sourcesIn_of_short (short folder generated) d

/-- Stale files can be removed where all names are short. -/
theorem exists_removeStale
    (folders : ∀ folder ∈ generatedDirectories, (o.directory.child folder).IsShort)
    (sources : ∀ folder ∈ generatedDirectories, ∀ entry ∈ d.entries,
      ((o.directory.child folder).child ((entry.1.getLast?).getD "")).IsShort)
    (optional : ∀ name ∈ o.optionalFiles, (o.path name).IsShort) (produced : List String) :
    ∃ removed after, (o.removeStale produced).Succeeds d removed after := by
  obtain ⟨paths, found⟩ := exists_candidates folders d
  have short : ∀ path ∈ paths, path.IsShort := by
    intro q member
    rcases (mem_candidates found q).mp member with ⟨folder, generated, _, read, among⟩ |
      ⟨name, among, rfl⟩
    · obtain ⟨l, name, -, -, present, -, rfl⟩ := (mem_sourcesIn read).mp among
      rw [Disk.get?, if_neg (by simp), List.lookup_isSome_iff] at present
      obtain ⟨entry, member, same⟩ := present
      have short := sources folder generated entry member
      rwa [← eq_of_beq same, List.getLast?_concat, Option.getD_some] at short
    · exact optional name among
  obtain ⟨removed, after, success⟩ := exists_removeEach short d
  exact ⟨removed, after, OnDisk.succeeds_bind.mpr
    ⟨paths, d, OnDisk.succeeds_look.mpr ⟨found, rfl⟩, success⟩⟩

end Progress

/-- A run that removes stale files writes all files first. -/
theorem writeAll_succeeds (removes : o.removesStale = true) {written : List FilePath} :
    (o.writeAllOn medium files).Succeeds d written after ↔
      ∃ between, (writeEach medium o.directory files.entries).Succeeds d written between ∧
        ∃ removed, (o.removeStale files.keys).Succeeds between removed after := by
  unfold writeAllOn
  rw [removes]
  constructor
  · intro success
    obtain ⟨_, between, writing, success⟩ := OnDisk.succeeds_bind.mp success
    obtain ⟨removed, _, cleaning, success⟩ := OnDisk.succeeds_bind.mp success
    obtain ⟨rfl, rfl⟩ := OnDisk.succeeds_pure.mp success
    exact ⟨between, writing, removed, cleaning⟩
  · rintro ⟨between, writing, removed, cleaning⟩
    refine OnDisk.succeeds_bind.mpr ⟨written, between, writing, OnDisk.succeeds_bind.mpr ?_⟩
    exact ⟨removed, after, cleaning, OnDisk.succeeds_pure.mpr ⟨rfl, rfl⟩⟩

/-- On every medium, a successful run that removes stale files leaves each of its files with the
last text that is given to its path, loses of what was there exactly the stale files, leaves all
else as it is, and adds nothing but its files and the directories on the way to them. -/
theorem writeAll_leaves (tree : d.IsTree) (removes : o.removesStale = true)
    (inside : ∀ name ∈ files.keys, FilePath.IsInside name)
    (optional : ∀ name ∈ o.optionalFiles, FilePath.IsInside name) {written : List FilePath}
    (success : (o.writeAllOn medium files d).outcome = .ok written) :
    o.Leaves files d (o.writeAllOn medium files d).disk := by
  obtain ⟨between, writing, removed, cleaning⟩ := (writeAll_succeeds removes).mp ⟨success, rfl⟩
  obtain ⟨paths, _, looking, removing⟩ := OnDisk.succeeds_bind.mp cleaning
  obtain ⟨found, rfl⟩ := OnDisk.succeeds_look.mp looking
  have written := writeEach_ok tree writing
  exact leaves_of_removed tree inside optional written found (removeEach_ok written.tree removing)

/-- A directory with files of an earlier run and others. -/
def earlierDisk : Disk where
  workingDirectory := ["home"]
  entries := [(["home"], .directory), (["home", "out"], .directory),
    (["home", "out", "index.ts"], .file "index"), (["home", "out", "notes.ts"], .file "notes"),
    (["home", "out", "models"], .directory), (["home", "out", "models", "cat.ts"], .file "cat"),
    (["home", "out", "models", "pet.ts"], .file "pet"),
    (["home", "out", "models", "cat.md"], .file "text"),
    (["home", "out", "models", "old"], .directory),
    (["home", "out", "models", "old", "cat.ts"], .file "older")]

/-- Two names of one file, and a file in a directory that is not there. -/
def laterFiles : Table String :=
  .ofList [("models/pet.ts", "first"), ("services/pets.ts", "pets"), ("./models//pet.ts", "last")]

/-- The directory for a run that leaves out the index. -/
def laterOutput : Output :=
  { directory := .ofText "out", optionalFiles := ["index.ts"] }

/-- Of the earlier files, the model that is not written again is removed. -/
theorem writeAll_leaves_earlierDisk :
    earlierDisk.IsTree ∧ laterOutput.removesStale = true ∧
      (∀ name ∈ laterFiles.keys, FilePath.IsInside name) ∧
      (∀ name ∈ laterOutput.optionalFiles, FilePath.IsInside name) ∧
      ∃ written after, (laterOutput.writeAll laterFiles earlierDisk).outcome = .ok written ∧
        (laterOutput.writeAll laterFiles earlierDisk).disk = after ∧
        laterOutput.Leaves laterFiles earlierDisk after ∧
        after.get? ["home", "out", "models", "pet.ts"] = some (.file "last") ∧
        after.get? ["home", "out", "models", "cat.ts"] = none := by
  have tree : earlierDisk.IsTree :=
    Disk.isTree_of_entries (by decide +kernel) (by decide +kernel)
  have inside : ∀ name ∈ laterFiles.keys, FilePath.IsInside name := by decide +kernel
  have optional : ∀ name ∈ laterOutput.optionalFiles, FilePath.IsInside name := by decide +kernel
  have writing : (writeEach .willing laterOutput.directory laterFiles.entries).Succeeds earlierDisk
      (["out/models/pet.ts", "out/services/pets.ts", "out/models/pet.ts"].map .ofText)
      (writeEach .willing laterOutput.directory laterFiles.entries earlierDisk).disk :=
    ⟨by decide +kernel, rfl⟩
  obtain ⟨removed, after, cleaning⟩ := exists_removeStale (o := laterOutput)
    (d := (writeEach .willing laterOutput.directory laterFiles.entries earlierDisk).disk)
    (by decide +kernel) (by decide +kernel) (by decide +kernel) laterFiles.keys
  have success : (laterOutput.writeAll laterFiles).Succeeds earlierDisk _ after :=
    (writeAll_succeeds rfl).mpr ⟨_, writing, removed, cleaning⟩
  have leaves : laterOutput.Leaves laterFiles earlierDisk after :=
    success.disk ▸ writeAll_leaves tree rfl inside optional success.outcome
  refine ⟨tree, rfl, inside, optional, _, after, success.outcome, success.disk, leaves, ?_, ?_⟩
  · obtain ⟨text, last, there⟩ := leaves.given "models/pet.ts" (by decide +kernel)
    have same : lastText laterFiles "models/pet.ts" = some "last" := by decide +kernel
    rw [same] at last
    cases last
    exact there
  · refine (leaves.lost _ (by decide +kernel)).mpr ⟨by decide +kernel, ?_, by decide +kernel, ?_⟩
    · exact ⟨["models", "cat.ts"], .inl ⟨"models", by decide, "cat.ts", by decide, rfl⟩, rfl⟩
    · exact .inl (by decide +kernel)

end Output

end ClientGen
