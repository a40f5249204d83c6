import Mathlib.Data.List.Nodup
import Mathlib.Data.List.Perm.Subperm
import ClientGen.Output
import ClientGen.Proofs.DiskPaths

/-!
# Files that are written

A file is written by way of directories, which are made where nothing stands, and of a temporary
file with a new name, of which nothing is left. What several writes leave is put together from what
each one leaves (`Disk.Written.trans`): at each location the last text, and a directory where a path
leads by. This holds on every medium, as a write that succeeds is one of which nothing is refused.
-/
namespace ClientGen

theorem ofDigitChars_zeros (count : Nat) (digits : List Char) :
    Nat.ofDigitChars 10 (List.replicate count '0' ++ digits) 0 = Nat.ofDigitChars 10 digits 0 := by
  induction count with
  | zero => rfl
  | succ n ih => exact ih

/-- Zeros before the digits do not make two numbers look alike. -/
theorem padded_injective {width m n : Nat} (same : padded width m = padded width n) : m = n := by
  unfold padded at same
  rw [String.ofList_inj] at same
  have read := congrArg (fun digits => Nat.ofDigitChars 10 digits 0) same
  simpa [ofDigitChars_zeros] using read

namespace OnDisk

variable {α β : Type} {d after : Disk}

structure Succeeds (step : OnDisk α) (d : Disk) (value : α) (after : Disk) : Prop where
  outcome : (step d).outcome = .ok value
  disk : (step d).disk = after

theorem succeeds_iff {step : OnDisk α} {value : α} :
    step.Succeeds d value after ↔ (step d).outcome = .ok value ∧ (step d).disk = after :=
  ⟨fun success => ⟨success.outcome, success.disk⟩, fun found => ⟨found.1, found.2⟩⟩

theorem succeeds_congr {step other : OnDisk α} {before : Disk} {value : α}
    (same : step d = other before) :
    step.Succeeds d value after ↔ other.Succeeds before value after := by
  rw [succeeds_iff, same, succeeds_iff]

/-- A step that fails before it has done anything. -/
def Refuses (step : OnDisk α) (d : Disk) : Prop :=
  ∃ e, step d = ⟨d, [], .error e⟩

theorem Refuses.not_succeeds {step : OnDisk α} {value : α} (refuses : step.Refuses d) :
    ¬step.Succeeds d value after := by
  obtain ⟨e, failure⟩ := refuses
  simp [succeeds_iff, failure]

theorem succeeds_pure {a value : α} :
    (pure a : OnDisk α).Succeeds d value after ↔ a = value ∧ d = after := by
  rw [succeeds_iff, run_pure, Except.ok.injEq]

/-- A bind succeeds exactly if its first part does, and the second one on the disk that is left. -/
theorem succeeds_bind {step : OnDisk α} {next : α → OnDisk β} {value : β} :
    (step >>= next).Succeeds d value after ↔
      ∃ a between, step.Succeeds d a between ∧ (next a).Succeeds between value after := by
  simp only [succeeds_iff, run_bind]
  obtain ⟨between, records, outcome⟩ := step d
  cases outcome with
  | ok a =>
    constructor
    · exact fun success => ⟨a, between, ⟨rfl, rfl⟩, success⟩
    · rintro ⟨_, _, ⟨⟨⟩, rfl⟩, success⟩
      exact success
  | error e =>
    constructor
    · rintro ⟨⟨⟩, -⟩
    · rintro ⟨_, _, ⟨⟨⟩, -⟩, -⟩

theorem succeeds_look {f : Disk → Outcome α} {value : α} :
    (look f).Succeeds d value after ↔ f d = .ok value ∧ d = after :=
  succeeds_iff

/-- A record leaves the disk as it is. -/
theorem succeeds_note {severity : Severity} {activity : Activity} {message : String}
    {value : Unit} :
    (liftM (Logged.note severity activity message) : OnDisk Unit).Succeeds d value after ↔
      d = after :=
  ⟨fun success => success.disk, fun same => ⟨rfl, same⟩⟩

/-- A step that succeeds takes nothing away. -/
theorem succeeds_removingOnFailure {step : OnDisk α} {l : Location} {value : α} :
    (removingOnFailure l step).Succeeds d value after ↔ step.Succeeds d value after := by
  simp only [succeeds_iff, removingOnFailure]
  obtain ⟨between, records, outcome⟩ := step d
  cases outcome with
  | ok a => rfl
  | error e => simp

end OnDisk

namespace Medium

/-- A change is refused, or it is made as if on any other medium. -/
theorem making_cases {α : Type} (medium : Medium) (change : Change) (step : OnDisk α) (d : Disk) :
    (medium.making change step).Refuses d ∨ medium.making change step d = step d := by
  unfold OnDisk.Refuses making
  cases medium.refusal? d change with
  | some e => exact .inl ⟨e, rfl⟩
  | none => exact .inr rfl

/-- A text is written, or a part of it is when it is refused. -/
theorem writeText_cases (medium : Medium) (l : Location) (text : String) (d : Disk) :
    (∃ e part, medium.writeText l text d = ⟨d.put l (.file part), [], .error e⟩) ∨
      medium.writeText l text d = ⟨d.put l (.file text), [], .ok ()⟩ := by
  unfold writeText
  cases medium.refusal? d (.writeText l text) with
  | some e => exact .inl ⟨e, _, rfl⟩
  | none => exact .inr rfl

end Medium

namespace Disk

/-- The text that writes leave at a location: the last one that is written there. -/
def textAt (writes : List (Location × String)) (l : Location) : Option String :=
  (writes.reverse.find? fun w => w.1 = l).map Prod.snd

theorem textAt_append (writes more : List (Location × String)) (l : Location) :
    textAt (writes ++ more) l = (textAt more l).or (textAt writes l) := by
  unfold textAt
  rw [List.reverse_append, List.find?_append, Option.map_or]

theorem textAt_singleton (l m : Location) (text : String) :
    textAt [(l, text)] m = if l = m then some text else none := by
  unfold textAt
  by_cases same : l = m <;> simp [same]

/-- What stands on a disk after texts have been written, and directories made on the way. -/
structure Written (d after : Disk) (writes : List (Location × String)) (way : List Location) :
    Prop where
  written : ∀ {l text}, textAt writes l = some text → after.get? l = some (.file text)
  passed : ∀ {l}, l ∈ way → after.get? l = some .directory
  kept : ∀ {l}, textAt writes l = none → (d.get? l = none → l ∉ way) → after.get? l = d.get? l
  directories : ∀ {l}, d.get? l = some .directory → after.get? l = some .directory
  workingDirectory : after.workingDirectory = d.workingDirectory
  tree : after.IsTree

namespace Written

variable {d between after : Disk} {writes more : List (Location × String)}
  {way others : List Location} {l : Location} {name : String}

theorem refl (tree : d.IsTree) : Written d d [] [] where
  written := by simp [textAt]
  passed := by simp
  kept := by simp
  directories := id
  workingDirectory := rfl
  tree := tree

/-- A directory that is there anyway may be counted to the way. -/
theorem passing (written : d.Written after writes way) (here : d.get? l = some .directory) :
    d.Written after writes (l :: way) where
  written := written.written
  passed member := (List.mem_cons.mp member).elim (· ▸ written.directories here) written.passed
  kept unwritten apart := written.kept unwritten fun absent member =>
    apart absent (List.mem_cons_of_mem _ member)
  directories := written.directories
  workingDirectory := written.workingDirectory
  tree := written.tree

theorem trans (first : Written d between writes way) (second : Written between after more others) :
    Written d after (writes ++ more) (way ++ others) where
  written := by
    intro l text last
    rw [textAt_append] at last
    cases again : textAt more l with
    | some overwritten =>
      rw [again, Option.some_or, Option.some.injEq] at last
      exact last ▸ second.written again
    | none =>
      rw [again, Option.none_or] at last
      have before := first.written last
      rw [second.kept again (by simp [before]), before]
  passed := by
    intro l member
    rcases List.mem_append.mp member with early | late
    · exact second.directories (first.passed early)
    · exact second.passed late
  kept := by
    intro l unwritten apart
    rw [textAt_append, Option.or_eq_none_iff] at unwritten
    have same := first.kept unwritten.2 fun absent member =>
      apart absent (List.mem_append_left others member)
    rw [second.kept unwritten.1 fun absent member =>
      apart (same ▸ absent) (List.mem_append_right way member), same]
  directories := fun here => second.directories (first.directories here)
  workingDirectory := second.workingDirectory.trans first.workingDirectory
  tree := second.tree

/-- A directory is made where nothing stands. -/
theorem ofDirectory (tree : d.IsTree) (above : d.get? l = some .directory)
    (possible : FilePath.isPossibleName name = true) (free : d.get? (l ++ [name]) = none) :
    Written d (d.put (l ++ [name]) .directory) [] [l ++ [name]] := by
  have holds : ∀ m, (d.put (l ++ [name]) .directory).get? m =
      if m = l ++ [name] then some .directory else d.get? m :=
    fun m => d.get?_put _ m .directory (by simp)
  constructor
  · simp [textAt]
  · intro m member
    rw [holds, if_pos (List.mem_singleton.mp member)]
  · intro m _ apart
    rw [holds, if_neg]
    rintro rfl
    exact apart free (List.mem_singleton_self _)
  · intro m here
    rw [holds]
    split
    · rfl
    · exact here
  · rfl
  · exact tree.put above possible (.inl rfl)

/-- A text is put where no directory stands. -/
theorem ofFile {text : String} (tree : d.IsTree) (above : d.get? l = some .directory)
    (possible : FilePath.isPossibleName name = true)
    (other : d.get? (l ++ [name]) ≠ some .directory)
    (holds : ∀ m, after.get? m = if m = l ++ [name] then some (.file text) else d.get? m)
    (start : after.workingDirectory = d.workingDirectory) :
    Written d after [(l ++ [name], text)] [] := by
  constructor
  · intro m last written
    rw [textAt_singleton] at written
    split at written
    · rename_i same
      cases written
      rw [holds, if_pos same.symm]
    · cases written
  · simp
  · intro m unwritten _
    rw [textAt_singleton] at unwritten
    split at unwritten
    · cases unwritten
    · rename_i different
      rw [holds, if_neg (Ne.symm different)]
  · intro m here
    rw [holds, if_neg]
    · exact here
    · rintro rfl
      exact other here
  · exact start
  · have put : (d.put (l ++ [name]) (.file text)).IsTree := tree.put above possible (.inr other)
    refine put.congr ?_ start
    intro m
    rw [holds, d.get?_put _ _ _ (by simp)]

end Written

end Disk

namespace Output

variable {medium : Medium} {d between after : Disk}
  {l reached directory target temporary : Location} {path : FilePath} {name text : String}
  {names : List String} {value : Unit}

/-- A name leads by a directory, which is there or is made; or nothing is done. -/
theorem enter_cons_cases (tree : d.IsTree) (here : d.get? l = some .directory) :
    (enter medium l (name :: names)).Refuses d ∨
      (d.get? (Location.step l name) = some .directory ∧
        enter medium l (name :: names) d = enter medium (Location.step l name) names d) ∨
      (name ≠ ".." ∧ d.get? (l ++ [name]) = none ∧
        enter medium l (name :: names) d =
          enter medium (l ++ [name]) names (d.put (l ++ [name]) .directory)) := by
  rw [OnDisk.Refuses, enter]
  dsimp only
  cases found : d.get? (Location.step l name) with
  | some entry =>
    cases entry with
    | file text => exact .inl ⟨_, rfl⟩
    | directory => exact .inr (.inl ⟨rfl, rfl⟩)
  | none =>
    -- double dots lead to a directory, so the name is a new one
    have plain : name ≠ ".." := by
      rintro rfl
      rw [Location.step, if_pos rfl, tree.get?_dropLast here] at found
      cases found
    rw [Location.step_of_ne l plain] at found ⊢
    dsimp only
    split
    · rcases medium.making_cases (.makeDirectory (l ++ [name]))
        (fun d => enter medium (l ++ [name]) names (d.put (l ++ [name]) .directory)) d
        with refuses | made
      · exact .inl refuses
      · exact .inr (.inr ⟨plain, found, made⟩)
    · exact .inl ⟨_, rfl⟩

/-- Directories are made where nothing stands, and all names lead by directories. -/
theorem enter_ok (tree : d.IsTree) (here : d.get? l = some .directory)
    (possible : names.all FilePath.isPossibleName = true)
    (success : (enter medium l names).Succeeds d reached after) :
    reached = Location.walk l names ∧ after.get? reached = some .directory ∧
      d.Written after [] (Location.trail l names) := by
  induction names generalizing l d with
  | nil =>
    obtain ⟨rfl, rfl⟩ := OnDisk.succeeds_pure.mp success
    exact ⟨rfl, here, .refl tree⟩
  | cons name rest ih =>
    rw [List.all_cons, Bool.and_eq_true] at possible
    rcases enter_cons_cases tree here with refuses | ⟨found, entered⟩ | ⟨plain, free, entered⟩
    · exact absurd success refuses.not_succeeds
    · rw [OnDisk.succeeds_congr entered] at success
      obtain ⟨rfl, arrived, made⟩ := ih tree found possible.2 success
      exact ⟨rfl, arrived, made.passing found⟩
    · rw [OnDisk.succeeds_congr entered] at success
      have started := Disk.Written.ofDirectory tree here possible.1 free
      obtain ⟨rfl, arrived, made⟩ :=
        ih started.tree (started.passed (List.mem_singleton_self _)) possible.2 success
      rw [Location.walk_cons, Location.trail, Location.step_of_ne l plain]
      exact ⟨rfl, arrived, started.trans made⟩

/-- The names of a path are followed, or nothing is done. -/
theorem makeDirectory_cases (medium : Medium) (d : Disk) (path : FilePath) :
    (makeDirectory medium path).Refuses d ∨
      (path.names.all FilePath.isPossibleName = true ∧
        makeDirectory medium path d = enter medium (d.start path) path.names d) := by
  unfold OnDisk.Refuses makeDirectory
  split
  case isTrue => exact .inl ⟨_, rfl⟩
  rename_i possible
  split
  case isFalse => exact .inl ⟨_, rfl⟩
  exact .inr ⟨by simpa [FilePath.isPossible] using possible, rfl⟩

/-- The directory of a path is where its names lead. -/
theorem makeDirectory_ok (tree : d.IsTree)
    (success : (makeDirectory medium path).Succeeds d reached after) :
    reached = d.destination path ∧ after.get? reached = some .directory ∧
      d.Written after [] (Location.trail (d.start path) path.names) := by
  rcases makeDirectory_cases medium d path with refuses | ⟨possible, entered⟩
  · exact absurd success refuses.not_succeeds
  · rw [OnDisk.succeeds_congr entered] at success
    exact enter_ok tree (tree.start path) possible success

theorem temporaryName_injective {m n : Nat} (same : temporaryName name m = temporaryName name n) :
    m = n := by
  unfold temporaryName at same
  have lists := congrArg String.toList same
  simp only [String.toList_append, List.append_assoc, List.append_cancel_left_eq,
    List.append_cancel_right_eq] at lists
  exact padded_injective (String.toList_inj.mp lists)

/-- A temporary file has a name of its own in the directory of the file. -/
theorem temporary_fresh (d : Disk) (directory : Location) (name : String) :
    ∃ n, Output.temporary d directory name = directory ++ [temporaryName name n] ∧
      d.get? (Output.temporary d directory name) = none := by
  -- there are more candidates than entries, so one of them is free
  obtain ⟨n, among, free⟩ : ∃ n ∈ List.range (d.entries.length + 1),
      d.get? (directory ++ [temporaryName name n]) = none := by
    by_contra taken
    have within : (List.range (d.entries.length + 1)).map
        (fun n => directory ++ [temporaryName name n]) ⊆ d.entries.map Prod.fst := by
      intro m member
      obtain ⟨n, among, rfl⟩ := List.mem_map.mp member
      by_contra absent
      refine taken ⟨n, among, ?_⟩
      rw [Disk.get?, if_neg (by simp), List.lookup_eq_none_iff]
      intro entry present
      rw [bne_iff_ne]
      intro same
      exact absent (same ▸ List.mem_map_of_mem present)
    have distinct : ((List.range (d.entries.length + 1)).map
        fun n => directory ++ [temporaryName name n]).Nodup := by
      refine List.nodup_range.map ?_
      intro m n same
      rw [List.append_cancel_left_eq] at same
      exact temporaryName_injective (List.singleton_inj.mp same)
    have short := (List.subperm_of_subset distinct within).length_le
    rw [List.length_map, List.length_map, List.length_range] at short
    omega
  obtain ⟨found, searched⟩ : ∃ m, ((List.range (d.entries.length + 1)).map fun n =>
      directory ++ [temporaryName name n]).find? (fun l => (d.get? l).isNone) = some m := by
    rw [← Option.isSome_iff_exists, List.find?_isSome]
    exact ⟨_, List.mem_map_of_mem among, by rw [free]; rfl⟩
  have chosen : Output.temporary d directory name = found := by
    unfold Output.temporary
    dsimp only
    rw [searched, Option.getD_some]
  obtain ⟨n, -, same⟩ := List.mem_map.mp (List.mem_of_find?_eq_some searched)
  rw [chosen]
  exact ⟨n, same.symm, by simpa using List.find?_some searched⟩

/-- An empty file with a new name is made, or nothing is done. -/
theorem createTemporary_cases (medium : Medium) (d : Disk) (directory : Location) (name : String) :
    (createTemporary medium directory name).Refuses d ∨
      (FilePath.isPossibleName name = true ∧ ∃ n,
        d.get? (directory ++ [temporaryName name n]) = none ∧
        createTemporary medium directory name d =
          ⟨d.put (directory ++ [temporaryName name n]) (.file ""), [],
            .ok (directory ++ [temporaryName name n])⟩) := by
  obtain ⟨n, place, free⟩ := temporary_fresh d directory name
  rw [place] at free
  unfold OnDisk.Refuses createTemporary
  rw [place]
  dsimp only
  split
  case isTrue => exact .inl ⟨_, rfl⟩
  rename_i possible
  split
  case isFalse => exact .inl ⟨_, rfl⟩
  rcases medium.making_cases (.makeFile (directory ++ [temporaryName name n]))
    (fun d => ⟨d.put (directory ++ [temporaryName name n]) (.file ""), [], .ok _⟩) d
    with refuses | made
  · exact .inl refuses
  · exact .inr ⟨by simpa using possible, n, free, made⟩

/-- A file takes the place of another one, or nothing is done. -/
theorem settle_cases {entry : Entry} (medium : Medium) (target : Location)
    (present : d.get? temporary = some entry) :
    (settle medium temporary target).Refuses d ∨
      (d.get? target ≠ some .directory ∧
        settle medium temporary target d = ⟨(d.erase temporary).put target entry, [], .ok ()⟩) := by
  unfold OnDisk.Refuses settle
  rw [present]
  split
  · exact .inl ⟨_, rfl⟩
  · rename_i e same other
    cases same
    rcases medium.making_cases (.moveFile temporary target)
      (fun d => ⟨(d.erase temporary).put target entry, [], .ok ()⟩) d with refuses | made
    · exact .inl refuses
    · exact .inr ⟨other, made⟩
  · rename_i missing _
    cases missing

/-- A file ends in a directory, and has a name of its own there. -/
theorem target_of_ne (here : d.get? directory = some .directory) (tree : d.IsTree)
    (other : d.get? (Output.target directory name) ≠ some .directory) :
    name ≠ "" ∧ Output.target directory name = directory ++ [name] := by
  unfold Output.target at *
  split at other
  case isTrue => exact absurd here other
  rename_i named
  rw [if_neg named]
  refine ⟨named, Location.step_of_ne directory ?_⟩
  rintro rfl
  exact other (tree.get?_dropLast here)

/-- A temporary file that takes the place of a file leaves a new text, and nothing else. -/
theorem deliver_ok (tree : d.IsTree) (here : d.get? directory = some .directory)
    (first : (createTemporary medium directory name).Succeeds d temporary between)
    (second : (deliver medium temporary (Output.target directory name) text).Succeeds between value
      after) :
    name ≠ "" ∧ Output.target directory name = directory ++ [name] ∧
      d.Written after [(directory ++ [name], text)] [] := by
  rcases createTemporary_cases medium d directory name with refuses | ⟨possible, n, free, created⟩
  · exact absurd first refuses.not_succeeds
  rw [OnDisk.succeeds_iff, created] at first
  obtain ⟨⟨⟩, rfl⟩ := first
  obtain ⟨_, stored, storing, settling⟩ :=
    OnDisk.succeeds_bind.mp (OnDisk.succeeds_removingOnFailure.mp second)
  rcases medium.writeText_cases (directory ++ [temporaryName name n]) text
    (d.put (directory ++ [temporaryName name n]) (.file "")) with ⟨e, part, refused⟩ | put
  · rw [OnDisk.succeeds_iff, refused] at storing
    cases storing.1
  rw [OnDisk.succeeds_iff, put, Disk.put_put] at storing
  obtain ⟨-, rfl⟩ := storing
  have holds : ∀ m, (d.put (directory ++ [temporaryName name n]) (.file text)).get? m =
      if m = directory ++ [temporaryName name n] then some (.file text) else d.get? m :=
    fun m => d.get?_put _ m _ (by simp)
  rcases settle_cases medium (Output.target directory name) ((holds _).trans (if_pos rfl))
    with refuses | ⟨other, settled⟩
  · exact absurd settling refuses.not_succeeds
  rw [OnDisk.succeeds_iff, settled] at settling
  obtain ⟨-, rfl⟩ := settling
  have still : d.get? (Output.target directory name) ≠ some .directory := by
    intro present
    refine other ?_
    rw [holds, if_neg]
    · exact present
    · rintro same
      rw [same, free] at present
      cases present
  obtain ⟨named, place⟩ := target_of_ne here tree still
  refine ⟨named, place, ?_⟩
  rw [place] at still ⊢
  -- the temporary file was not there before and is not there now
  refine .ofFile tree here possible still (fun m => ?_) rfl
  rw [Disk.get?_put _ _ _ _ (by simp), Disk.get?_erase _ _ _ (by simp), holds]
  split
  · rfl
  · split
    · rename_i same
      rw [same, free]
    · rfl

/-- A write leaves its text where its path leads, and directories on the way. -/
theorem writeOn_ok (tree : d.IsTree) (success : (writeOn medium path text).Succeeds d value after) :
    d.Written after [(d.destination path, text)] (d.approach path) := by
  unfold writeOn at success
  obtain ⟨directory, made, entering, success⟩ := OnDisk.succeeds_bind.mp success
  obtain ⟨temporary, created, creating, success⟩ := OnDisk.succeeds_bind.mp success
  obtain ⟨_, delivered, delivering, success⟩ := OnDisk.succeeds_bind.mp success
  obtain rfl := OnDisk.succeeds_note.mp success
  obtain ⟨rfl, here, way⟩ := makeDirectory_ok tree entering
  obtain ⟨named, place, replaced⟩ := deliver_ok way.tree here creating delivering
  have last : path.names.dropLast ++ [path.name] = path.names := by
    unfold FilePath.name at named ⊢
    cases found : path.names.getLast? with
    | none =>
      rw [found] at named
      exact absurd rfl named
    | some last => exact List.dropLast_append_getLast? last found
  have ending : d.destination path = d.destination path.parent ++ [path.name] := by
    unfold Output.target at place
    rw [if_neg named] at place
    unfold Disk.destination at place ⊢
    rw [← place, ← last, Location.walk_append]
    rfl
  rw [ending]
  have both := way.trans replaced
  rwa [List.append_nil] at both

/-- The paths of files by their names, with the texts that are written to them. -/
def writes (d : Disk) (directory : FilePath) (files : List (String × String)) :
    List (Location × String) :=
  files.map fun file => (d.destination (directory.append (.ofText file.1)), file.2)

/-- Writes one after another leave at each location the last text, and directories on the way. -/
theorem writeEach_ok {directory : FilePath} {files : List (String × String)}
    {written : List FilePath} (tree : d.IsTree)
    (success : (writeEach medium directory files).Succeeds d written after) :
    d.Written after (writes d directory files)
      (files.flatMap fun file => d.approach (directory.append (.ofText file.1))) := by
  induction files generalizing d written with
  | nil =>
    obtain ⟨-, rfl⟩ := OnDisk.succeeds_pure.mp success
    exact .refl tree
  | cons file rest ih =>
    obtain ⟨name, text⟩ := file
    obtain ⟨_, between, first, success⟩ := OnDisk.succeeds_bind.mp success
    obtain ⟨_, _, others, success⟩ := OnDisk.succeeds_bind.mp success
    obtain ⟨-, rfl⟩ := OnDisk.succeeds_pure.mp success
    have start := writeOn_ok tree first
    have later := ih start.tree others
    simp only [writes, Disk.destination_of_workingDirectory start.workingDirectory,
      Disk.approach_of_workingDirectory start.workingDirectory] at later
    exact start.trans later

end Output

end ClientGen
