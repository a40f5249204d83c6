import ClientGen.Client.Generate
import ClientGen.Proofs.StaleFiles

/-!
# Runs that fail

A run that fails before it writes leaves the disk as it is. A run that fails at a file leaves the
files before it with their texts. The write that fails has changed nothing that was there, and has
made directories at most: a temporary file that has been made is removed again, also when its text
could be written in part only. So nothing is removed and no temporary file stays, whatever the
medium refuses and whatever the templates mean (`Client.generateOn_error`).
-/
namespace ClientGen

namespace OnDisk

variable {α β : Type} {d after : Disk} {e : Failure}

structure Fails (step : OnDisk α) (d : Disk) (e : Failure) (after : Disk) : Prop where
  outcome : (step d).outcome = .error e
  disk : (step d).disk = after

theorem fails_iff {step : OnDisk α} :
    step.Fails d e after ↔ (step d).outcome = .error e ∧ (step d).disk = after :=
  ⟨fun failure => ⟨failure.outcome, failure.disk⟩, fun found => ⟨found.1, found.2⟩⟩

theorem fails_congr {step other : OnDisk α} {before : Disk} (same : step d = other before) :
    step.Fails d e after ↔ other.Fails before e after := by
  rw [fails_iff, same, fails_iff]

theorem Refuses.unchanged {step : OnDisk α} (refuses : step.Refuses d)
    (failure : step.Fails d e after) : d = after := by
  obtain ⟨reason, refused⟩ := refuses
  rw [fails_iff, refused] at failure
  exact failure.2

theorem not_fails_pure {a : α} : ¬(pure a : OnDisk α).Fails d e after := by
  intro failure
  cases failure.outcome

/-- A record is left without fail. -/
theorem not_fails_note {severity : Severity} {activity : Activity} {message : String} :
    ¬(liftM (Logged.note severity activity message) : OnDisk Unit).Fails d e after := by
  intro failure
  cases failure.outcome

theorem fails_look {f : Disk → Outcome α} :
    (look f).Fails d e after ↔ f d = .error e ∧ d = after :=
  fails_iff

/-- A bind fails exactly if its first part does, or the second one on the disk that is left. -/
theorem fails_bind {step : OnDisk α} {next : α → OnDisk β} :
    (step >>= next).Fails d e after ↔ step.Fails d e after ∨
      ∃ a between, step.Succeeds d a between ∧ (next a).Fails between e after := by
  simp only [fails_iff, succeeds_iff, run_bind]
  obtain ⟨between, records, outcome⟩ := step d
  cases outcome with
  | ok a =>
    constructor
    · exact fun failure => .inr ⟨a, between, ⟨rfl, rfl⟩, failure⟩
    · rintro (⟨⟨⟩, -⟩ | ⟨_, _, ⟨⟨⟩, rfl⟩, failure⟩)
      exact failure
  | error reason =>
    dsimp only
    constructor
    · rintro ⟨⟨⟩, rfl⟩
      exact .inl ⟨rfl, rfl⟩
    · rintro (⟨⟨⟩, rfl⟩ | ⟨_, _, ⟨⟨⟩, -⟩, -⟩)
      exact ⟨rfl, rfl⟩

/-- A step that fails leaves nothing at the location that is cleared then. -/
theorem fails_removingOnFailure {step : OnDisk α} {l : Location} :
    (removingOnFailure l step).Fails d e after ↔
      ∃ between, step.Fails d e between ∧ between.erase l = after := by
  simp only [fails_iff, removingOnFailure]
  obtain ⟨left, records, outcome⟩ := step d
  cases outcome with
  | ok a => simp
  | error reason =>
    constructor
    · rintro ⟨same, rfl⟩
      exact ⟨left, ⟨same, rfl⟩, rfl⟩
    · rintro ⟨_, ⟨same, rfl⟩, disk⟩
      exact ⟨same, disk⟩

end OnDisk

namespace Disk.Written

variable {d between after : Disk} {writes : List (Location × String)} {way : List Location}
  {l : Location}

/-- A disk with the same entries as one that has been written. -/
theorem congr (written : d.Written between writes way)
    (same : ∀ m, after.get? m = between.get? m)
    (start : after.workingDirectory = between.workingDirectory) : d.Written after writes way where
  written last := by rw [same, written.written last]
  passed member := by rw [same, written.passed member]
  kept unwritten apart := by rw [same, written.kept unwritten apart]
  directories here := by rw [same, written.directories here]
  workingDirectory := start.trans written.workingDirectory
  tree := written.tree.congr same start

/-- What was there is not changed unless a text is written in its place. -/
theorem get?_of_present (written : d.Written after writes way) (unwritten : textAt writes l = none)
    (present : d.get? l ≠ none) : after.get? l = d.get? l :=
  written.kept unwritten fun absent => absurd absent present

/-- Where nothing was and no text is written, there is a directory on the way at most. -/
theorem get?_of_absent (written : d.Written after writes way) (unwritten : textAt writes l = none)
    (absent : d.get? l = none) :
    after.get? l = none ∨ (after.get? l = some .directory ∧ l ∈ way) := by
  by_cases passed : l ∈ way
  · exact .inr ⟨written.passed passed, passed⟩
  · left
    rw [written.kept unwritten fun _ => passed, absent]

end Disk.Written

namespace Output

variable {medium : Medium} {d between after : Disk} {e : Failure}
  {l directory target temporary : Location} {path : FilePath} {name text : String}
  {names : List String}

/-- Names that cannot be followed to the end leave directories on their way at most. -/
theorem enter_fails (tree : d.IsTree) (here : d.get? l = some .directory)
    (possible : names.all FilePath.isPossibleName = true)
    (failure : (enter medium l names).Fails d e after) :
    ∃ way, way ⊆ Location.trail l names ∧ d.Written after [] way := by
  induction names generalizing l d with
  | nil => exact absurd failure OnDisk.not_fails_pure
  | cons name rest ih =>
    rw [List.all_cons, Bool.and_eq_true] at possible
    rcases enter_cons_cases tree here with refuses | ⟨found, entered⟩ | ⟨plain, free, entered⟩
    · obtain rfl := refuses.unchanged failure
      exact ⟨[], List.nil_subset _, .refl tree⟩
    · rw [OnDisk.fails_congr entered] at failure
      obtain ⟨way, within, made⟩ := ih tree found possible.2 failure
      exact ⟨way, List.subset_cons_of_subset _ within, made⟩
    · rw [OnDisk.fails_congr entered] at failure
      have started := Disk.Written.ofDirectory tree here possible.1 free
      obtain ⟨way, within, made⟩ :=
        ih started.tree (started.passed (List.mem_singleton_self _)) possible.2 failure
      rw [Location.trail, Location.step_of_ne l plain]
      exact ⟨_, List.cons_subset_cons _ within, started.trans made⟩

theorem makeDirectory_fails (tree : d.IsTree)
    (failure : (makeDirectory medium path).Fails d e after) :
    ∃ way, way ⊆ Location.trail (d.start path) path.names ∧ d.Written after [] way := by
  rcases makeDirectory_cases medium d path with refuses | ⟨possible, entered⟩
  · obtain rfl := refuses.unchanged failure
    exact ⟨[], List.nil_subset _, .refl tree⟩
  · rw [OnDisk.fails_congr entered] at failure
    exact enter_fails tree (tree.start path) possible failure

/-- When a text cannot be written or its file cannot be put in place, whatever is there of the
temporary file is removed. -/
theorem deliver_fails (made : d.get? temporary = some (.file ""))
    (failure : (deliver medium temporary target text).Fails d e after) :
    ∃ part, after = (d.put temporary (.file part)).erase temporary := by
  obtain ⟨between, failed, rfl⟩ := OnDisk.fails_removingOnFailure.mp failure
  rcases OnDisk.fails_bind.mp failed with storing | ⟨_, stored, storing, settling⟩
  · rcases medium.writeText_cases temporary text d with ⟨_, part, refused⟩ | put
    · rw [OnDisk.fails_iff, refused] at storing
      exact ⟨part, by rw [← storing.2]⟩
    · rw [OnDisk.fails_iff, put] at storing
      cases storing.1
  · rcases medium.writeText_cases temporary text d with ⟨_, part, refused⟩ | put
    · rw [OnDisk.succeeds_iff, refused] at storing
      cases storing.1
    rw [OnDisk.succeeds_iff, put] at storing
    obtain ⟨-, rfl⟩ := storing
    have nested : temporary ≠ [] := by
      rintro rfl
      cases made
    have present : (d.put temporary (.file text)).get? temporary = some (.file text) := by
      rw [d.get?_put _ _ _ nested, if_pos rfl]
    rcases settle_cases medium target present with refuses | ⟨-, settled⟩
    · exact ⟨text, by rw [refuses.unchanged settling]⟩
    · rw [OnDisk.fails_iff, settled] at settling
      cases settling.1

/-- A write that fails leaves directories on the way to its file at most. -/
theorem writeOn_fails (tree : d.IsTree) (failure : (writeOn medium path text).Fails d e after) :
    ∃ way, way ⊆ d.approach path ∧ d.Written after [] way := by
  unfold writeOn at failure
  rcases OnDisk.fails_bind.mp failure with entering | ⟨directory, made, entered, failure⟩
  · exact makeDirectory_fails tree entering
  obtain ⟨-, -, way⟩ := makeDirectory_ok tree entered
  refine ⟨_, List.Subset.refl _, ?_⟩
  rcases createTemporary_cases medium made directory path.name with
    refuses | ⟨-, n, free, created⟩
  · rcases OnDisk.fails_bind.mp failure with creating | ⟨_, _, creating, -⟩
    · exact refuses.unchanged creating ▸ way
    · exact absurd creating refuses.not_succeeds
  rcases OnDisk.fails_bind.mp failure with creating | ⟨_, _, creating, failure⟩
  · rw [OnDisk.fails_iff, created] at creating
    cases creating.1
  rw [OnDisk.succeeds_iff, created] at creating
  obtain ⟨⟨⟩, rfl⟩ := creating
  rcases OnDisk.fails_bind.mp failure with delivering | ⟨_, _, _, noting⟩
  · have there : (made.put (directory ++ [temporaryName path.name n]) (.file "")).get?
        (directory ++ [temporaryName path.name n]) = some (.file "") := by
      rw [made.get?_put _ _ _ (by simp), if_pos rfl]
    obtain ⟨part, rfl⟩ := deliver_fails there delivering
    -- the temporary file was not there before and is not there now
    refine way.congr (fun m => ?_) rfl
    rw [Disk.put_put, Disk.get?_erase _ _ _ (by simp), Disk.get?_put _ _ _ _ (by simp)]
    split
    · rename_i same
      rw [same, free]
    · rfl
  · exact absurd noting OnDisk.not_fails_note

/-- Of writes one after another that fail, one fails on the disk that those before it leave. -/
theorem writeEach_fails {directory : FilePath} {files : List (String × String)}
    (failure : (writeEach medium directory files).Fails d e after) :
    ∃ i name text, files[i]? = some (name, text) ∧ ∃ written between,
      (writeEach medium directory (files.take i)).Succeeds d written between ∧
      (writeOn medium (directory.append (.ofText name)) text).Fails between e after := by
  induction files generalizing d with
  | nil => exact absurd failure OnDisk.not_fails_pure
  | cons file rest ih =>
    obtain ⟨name, text⟩ := file
    rcases OnDisk.fails_bind.mp failure with here | ⟨_, between, first, failure⟩
    · exact ⟨0, name, text, rfl, [], d, OnDisk.succeeds_pure.mpr ⟨rfl, rfl⟩, here⟩
    rcases OnDisk.fails_bind.mp failure with later | ⟨_, _, _, failure⟩
    · obtain ⟨i, other, more, found, written, last, success, failure⟩ := ih later
      refine ⟨i + 1, other, more, found, directory.append (.ofText name) :: written, last, ?_,
        failure⟩
      refine OnDisk.succeeds_bind.mpr ⟨_, between, first, OnDisk.succeeds_bind.mpr ?_⟩
      exact ⟨written, last, success, OnDisk.succeeds_pure.mpr ⟨rfl, rfl⟩⟩
    · exact absurd failure OnDisk.not_fails_pure

/-- What a run leaves of the disk `d` that has written the files `done`, after which the disk is
`between`, and fails at the one called `name`. -/
structure BrokenOff (directory : FilePath) (done : List (String × String)) (name : String)
    (d between after : Disk) : Prop where
  /-- Each file that has been written has the last text that is given to its place. -/
  given : ∀ l text, Disk.textAt (writes d directory done) l = some text →
    after.get? l = some (.file text)
  /-- All else that was there is as it was. -/
  kept : ∀ l, d.get? l ≠ none → Disk.textAt (writes d directory done) l = none →
    after.get? l = d.get? l
  /-- All that was there before the last write is as it was then, also at its target. -/
  spared : ∀ l, between.get? l ≠ none → after.get? l = between.get? l
  /-- Nothing else is new but directories on the way to these files. -/
  added : ∀ l, d.get? l = none → Disk.textAt (writes d directory done) l = none →
    after.get? l = none ∨ (after.get? l = some .directory ∧
      ∃ file ∈ name :: done.map Prod.fst, l ∈ d.approach (directory.append (.ofText file)))

theorem brokenOff {directory : FilePath} {done : List (String × String)}
    {written : List FilePath} (tree : d.IsTree)
    (success : (writeEach medium directory done).Succeeds d written between)
    (failure : (writeOn medium (directory.append (.ofText name)) text).Fails between e after) :
    BrokenOff directory done name d between after := by
  have before := writeEach_ok tree success
  obtain ⟨way, within, last⟩ := writeOn_fails before.tree failure
  rw [Disk.approach_of_workingDirectory before.workingDirectory] at within
  have whole := before.trans last
  rw [List.append_nil] at whole
  constructor
  · exact fun l text => whole.written
  · exact fun l present unwritten => whole.get?_of_present unwritten present
  · exact fun l => last.get?_of_present rfl
  · intro l absent unwritten
    refine (whole.get?_of_absent unwritten absent).imp_right (And.imp_right ?_)
    intro passed
    rcases List.mem_append.mp passed with early | late
    · obtain ⟨file, member, among⟩ := List.mem_flatMap.mp early
      exact ⟨file.1, List.mem_cons_of_mem _ (List.mem_map_of_mem member), among⟩
    · exact ⟨name, List.mem_cons_self, within late⟩

end Output

namespace Client

open OnDisk Output

variable {platform : Platform} {config : Config} {document : Value} {directory : FilePath}
  {d after : Disk} {e : Failure}

/-- A run fails because its files cannot be made, or because they cannot be written. -/
theorem generateOn_fails
    (failure : (generateOn platform config document directory).Fails d e after) :
    ((platform.engine.render config (templatesOn d config) document).outcome = .error e ∧
        after = d) ∨
      ∃ files, (platform.engine.render config (templatesOn d config) document).outcome =
          .ok files ∧
        ((outputFor config directory).writeAllOn platform.medium files).Fails d e after := by
  unfold generateOn at failure
  rcases fails_bind.mp failure with looking | ⟨_, _, looking, failure⟩
  · cases (fails_look.mp looking).1
  obtain ⟨same, rfl⟩ := succeeds_look.mp looking
  cases same
  rcases fails_bind.mp failure with rendering | ⟨files, _, rendering, failure⟩
  · exact .inl ⟨rendering.outcome, rendering.disk.symm⟩
  obtain ⟨rendered, rfl⟩ := rendering
  refine .inr ⟨files, rendered, ?_⟩
  rcases fails_bind.mp failure with writing | ⟨_, _, _, failure⟩
  · exact writing
  · rcases fails_bind.mp failure with noting | ⟨_, _, _, failure⟩
    · exact absurd noting not_fails_note
    · exact absurd failure not_fails_pure

/-- A run that fails has left the disk as it was, if its files cannot be made. If one of them cannot
be written, those before it have their texts, all else that was there is as it was, and nothing
else is new but directories. It can fail in no other way but after all files have been written, in
the search for stale ones. -/
theorem generateOn_error (tree : d.IsTree)
    (failed : (generateOn platform config document directory d).outcome = .error e) :
    ((platform.engine.render config (templatesOn d config) document).outcome = .error e ∧
      (generateOn platform config document directory d).disk = d) ∨
    ∃ files, (platform.engine.render config (templatesOn d config) document).outcome =
        .ok files ∧
      ((∃ i name text, files.entries[i]? = some (name, text) ∧ ∃ written between,
        (writeEach platform.medium directory (files.entries.take i)).Succeeds d written between ∧
        (writeOn platform.medium (directory.append (.ofText name)) text between).outcome =
          .error e ∧
        BrokenOff directory (files.entries.take i) name d between
          (generateOn platform config document directory d).disk) ∨
      (config.removeStaleFiles = true ∧ ∃ written between,
        (writeEach platform.medium directory files.entries).Succeeds d written between ∧
        ((outputFor config directory).removeStale files.keys between).outcome = .error e)) := by
  rcases generateOn_fails ⟨failed, rfl⟩ with unchanged | ⟨files, rendered, failure⟩
  · exact .inl unchanged
  refine .inr ⟨files, rendered, ?_⟩
  unfold writeAllOn at failure
  rcases fails_bind.mp failure with writing | ⟨written, between, writing, failure⟩
  · left
    obtain ⟨i, name, text, found, written, between, success, failure⟩ := writeEach_fails writing
    exact ⟨i, name, text, found, written, between, success, failure.outcome,
      brokenOff tree success failure⟩
  · right
    have removes : (outputFor config directory).removesStale = config.removeStaleFiles := rfl
    rw [removes] at failure
    split at failure
    · rename_i asked
      refine ⟨asked, written, between, writing, ?_⟩
      rcases fails_bind.mp failure with cleaning | ⟨_, _, _, failure⟩
      · exact cleaning.outcome
      · exact absurd failure not_fails_pure
    · exact absurd failure not_fails_pure

/-- A directory with the index and the module of an earlier run. -/
def earlierClient : Disk where
  workingDirectory := ["home"]
  entries := [(["home"], .directory), (["home", "out"], .directory),
    (["home", "out", "models.ts"], .file "index"),
    (["home", "out", "api.module.ts"], .file "module"),
    (["home", "out", "models"], .directory), (["home", "out", "models", "cat.ts"], .file "cat")]

def emptyDocument : Value := .object [(.text "swagger", .text "2.0")]

/-- A platform with room for one more file than there is in `earlierClient`. -/
def smallPlatform : Platform := { Platform.standard with medium := .ofCapacity 7 }

/-- There is no room to write the module, and the run is broken off there: the earlier one is still
in its place. -/
theorem generateOn_error_earlierClient :
    earlierClient.IsTree ∧
      (generateOn smallPlatform {} emptyDocument (.ofText "out") earlierClient).outcome =
        .error .storage ∧
      (generateOn smallPlatform {} emptyDocument (.ofText "out") earlierClient).disk.get?
        ["home", "out", "api.module.ts"] = some (.file "module") ∧
      ∃ files i name text written between,
        (smallPlatform.engine.render {} (templatesOn earlierClient {}) emptyDocument).outcome =
          .ok files ∧
        files.entries[i]? = some (name, text) ∧
        (writeEach smallPlatform.medium (.ofText "out") (files.entries.take i)).Succeeds
          earlierClient written between ∧
        (writeOn smallPlatform.medium ((FilePath.ofText "out").append (.ofText name)) text
          between).outcome = .error .storage ∧
        BrokenOff (.ofText "out") (files.entries.take i) name earlierClient between
          (generateOn smallPlatform {} emptyDocument (.ofText "out") earlierClient).disk := by
  have tree : earlierClient.IsTree :=
    Disk.isTree_of_entries (by decide +kernel) (by decide +kernel)
  have failed : (generateOn smallPlatform {} emptyDocument (.ofText "out")
      earlierClient).outcome = .error .storage := by
    decide +kernel
  have renders : (smallPlatform.engine.render {} (templatesOn earlierClient {})
      emptyDocument).outcome.toBool = true := by
    decide +kernel
  have writes : ((smallPlatform.engine.render {} (templatesOn earlierClient {})
      emptyDocument).outcome >>= fun files =>
        (writeEach smallPlatform.medium (.ofText "out") files.entries earlierClient).outcome) =
      .error .storage := by
    decide +kernel
  refine ⟨tree, failed, by decide +kernel, ?_⟩
  rcases generateOn_error tree failed with ⟨unmade, -⟩ | ⟨files, rendered, broken | cleaned⟩
  · rw [unmade] at renders
    cases renders
  · obtain ⟨i, name, text, found, written, between, success, failure, broken⟩ := broken
    exact ⟨files, i, name, text, written, between, rendered, found, success, failure, broken⟩
  · obtain ⟨-, written, between, writing, -⟩ := cleaned
    rw [rendered] at writes
    exact absurd (writing.outcome.symm.trans writes) (by simp)

end Client

end ClientGen
