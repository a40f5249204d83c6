import Mathlib.Data.List.Induction
import ClientGen.Storage.Step

/-!
# Where paths lead

The names of a path lead by way of locations (`Location.trail`) to the one where it ends
(`Location.walk`). Whether they can be followed depends on the directories of a disk alone
(`Disk.follow_of_directories`). In a tree, whatever is there can be reached from each location above
it (`Disk.IsTree.follow_plain`).
-/
namespace ClientGen

namespace Location

def walk (l : Location) (names : List String) : Location :=
  names.foldl step l

/-- The locations that names lead by, and the one that they lead to. -/
def trail (l : Location) : List String → List Location
  | [] => []
  | name :: rest => step l name :: trail (step l name) rest

theorem step_of_ne (l : Location) {name : String} (plain : name ≠ "..") :
    step l name = l ++ [name] :=
  if_neg plain

@[simp] theorem walk_nil (l : Location) : walk l [] = l := rfl

@[simp] theorem walk_cons (l : Location) (name : String) (rest : List String) :
    walk l (name :: rest) = walk (step l name) rest := rfl

theorem walk_append (l : Location) (names more : List String) :
    walk l (names ++ more) = walk (walk l names) more :=
  List.foldl_append

theorem trail_append (l : Location) (names more : List String) :
    trail l (names ++ more) = trail l names ++ trail (walk l names) more := by
  induction names generalizing l with
  | nil => rfl
  | cons name rest ih => simp [trail, ih]

/-- Names without double dots lead down. -/
theorem walk_plain (l : Location) {names : List String} (plain : ".." ∉ names) :
    walk l names = l ++ names := by
  induction names generalizing l with
  | nil => simp
  | cons name rest ih =>
    rw [List.mem_cons, not_or] at plain
    obtain ⟨first, others⟩ := plain
    rw [walk_cons, step_of_ne l (Ne.symm first), ih _ others, List.append_assoc,
      List.singleton_append]

end Location

/-- Whether a path and its names are within the limits of a disk. -/
def FilePath.IsShort (p : FilePath) : Prop :=
  p.isFit = true ∧ p.names.all FilePath.isFitName = true

instance (p : FilePath) : Decidable p.IsShort :=
  inferInstanceAs (Decidable (_ ∧ _))

namespace Disk

variable {d e : Disk} {l m : Location} {name : String} {names more : List String}

/-- The location at which a path ends, whatever stands on the way. -/
def destination (d : Disk) (p : FilePath) : Location :=
  Location.walk (d.start p) p.names

def approach (d : Disk) (p : FilePath) : List Location :=
  Location.trail (d.start p) p.names.dropLast

theorem start_of_workingDirectory (same : e.workingDirectory = d.workingDirectory) (p : FilePath) :
    e.start p = d.start p := by
  unfold start
  rw [same]

theorem destination_of_workingDirectory (same : e.workingDirectory = d.workingDirectory)
    (p : FilePath) : e.destination p = d.destination p := by
  unfold destination
  rw [start_of_workingDirectory same]

theorem approach_of_workingDirectory (same : e.workingDirectory = d.workingDirectory)
    (p : FilePath) : e.approach p = d.approach p := by
  unfold approach
  rw [start_of_workingDirectory same]

theorem ne_nil_of_get? (other : d.get? l ≠ some .directory) : l ≠ [] := by
  rintro rfl
  exact other rfl

theorem follow_cons (d : Disk) (l : Location) (name : String) (rest : List String) :
    d.follow l (name :: rest) =
      if d.get? l = some .directory then d.follow (Location.step l name) rest else none := by
  rw [follow]
  split
  case h_1 here => rw [if_pos here]
  case h_2 other => rw [if_neg other]

theorem follow_append (d : Disk) (l : Location) (names more : List String) :
    d.follow l (names ++ more) = (d.follow l names).bind fun m => d.follow m more := by
  induction names generalizing l with
  | nil => rfl
  | cons name rest ih =>
    rw [List.cons_append, follow_cons, follow_cons]
    split
    · exact ih _
    · rfl

/-- Names that can be followed lead to where they lead without a look at the disk. -/
theorem eq_walk_of_follow (followed : d.follow l names = some m) : m = Location.walk l names := by
  induction names generalizing l with
  | nil => exact (Option.some.inj followed).symm
  | cons name rest ih =>
    rw [follow_cons] at followed
    split at followed
    · exact ih followed
    · cases followed

theorem follow_of_trail (here : d.get? l = some .directory)
    (through : ∀ m ∈ Location.trail l names, d.get? m = some .directory) :
    d.follow l names = some (Location.walk l names) := by
  induction names generalizing l with
  | nil => rfl
  | cons name rest ih =>
    obtain ⟨first, others⟩ := List.forall_mem_cons.mp through
    rw [follow_cons, if_pos here]
    exact ih first others

theorem follow_mono (kept : ∀ m, d.get? m = some .directory → e.get? m = some .directory)
    (followed : d.follow l names = some m) : e.follow l names = some m := by
  induction names generalizing l with
  | nil => exact followed
  | cons name rest ih =>
    rw [follow_cons] at followed ⊢
    split at followed
    · rename_i here
      rw [if_pos (kept l here)]
      exact ih followed
    · cases followed

/-- Two disks with the same directories let the same names be followed. -/
theorem follow_of_directories
    (same : ∀ m, d.get? m = some .directory ↔ e.get? m = some .directory) (l : Location)
    (names : List String) : d.follow l names = e.follow l names := by
  induction names generalizing l with
  | nil => rfl
  | cons name rest ih => simp only [follow_cons, same, ih]

theorem locate?_of_directories
    (same : ∀ m, d.get? m = some .directory ↔ e.get? m = some .directory)
    (start : d.workingDirectory = e.workingDirectory) (p : FilePath) :
    d.locate? p = e.locate? p := by
  unfold locate?
  rw [start_of_workingDirectory start, follow_of_directories same]

theorem locate?_eq_some {p : FilePath} :
    d.locate? p = some l ↔ p.isFit = true ∧ d.follow (d.start p) p.names = some l := by
  unfold locate?
  split <;> simp_all

theorem eq_destination_of_locate? {p : FilePath} (located : d.locate? p = some l) :
    l = d.destination p :=
  eq_walk_of_follow (locate?_eq_some.mp located).2

/-- A path that is looked for, and that some disk can hold, is short enough. -/
theorem isFit_of_lookFor {p : FilePath} {found : Option Entry} (looked : d.lookFor p = .ok found)
    (possible : p.isPossible = true) : p.isFit = true := by
  unfold lookFor at looked
  split at looked
  · cases looked
  · simp_all

theorem canFollow_of_fits (d : Disk) (l : Location)
    (fits : names.all FilePath.isFitName = true) : d.canFollow l names = true := by
  induction names generalizing l with
  | nil => rfl
  | cons name rest ih =>
    rw [List.all_cons, Bool.and_eq_true] at fits
    rw [canFollow]
    split
    · rw [fits.1, ih _ fits.2, Bool.and_true]
    · rfl

/-- Every disk looks for a path that is short and has short names. -/
theorem lookFor_of_short (d : Disk) {p : FilePath} (short : p.IsShort) :
    d.lookFor p = .ok (d.find? p) := by
  unfold lookFor
  rw [short.1, canFollow_of_fits d _ short.2]
  simp

/-- The working directory is a directory, whatever is there is in a directory, and has a name that
a disk can hold. -/
structure IsTree (d : Disk) : Prop where
  working : d.get? d.workingDirectory = some .directory
  parent : ∀ {l name e}, d.get? (l ++ [name]) = some e → d.get? l = some .directory
  possible : ∀ {l name e}, d.get? (l ++ [name]) = some e → FilePath.isPossibleName name = true

/-- It is enough to look at the entries. -/
theorem isTree_of_entries (working : d.get? d.workingDirectory = some .directory)
    (placed : ∀ entry ∈ d.entries, d.get? entry.1.dropLast = some .directory ∧
      FilePath.isPossibleName ((entry.1.getLast?).getD "") = true) : d.IsTree := by
  have present : ∀ {l name e}, d.get? (l ++ [name]) = some e → (l ++ [name], e) ∈ d.entries := by
    intro l name e found
    rw [get?, if_neg (by simp), List.lookup_eq_some_iff] at found
    obtain ⟨before, after, same, -⟩ := found
    rw [same]
    exact List.mem_append_right before List.mem_cons_self
  constructor
  · exact working
  · intro l name e found
    have above := (placed _ (present found)).1
    rwa [List.dropLast_concat] at above
  · intro l name e found
    have named := (placed _ (present found)).2
    rwa [List.getLast?_concat, Option.getD_some] at named

namespace IsTree

theorem start (tree : d.IsTree) (p : FilePath) : d.get? (d.start p) = some .directory := by
  unfold Disk.start
  split
  · rfl
  · exact tree.working

theorem get?_dropLast (tree : d.IsTree) (here : d.get? l = some .directory) :
    d.get? l.dropLast = some .directory := by
  obtain rfl | ⟨before, name, rfl⟩ := l.eq_nil_or_concat
  · exact here
  · rw [List.concat_eq_append] at here ⊢
    rw [List.dropLast_concat]
    exact tree.parent here

/-- Whatever is there has directories all the way above it. -/
theorem ancestor (tree : d.IsTree) {entry : Entry} {rest : List String}
    (present : d.get? (l ++ name :: rest) = some entry) : d.get? l = some .directory := by
  induction rest using List.reverseRecOn generalizing entry with
  | nil => exact tree.parent present
  | append_singleton before last ih =>
    rw [← List.cons_append, ← List.append_assoc] at present
    exact ih (tree.parent present)

/-- Names without double dots that lead to what is there can be followed. -/
theorem follow_plain (tree : d.IsTree) {entry : Entry} (plain : ".." ∉ names)
    (present : d.get? (l ++ names) = some entry) : d.follow l names = some (l ++ names) := by
  induction names generalizing l with
  | nil => simp [follow]
  | cons name rest ih =>
    rw [List.mem_cons, not_or] at plain
    obtain ⟨first, others⟩ := plain
    rw [follow_cons, if_pos (tree.ancestor present), Location.step_of_ne l (Ne.symm first)]
    have below := ih others (List.append_cons l name rest ▸ present)
    rw [below, ← List.append_cons]

/-- Names by which something is found are names that a disk can hold. -/
theorem possible_of_follow (tree : d.IsTree) {entry : Entry}
    (followed : d.follow l names = some m) (present : d.get? m = some entry) :
    names.all FilePath.isPossibleName = true := by
  induction names generalizing l with
  | nil => rfl
  | cons name rest ih =>
    rw [follow_cons] at followed
    split at followed
    case isFalse => cases followed
    rw [List.all_cons, ih followed, Bool.and_true]
    by_cases dots : name = ".."
    · subst name
      decide
    · rw [Location.step_of_ne l dots] at followed
      -- the names after this one are followed from where it leads, so something is there
      cases rest with
      | nil =>
        cases followed
        exact tree.possible present
      | cons next others =>
        rw [follow_cons] at followed
        split at followed
        case isFalse => cases followed
        case isTrue here => exact tree.possible here

theorem put (tree : d.IsTree) {entry : Entry} (above : d.get? l = some .directory)
    (possible : FilePath.isPossibleName name = true)
    (free : entry = .directory ∨ d.get? (l ++ [name]) ≠ some .directory) :
    (d.put (l ++ [name]) entry).IsTree := by
  have holds : ∀ m, (d.put (l ++ [name]) entry).get? m =
      if m = l ++ [name] then some entry else d.get? m :=
    fun m => d.get?_put _ m entry (by simp)
  -- what is a directory stays one
  have kept : ∀ m, d.get? m = some .directory →
      (d.put (l ++ [name]) entry).get? m = some .directory := by
    intro m here
    rw [holds]
    split
    · rename_i same
      subst m
      rcases free with rfl | other
      · rfl
      · exact absurd here other
    · exact here
  constructor
  · exact kept _ tree.working
  · intro l' name' e' present
    rw [holds] at present
    split at present
    · rename_i same
      obtain ⟨rfl, -⟩ := List.append_inj' same rfl
      exact kept _ above
    · exact kept _ (tree.parent present)
  · intro l' name' e' present
    rw [holds] at present
    split at present
    · rename_i same
      obtain ⟨-, same⟩ := List.append_inj' same rfl
      cases same
      exact possible
    · exact tree.possible present

/-- A disk with the same entries as a tree is a tree. -/
theorem congr (tree : d.IsTree) (same : ∀ m, e.get? m = d.get? m)
    (start : e.workingDirectory = d.workingDirectory) : e.IsTree where
  working := by rw [start, same]; exact tree.working
  parent present := by rw [same] at present ⊢; exact tree.parent present
  possible present := by rw [same] at present; exact tree.possible present

theorem erase (tree : d.IsTree) (other : d.get? l ≠ some .directory) : (d.erase l).IsTree := by
  have holds : ∀ m, (d.erase l).get? m = if m = l then none else d.get? m :=
    fun m => d.get?_erase l m (ne_nil_of_get? other)
  have kept : ∀ m, d.get? m = some .directory → (d.erase l).get? m = some .directory := by
    intro m here
    rw [holds, if_neg]
    · exact here
    · rintro rfl
      exact other here
  constructor
  · exact kept _ tree.working
  · intro l' name' e' present
    rw [holds] at present
    split at present
    · cases present
    · exact kept _ (tree.parent present)
  · intro l' name' e' present
    rw [holds] at present
    split at present
    · cases present
    · exact tree.possible present

end IsTree

end Disk

end ClientGen
