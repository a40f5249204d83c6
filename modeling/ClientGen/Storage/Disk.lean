import ClientGen.Failure
import ClientGen.Storage.Path

/-!
# Disks

A disk holds files and directories at locations. It is seen through `get?`: an operation is
described by what `get?` says after it (`get?_put`, `get?_erase`). A path leads to a location by
way of directories, and starts in the working directory unless it is absolute. A disk takes names
and paths up to a length, and refuses to look for longer ones.
-/
namespace ClientGen

/-- A place on a disk: the names from the root down. -/
abbrev Location := List String

def Location.step (l : Location) (name : String) : Location :=
  if name = ".." then l.dropLast else l ++ [name]

inductive Entry where
  | file (text : String)
  | directory
  deriving DecidableEq, Repr

def Entry.isFile : Entry → Bool
  | .file _ => true
  | .directory => false

/-- Files and directories by location, and the location at which relative paths start. -/
structure Disk where
  workingDirectory : Location
  entries : List (Location × Entry)
  deriving Repr

namespace Disk

/-- What stands at a location; the root is a directory. -/
def get? (d : Disk) (l : Location) : Option Entry :=
  if l = [] then some .directory else d.entries.lookup l

def put (d : Disk) (l : Location) (e : Entry) : Disk :=
  { d with entries := (l, e) :: d.entries.filter fun entry => entry.1 ≠ l }

/-- Takes away what stands at a location. -/
def erase (d : Disk) (l : Location) : Disk :=
  { d with entries := d.entries.filter fun entry => entry.1 ≠ l }

theorem lookup_filter_ne (entries : List (Location × Entry)) (l m : Location) :
    (entries.filter fun entry => entry.1 ≠ l).lookup m =
      if m = l then none else entries.lookup m := by
  induction entries with
  | nil => simp
  | cons entry rest ih =>
    obtain ⟨k, e⟩ := entry
    by_cases hk : k = l
    · subst hk
      by_cases hm : m = k
      · simpa [hm] using ih
      · have hb : (m == k) = false := by simpa using hm
        simpa [hm, List.lookup_cons, hb] using ih
    · by_cases hm : m = k
      · subst hm
        simp [hk]
      · have hb : (m == k) = false := by simpa using hm
        simpa [hk, List.lookup_cons, hb] using ih

/-- A location holds what was put there last. -/
theorem get?_put (d : Disk) (l m : Location) (e : Entry) (h : l ≠ []) :
    (d.put l e).get? m = if m = l then some e else d.get? m := by
  by_cases hm : m = l
  · subst hm
    simp [get?, put, h]
  · by_cases h0 : m = []
    · simp [get?, h0, Ne.symm h]
    · have hb : (m == l) = false := by simpa using hm
      have hf := lookup_filter_ne d.entries l m
      simp only [hm, if_false] at hf
      simp only [get?, put, h0, if_false, List.lookup_cons, hb, hm]
      exact hf

/-- Of what is put at one location the last counts. -/
theorem put_put (d : Disk) (l : Location) (e f : Entry) : (d.put l e).put l f = d.put l f := by
  simp [put]

/-- What is taken away is gone, and nothing else. -/
theorem get?_erase (d : Disk) (l m : Location) (h : l ≠ []) :
    (d.erase l).get? m = if m = l then none else d.get? m := by
  by_cases h0 : m = []
  · simp [get?, h0, Ne.symm h]
  · have hf := lookup_filter_ne d.entries l m
    simp only [get?, erase, h0, if_false]
    exact hf

/-- Follows names by way of directories. What stands at the end is another question. -/
def follow (d : Disk) (l : Location) : List String → Option Location
  | [] => some l
  | name :: rest =>
    match d.get? l with
    | some .directory => d.follow (Location.step l name) rest
    | _ => none

def start (d : Disk) (p : FilePath) : Location :=
  if p.absolute then [] else d.workingDirectory

def locate? (d : Disk) (p : FilePath) : Option Location :=
  if p.isFit then d.follow (d.start p) p.names else none

def find? (d : Disk) (p : FilePath) : Option Entry :=
  (d.locate? p).bind d.get?

/-- Whether the names are short enough that are looked for: those of which the directory is
there. -/
def canFollow (d : Disk) (l : Location) : List String → Bool
  | [] => true
  | name :: rest =>
    match d.get? l with
    | some .directory => FilePath.isFitName name && d.canFollow (Location.step l name) rest
    | _ => true

/-- What a path leads to, unless the disk refuses to look for it. A path that no disk can hold leads
to nothing. -/
def lookFor (d : Disk) (p : FilePath) : Outcome (Option Entry) :=
  if p.isPossible && !(p.isFit && d.canFollow (d.start p) p.names) then .error .storage
  else .ok (d.find? p)

/-- What is found by looking is what the path leads to. -/
theorem find?_of_lookFor {d : Disk} {p : FilePath} {found : Option Entry}
    (h : d.lookFor p = .ok found) : d.find? p = found := by
  unfold lookFor at h
  split at h
  · cases h
  · exact Except.ok.inj h

def isFile (d : Disk) (p : FilePath) : Bool :=
  (d.find? p).any Entry.isFile

def isDirectory (d : Disk) (p : FilePath) : Bool :=
  d.find? p == some .directory

def text? (d : Disk) (p : FilePath) : Option String :=
  match d.find? p with
  | some (.file text) => some text
  | _ => none

/-- The same path from the root, without double dots. -/
def resolve (d : Disk) (p : FilePath) : FilePath :=
  ⟨true, FilePath.straightened (d.start p ++ p.names)⟩

/-- The names in a directory, in order. -/
def namesIn (d : Disk) (l : Location) : List String :=
  let names := d.entries.filterMap fun (m, _) =>
    if m ≠ [] ∧ m.dropLast = l then m.getLast? else none
  names.mergeSort fun a b => decide (a ≤ b)

/-- The locations below a directory as texts that start there, in order; those of directories
end with a slash. -/
def listing (d : Disk) (l : Location) : List (String × Entry) :=
  let below := d.entries.filterMap fun (m, e) =>
    if l.isPrefixOf m ∧ m ≠ l then some (FilePath.joined (m.drop l.length), e) else none
  let sorted := below.mergeSort fun a b => decide (a.1 ≤ b.1)
  sorted.map fun (text, e) => (if e = .directory then text ++ "/" else text, e)

end Disk

end ClientGen
