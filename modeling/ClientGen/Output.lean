import ClientGen.Storage.Medium
import ClientGen.Table

/-!
# Writing an output directory

A file is written by way of a temporary file beside it: this is made, the text is written to it, and
it takes the place of the file. If one of the last two steps fails, the temporary file is removed.
So a file is never there in part, and no temporary file stays. After all files have been written,
files of earlier runs that are no longer produced are removed, if this is asked for: the sources in
the generated directories, and the optional files at the top.
-/
namespace ClientGen

/-- An output directory, and what is done about files that are no longer produced. -/
structure Output where
  directory : FilePath
  /-- Whether files that are no longer produced are removed. -/
  removesStale : Bool := true
  /-- Files at the top of the directory that only some configurations produce. -/
  optionalFiles : List String := []
  deriving DecidableEq, Repr

namespace Output

def generatedDirectories : List String := ["models", "services"]

/-- The ending of the names of generated sources. -/
def sourceEnding : String := ".ts"

/-- Follows names by way of directories, which are made where they are missing. -/
def enter (medium : Medium) : Location → List String → OnDisk Location
  | l, [] => return l
  | l, name :: rest => fun d =>
    let next := Location.step l name
    match d.get? next with
    | some .directory => enter medium next rest d
    | some (.file _) => ⟨d, [], .error .storage⟩
    | none =>
      if FilePath.isFitName name then
        medium.making (.makeDirectory next)
          (fun d => enter medium next rest (d.put next .directory)) d
      else ⟨d, [], .error .storage⟩

/-- The directory of a path, made where it is missing. -/
def makeDirectory (medium : Medium) (path : FilePath) : OnDisk Location := fun d =>
  if !path.isPossible then ⟨d, [], .error (.misuse .unreadable)⟩
  else if path.isFit then enter medium (d.start path) path.names d
  else ⟨d, [], .error .storage⟩

/-- The name of the temporary file number `n` for a file. -/
def temporaryName (name : String) (n : Nat) : String :=
  "." ++ name ++ "." ++ padded 8 n ++ ".tmp"

/-- The location of a temporary file for a file, at which nothing stands. -/
def temporary (d : Disk) (directory : Location) (name : String) : Location :=
  let locations := (List.range (d.entries.length + 1)).map fun n =>
    directory ++ [temporaryName name n]
  (locations.find? fun l => (d.get? l).isNone).getD (directory ++ [temporaryName name 0])

/-- Makes an empty temporary file for a file, and gives its location. -/
def createTemporary (medium : Medium) (directory : Location) (name : String) :
    OnDisk Location := fun d =>
  let l := temporary d directory name
  if !FilePath.isPossibleName name then ⟨d, [], .error (.misuse .unreadable)⟩
  else if FilePath.isFitName ((l.getLast?).getD "") && FilePath.isFit ⟨true, l⟩ then
    medium.making (.makeFile l) (fun d => ⟨d.put l (.file ""), [], .ok l⟩) d
  else ⟨d, [], .error .storage⟩

/-- The location of a name in a directory; no name is the directory itself. -/
def target (directory : Location) (name : String) : Location :=
  if name = "" then directory else Location.step directory name

/-- Puts a temporary file in the place of a file; a directory keeps its place. -/
def settle (medium : Medium) (temporary target : Location) : OnDisk Unit := fun d =>
  match d.get? target, d.get? temporary with
  | some .directory, _ => ⟨d, [], .error .storage⟩
  | _, some e =>
    medium.making (.moveFile temporary target)
      (fun d => ⟨(d.erase temporary).put target e, [], .ok ()⟩) d
  | _, none => ⟨d, [], .error .storage⟩

/-- Writes a text to a temporary file and puts this in the place of a file. If either fails, the
temporary file is removed again. -/
def deliver (medium : Medium) (temporary target : Location) (text : String) : OnDisk Unit :=
  OnDisk.removingOnFailure temporary do
    medium.writeText temporary text
    settle medium temporary target

/-- Writes a file as a whole on a medium, and makes the directories on the way to it. -/
def writeOn (medium : Medium) (path : FilePath) (text : String) : OnDisk Unit := do
  let directory ← makeDirectory medium path.parent
  let temporary ← createTemporary medium directory path.name
  deliver medium temporary (target directory path.name) text
  Logged.note .info .writing ("Wrote " ++ path.text)

def write : FilePath → String → OnDisk Unit := writeOn .willing

/-- Writes files one after another, and gives their paths. -/
def writeEach (medium : Medium) (directory : FilePath) :
    List (String × String) → OnDisk (List FilePath)
  | [] => return []
  | (name, text) :: rest => do
    let path := directory.append (.ofText name)
    writeOn medium path text
    return path :: (← writeEach medium directory rest)

/-- The sources in a directory, in order; there are none where no directory is. A path that the disk
refuses to look for is a failure. -/
def sourcesIn (d : Disk) (folder : FilePath) : Outcome (List FilePath) := do
  if (← d.lookFor folder) = some .directory then
    let names := ((d.locate? folder).map d.namesIn).getD []
    return (names.filter fun name => sourceEnding.toList.isSuffixOf name.toList).map folder.child
  else return []

/-- The files that an earlier run may have left. -/
def candidates (o : Output) (d : Disk) : Outcome (List FilePath) := do
  let sources ← generatedDirectories.mapM fun name => sourcesIn d (o.directory.child name)
  return sources.flatten ++ o.optionalFiles.map fun name => o.directory.append (.ofText name)

/-- Whether a path is that of a produced file, the names being those below the directory. -/
def isProduced (o : Output) (produced : List String) (path : FilePath) : Bool :=
  let below : FilePath := ⟨false, path.names.drop o.directory.names.length⟩
  produced.any fun name => FilePath.ofText name == below

def remove (path : FilePath) : OnDisk Unit := do
  Logged.note .info .writing ("Removing stale file " ++ path.text)
  fun d =>
    match d.locate? path with
    | some l => ⟨d.erase l, [], .ok ()⟩
    | none => ⟨d, [], .error .storage⟩

/-- Removes those of the files that are there and not produced, and gives their paths. A path that
the disk refuses to look for is a failure. -/
def removeEach (o : Output) (produced : List String) : List FilePath → OnDisk (List FilePath)
  | [] => return []
  | path :: rest => do
    let found ← OnDisk.look fun d => d.lookFor path
    if (found.any Entry.isFile) && !o.isProduced produced path then
      remove path
      return path :: (← removeEach o produced rest)
    else removeEach o produced rest

/-- Removes the files that an earlier run left and this one does not produce. -/
def removeStale (o : Output) (produced : List String) : OnDisk (List FilePath) := do
  removeEach o produced (← OnDisk.look fun d => o.candidates d)

/-- Writes all files by their paths in the directory, then removes what is stale. -/
def writeAllOn (medium : Medium) (o : Output) (files : Table String) :
    OnDisk (List FilePath) := do
  let written ← writeEach medium o.directory files.entries
  if o.removesStale then
    let _ ← o.removeStale files.keys
  return written

def writeAll : Output → Table String → OnDisk (List FilePath) := writeAllOn .willing

end Output

end ClientGen
