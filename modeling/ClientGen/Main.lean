import ClientGen.Command.Run

/-!
# The program

The outer layer: it copies what the words of a command line lead to from the file system to a
disk, runs the command there, and makes the same changes in the file system.
-/
namespace ClientGen.Program

def pathText (l : Location) : String := (FilePath.mk true l).text

/-- The names in a directory; there are none if it is no directory. -/
def namesAt? (l : Location) : IO (Option (List String)) := do
  try
    let found ← (← IO.FS.realPath (pathText l)).readDir
    return some (found.toList.map fun e => e.fileName)
  catch _ => return none

/-- The text of a file; there is none if it is no file. What is no text counts as a text that
nothing is read from. -/
def textAt? (l : Location) : IO (Option String) := do
  try
    let bytes ← IO.FS.readBinFile (pathText l)
    return some ((String.fromUTF8? bytes).getD "\uFFFD")
  catch _ => return none

/-- Copies what stands at a location, and tells the names in it if it is a directory. -/
def copy (d : Disk) (l : Location) : IO (Disk × List String) := do
  if (d.get? l).isSome && d.get? l != some .directory then return (d, [])
  match ← namesAt? l with
  | some names => return (if l.isEmpty then d else d.put l .directory, names)
  | none =>
    match ← textAt? l with
    | some text => return (d.put l (.file text), [])
    | none => return (d, [])

/-- Copies what a path leads to: the directories on the way, the file or the directory at the end,
what is in this directory, and what is in the generated directories there. -/
def copyPath (d : Disk) (path : FilePath) : IO Disk := do
  let mut d := d
  let names := d.start path ++ path.names
  for n in List.range (names.length + 1) do
    d := (← copy d (FilePath.straightened (names.take n))).1
  let here := FilePath.straightened names
  let (next, found) ← copy d here
  d := next
  for name in found do
    let (next, below) ← copy d (here ++ [name])
    d := next
    if name ∈ Output.generatedDirectories then
      for inner in below do
        d := (← copy d (here ++ [name, inner])).1
  return d

def pathTexts (words : List String) : List String :=
  match Arguments.parse? words with
  | some a => CommandOptions.defaultOutput :: a.words ++ a.options.map Prod.snd
  | none => []

/-- The part of the file system that a command line leads to. -/
def snapshot (words : List String) : IO Disk := do
  let here := FilePath.namesOf (toString (← IO.currentDir))
  let mut d : Disk := ⟨here, []⟩
  for text in pathTexts words do
    d ← copyPath d (.ofText text)
  return d

/-- Writes a file by way of a temporary one beside it. -/
def writeFile (l : Location) (text : String) : IO Unit := do
  let temporary := pathText (l.dropLast ++ [Output.temporaryName ((l.getLast?).getD "") 0])
  IO.FS.writeFile temporary text
  IO.FS.rename temporary (pathText l)

/-- Makes the changes between two disks in the file system: the directories from the top down,
then the files. -/
def apply (before after : Disk) : IO Unit := do
  let changed := after.entries.filter fun (l, e) => before.get? l != some e
  for (l, e) in changed.mergeSort fun a b => decide (a.1.length ≤ b.1.length) do
    if e = .directory then IO.FS.createDirAll (pathText l)
  for (l, e) in changed do
    if let .file text := e then writeFile l text
  for (l, _) in before.entries do
    if (after.get? l).isNone then IO.FS.removeFile (pathText l)

/-- What is told about the ends that the command itself does not tell about. -/
def remark : Ending → String
  | .usage => "Usage: " ++ CommandOptions.commandName ++ " [OPTIONS] SWAGGER_FILE\n"
  | .untold _ => "Error: the document or the configuration cannot be used\n"
  | _ => ""

end ClientGen.Program

open ClientGen in
/-- Runs the command. -/
def main (words : List String) : IO UInt32 := do
  let before ← Program.snapshot words
  let run := Command.run words before
  Program.apply before run.disk
  IO.eprint (run.errorOutput ++ Program.remark run.ending)
  return UInt32.ofNat run.ending.exitCode
