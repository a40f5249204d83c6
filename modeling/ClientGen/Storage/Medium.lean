import ClientGen.Storage.Step

/-!
# Media

A medium may refuse a change that the disk would allow: because it is full, because it is
protected, or because it cannot take a text as it is. What it refuses is given, so that a statement
about runs holds whatever goes wrong on the way. A text that is refused may have been written in
part. A file can always be removed again.
-/
namespace ClientGen

inductive Change where
  | makeDirectory (l : Location)
  | makeFile (l : Location)
  | writeText (l : Location) (text : String)
  | moveFile (source target : Location)
  deriving DecidableEq, Repr

structure Medium where
  /-- Why a change of a disk is refused, if it is. -/
  refusal? : Disk → Change → Option Failure
  /-- What is there of a text when the rest of it is refused. -/
  writtenPart : Disk → Location → String → String

namespace Medium

/-- The medium that refuses nothing. -/
def willing : Medium where
  refusal? _ _ := none
  writtenPart _ _ text := text

/-- A medium that is full when there are more than `capacity` files and directories: it takes no
more texts then. -/
def ofCapacity (capacity : Nat) : Medium where
  refusal? d change :=
    match change with
    | .writeText .. => if d.entries.length ≤ capacity then none else some .storage
    | _ => none
  writtenPart _ _ _ := ""

/-- A step that makes a change, unless the medium refuses it. -/
def making {α : Type} (medium : Medium) (change : Change) (step : OnDisk α) : OnDisk α := fun d =>
  match medium.refusal? d change with
  | some e => ⟨d, [], .error e⟩
  | none => step d

/-- Writes a text to a file that is there. -/
def writeText (medium : Medium) (l : Location) (text : String) : OnDisk Unit := fun d =>
  match medium.refusal? d (.writeText l text) with
  | some e => ⟨d.put l (.file (medium.writtenPart d l text)), [], .error e⟩
  | none => ⟨d.put l (.file text), [], .ok ()⟩

end Medium

end ClientGen
