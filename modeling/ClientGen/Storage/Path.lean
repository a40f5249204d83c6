import ClientGen.Text.Case
import ClientGen.Text.Split

/-!
# Paths of files

A path is written as names with slashes between them. Empty names and single dots say nothing and
are dropped, so that two spellings of one path are the same path (`of_mem_namesOf`); two dots
stay, since what they lead to depends on the disk.
-/
namespace ClientGen

/-- A path of a file or a directory: names from the root down, or from the working directory. -/
structure FilePath where
  absolute : Bool
  names : List String
  deriving DecidableEq, Repr

namespace FilePath

/-- The names between the slashes of a text that say something. -/
def namesOf (s : String) : List String :=
  ((Text.splitOn '/' s.toList).map String.ofList).filter fun name => name != "" && name != "."

def ofText (s : String) : FilePath :=
  ⟨s.toList.head? == some '/', namesOf s⟩

def joined (names : List String) : String :=
  "/".intercalate names

def text (p : FilePath) : String :=
  if p.absolute then "/" ++ joined p.names
  else if p.names.isEmpty then "."
  else joined p.names

/-- A path that starts where another one ends, unless it is absolute. -/
def append (p q : FilePath) : FilePath :=
  if q.absolute then q else { p with names := p.names ++ q.names }

def child (p : FilePath) (name : String) : FilePath :=
  { p with names := p.names ++ [name] }

/-- The last name; empty when there is none. -/
def name (p : FilePath) : String :=
  (p.names.getLast?).getD ""

/-- The path without its last name. -/
def parent (p : FilePath) : FilePath :=
  { p with names := p.names.dropLast }

/-- A path without double dots: each takes away the name before it. -/
def straightened (names : List String) : List String :=
  names.foldl (fun before name => if name = ".." then before.dropLast else before ++ [name]) []

/-- Whether a disk can hold a name: the null character is in none. -/
def isPossibleName (name : String) : Bool := name.toList.all (· != '\x00')

def isPossible (p : FilePath) : Bool := p.names.all isPossibleName

/-- How many bytes a name may have. -/
def nameLimit : Nat := 255

def isFitName (name : String) : Bool := name.utf8ByteSize ≤ nameLimit

/-- How many bytes the text of a path may have. -/
def lengthLimit : Nat := 4095

/-- Whether the text of a path is short enough. -/
def isFit (p : FilePath) : Bool := p.text.utf8ByteSize ≤ lengthLimit

/-- The ending of a name: what follows its last dot, with the dot. A name has none if its only
dot is its first character, or if the dot is its last one. -/
def ending (name : String) : String :=
  let after := Text.afterLast '.' name.toList
  if after.isEmpty || after.length + 1 ≥ name.length then ""
  else String.ofList ('.' :: after)

def yamlEndings : List String := [".yaml", ".yml"]

def isYaml (p : FilePath) : Bool :=
  Text.lower (ending p.name) ∈ yamlEndings

end FilePath

end ClientGen
