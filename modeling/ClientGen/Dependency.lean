import ClientGen.Model.Basic
import ClientGen.Table

/-!
# Dependencies on models

The models that a model or a service depends on are collected from names and types, in the order
in which they are first met. Names behind which there is no model are passed over, and so is the
model that the dependencies are collected for.
-/
namespace ClientGen

/-- The dependencies found so far, and the keys that lead to them. -/
structure Dependencies where
  classes : List String := []
  seen : List String := []
  deriving DecidableEq, Repr

namespace Dependencies

/-- The key of the model that dependencies are collected for; an empty name stands for none. -/
def ownerKey (owner : Option String) : Option String :=
  match owner with
  | some "" => none
  | some name => some (Naming.key name)
  | none => none

/-- The key of the model that the name of a type leads to. -/
def keyOf (name : String) : String :=
  Naming.key (TypeExpr.strip name)

/-- Adds a class with the key `classKey` that was met under `key`, if the class is new. -/
def addClass (owner : Option String) (d : Dependencies) (key className classKey : String) :
    Dependencies :=
  if owner = some classKey ∨ classKey ∈ d.seen then d
  else ⟨d.classes ++ [className], d.seen ++ [key, classKey]⟩

def addKey (models : Table Model) (owner : Option String) (d : Dependencies) (key : String) :
    Dependencies :=
  if owner = some key ∨ key ∈ d.seen then d
  else match models.get? key with
    | none => d
    | some model => d.addClass owner key model.className (Naming.key model.className)

/-- Adds the model behind the name of a type, if there is one that is new. -/
def addName (models : Table Model) (owner : Option String) (d : Dependencies) (name : String) :
    Dependencies :=
  d.addKey models owner (keyOf name)

def addNames (models : Table Model) (owner : Option String) (d : Dependencies)
    (names : List String) : Dependencies :=
  names.foldl (addName models owner) d

def addType (models : Table Model) (owner : Option String) (d : Dependencies) (t : TypeExpr) :
    Dependencies :=
  d.addNames models owner t.dependencyNames

inductive Candidate
  | name (name : String)
  | type (t : TypeExpr)

/-- The names that a candidate stands for. -/
def Candidate.names : Candidate → List String
  | .name text => [text]
  | .type t => t.dependencyNames

def add (models : Table Model) (owner : Option String) (d : Dependencies) (candidate : Candidate) :
    Dependencies :=
  d.addNames models owner candidate.names

/-- The dependencies of the model `owner`, or of a service, after some candidates. -/
def collect (models : Table Model) (owner : Option String) (candidates : List Candidate) :
    Dependencies :=
  candidates.foldl (add models (ownerKey owner)) {}

/-- The classes that are found for some candidates, in order. -/
def listing (models : Table Model) (owner : Option String) (candidates : List Candidate) :
    List String :=
  (collect models owner candidates).classes

theorem addNames_append {models : Table Model} {owner : Option String} (d : Dependencies)
    (names more : List String) :
    d.addNames models owner (names ++ more) =
      (d.addNames models owner names).addNames models owner more :=
  List.foldl_append

/-- Candidates are added name by name. -/
theorem collect_eq_addNames (models : Table Model) (owner : Option String)
    (candidates : List Candidate) :
    collect models owner candidates = ({} : Dependencies).addNames models (ownerKey owner)
      (candidates.flatMap Candidate.names) := by
  unfold collect
  generalize ({} : Dependencies) = d
  induction candidates generalizing d with
  | nil => rfl
  | cons candidate rest ih =>
    rw [List.foldl_cons, ih, List.flatMap_cons, addNames_append]
    rfl

end Dependencies

end ClientGen
