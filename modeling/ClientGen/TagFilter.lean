import ClientGen.Log
import ClientGen.Reachable
import ClientGen.Service.Basic
import ClientGen.Text.Split

/-!
# Filtering by tag

Services are kept or dropped by their tags, which are normalized in the same way as the tags of
operations. Models that no kept service uses, directly or through other models, are then dropped.
-/
namespace ClientGen

/-- The tags in a setting: the parts of a text at its commas, the items of a list, or the one
value itself. -/
def tagValues : Value → List Value
  | .scalar .null => []
  | .text s => (Text.splitOn ',' s.toList).map fun part => .text (String.ofList part)
  | .list items => items
  | v => [v]

/-- The service names that the tags in a setting stand for, without repetition. -/
def tagNames (tags : Value) (fallback : String) : List String :=
  let names := (tagValues tags).filterMap fun v =>
    if v = .null then none else some (Text.trim v.display)
  TypeExpr.distinct ((names.filter (· != "")).map fun name => Naming.tagName (.text name) fallback)

/-- The service names that the tags in a setting stand for, unless there are none. -/
def normalizeTags (tags : Value) (fallback : String) : Option (List String) :=
  match tagNames tags fallback with
  | [] => none
  | names => some names

/-- Which services are kept, and whether unused models are. -/
structure TagFilter where
  included : Option (List String)
  excluded : Option (List String)
  dropUnused : Bool

namespace TagFilter

def ofTags (included excluded : Value) (dropUnused : Bool) (fallback : String) : TagFilter :=
  { included := normalizeTags included fallback
    excluded := normalizeTags excluded fallback
    dropUnused }

def includes (f : TagFilter) (tag : String) : Bool :=
  (f.included.all fun names => decide (tag ∈ names)) &&
    (f.excluded.all fun names => decide (tag ∉ names))

def services (f : TagFilter) (services : Table Service) : Table Service :=
  services.filter fun tag _ => f.includes tag

/-- The class names that services use directly. -/
def usedClasses (services : Table Service) : List String :=
  services.values.flatMap fun s => s.dependencies ++ s.errorDependencies

def keepsModel (reachable : List String) (m : Model) : Bool :=
  decide (Naming.key m.className ∈ reachable)

def models (f : TagFilter) (models : Table Model) (kept : Table Service) : Table Model :=
  if f.dropUnused then
    let reachable := Reachable.fromClasses models (usedClasses kept)
    models.filter fun _ m => keepsModel reachable m
  else models

def serviceRecords (f : TagFilter) (services : Table Service) : List Record :=
  (services.keys.filter fun tag => !f.includes tag).map fun tag =>
    ⟨.info, .filter, "Ignoring service " ++ tag ++ " because it was not included"⟩

def modelRecords (f : TagFilter) (models : Table Model) (kept : Table Service) : List Record :=
  if f.dropUnused then
    let reachable := Reachable.fromClasses models (usedClasses kept)
    (models.values.filter fun m => !keepsModel reachable m).map fun m =>
      ⟨.info, .filter, "Ignoring model " ++ m.name ++ " because it was not used by any service"⟩
  else []

def apply (f : TagFilter) (models : Table Model) (services : Table Service) :
    Logged (Table Model × Table Service) :=
  let kept := f.services services
  ⟨f.serviceRecords services ++ f.modelRecords models kept, .ok (f.models models kept, kept)⟩

end TagFilter

end ClientGen
