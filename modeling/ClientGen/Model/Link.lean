import ClientGen.Dependency
import ClientGen.Log
import ClientGen.Model.Build

/-!
# The model table

The models of all definitions, by key. Interfaces are linked to their parents: the names of the
parents become class names of the table, and each parent knows its subclasses. Then the
dependencies of each model are collected.
-/
namespace ClientGen.Models

/-- The message about a definition that takes the place of an earlier one. -/
def replacedMessage (earlier model : Model) : String :=
  "Definition '" ++ model.name ++ "' has the same class name as '" ++ earlier.name ++ "' (" ++
    model.className ++ "). Using '" ++ model.name ++ "'."

/-- Adds the model of a definition; what is no object is a remark and passed over. -/
def addDefinition (config : Config) (models : Table Model) (name : Scalar) (schema : Value) :
    Logged (Table Model) :=
  match schema with
  | .object fields => do
    let model ← (Model.ofDefinition config name fields : Outcome Model)
    let key := Naming.key model.className
    match models.get? key with
    | some earlier => Logged.note .warning .models (replacedMessage earlier model)
    | none => pure ()
    return models.insert key model
  | _ => pure models

def addDefinitions (config : Config) (models : Table Model) : Fields → Logged (Table Model)
  | [] => pure models
  | (name, schema) :: rest => do
    addDefinitions config (← addDefinition config models name schema) rest

/-- Registers a class as a subclass, once. -/
def addSubclass (className : String) (m : Model) : Model :=
  if className ∈ m.subclasses then m else { m with subclasses := m.subclasses ++ [className] }

/-- Looks up the parents of `m` one after another and registers `m` with each. The class names of
the parents are found, and a parent that is not in the table is a failure. -/
def linkParents (m : Model) (models : Table Model) :
    List String → Outcome (Table Model × List String)
  | [] => .ok (models, [])
  | parent :: rest =>
    match models.get? (Naming.key parent) with
    | none => .error (.unknownParent m.name parent)
    | some target => do
      let registered := models.modify (Naming.key parent) (addSubclass m.className)
      let (after, linked) ← linkParents m registered rest
      return (after, target.className :: linked)

/-- Links the model under a key to its parents; only an interface can have some. -/
def linkModel (models : Table Model) (key : String) : Outcome (Table Model) :=
  match models.get? key with
  | none => .ok models
  | some m =>
    if m.kind ≠ .object ∨ m.parents = [] then .ok models
    else do
      let (registered, linked) ← linkParents m models m.parents
      return registered.modify key (·.withParents linked)

/-- Links every model to its parents, in the order of the table. -/
def link (models : Table Model) : Outcome (Table Model) :=
  models.keys.foldlM linkModel models

def typesOf (m : Model) : List TypeExpr :=
  match m.body with
  | .object _ properties additional => properties.map Property.type ++ additional.toList
  | .enum _ => []
  | .array element => [element]
  | .simple type => if type.isCompound then [type] else []
  | .union type => [type]

/-- What the dependencies of a model are collected from: its parents, then its types. -/
def candidatesOf (m : Model) : List Dependencies.Candidate :=
  m.parents.map .name ++ (typesOf m).map .type

def dependenciesOf (models : Table Model) (m : Model) : List String :=
  Dependencies.listing models (some m.className) (candidatesOf m)

def withDependencies (models : Table Model) : Table Model :=
  models.map fun m => { m with dependencies := dependenciesOf models m }

def ofDefinitions (config : Config) (definitions : Value) : Logged (Table Model) := do
  let fields ← (definitions.asFields : Outcome Fields)
  let models ← addDefinitions config .empty fields
  let linked ← (link models : Outcome (Table Model))
  return withDependencies linked

end ClientGen.Models
