import ClientGen.Dependency
import ClientGen.Service.Operation

/-!
# The service table

Every method of every path becomes an operation of the service of its first tag. Services come in
the order of their first operation. When all operations are there, the services get the
descriptions of their tags and the models that they depend on.
-/
namespace ClientGen.Services

/-- A service that is being filled, with the ids of its operations. -/
structure Draft where
  service : Service
  ids : List String := []

/-- An entry of a path, which is an operation if its key is a method. -/
structure Endpoint where
  url : Scalar
  key : Scalar
  definition : Value
  item : Fields

/-- The entries of all paths, in order. -/
def endpointsOf (paths : Fields) : List Endpoint :=
  paths.flatMap fun (url, item) =>
    match item with
    | .object item => item.map fun (key, definition) => { url, key, definition, item }
    | _ => []

/-- Whether the key of a path entry is a method: `parameters` and vendor extensions are none. -/
def isMethod (key : String) : Bool :=
  key != "parameters" && !("x-".toList.isPrefixOf key.toList)

/-- The first tag of an operation; null when it has none. -/
def firstTag (tags : Value) : Outcome Value :=
  if tags.isSet then tags.first else .ok .null

def newService (config : Config) (tag : String) : Service :=
  let className := Naming.className tag
  { name := tag
    className := className ++ "Service"
    fileStem := Naming.fileStem className ++ config.serviceFileSuffix }

/-- The service of a tag, as far as it is filled. -/
def draftOf (config : Config) (drafts : Table Draft) (tag : String) : Draft :=
  (drafts.get? tag).getD { service := newService config tag }

def addOperation (config : Config) (models : Table Model) (document : Value)
    (drafts : Table Draft) (place : Operation.Place) (definition : Fields) :
    Logged (Table Draft) := do
  let first ← (firstTag (definition.get "tags") : Outcome Value)
  let tag := Naming.tagName first config.defaultTag
  let draft := draftOf config drafts tag
  let id ← Operation.uniqueId draft.ids (definition.get "operationId") place.method place.url
  let operation ← (Operation.build config models document draft.service.className place definition
    id : Outcome Operation)
  let service := { draft.service with operations := draft.service.operations ++ [operation] }
  return drafts.insert tag ⟨service, draft.ids ++ [id]⟩

/-- Adds the operation of a path entry, if it is one. -/
def addEndpoint (config : Config) (models : Table Model) (document : Value)
    (drafts : Table Draft) (e : Endpoint) : Logged (Table Draft) :=
  match e.key, e.definition with
  | .text key, .object definition =>
    if isMethod key then
      addOperation config models document drafts ⟨e.url, key, e.item⟩ definition
    else pure drafts
  | .text _, _ => pure drafts
  | _, _ => Logged.ofOutcome lacksOperation

/-- Adds the operations of path entries one after another. -/
def addEndpoints (config : Config) (models : Table Model) (document : Value)
    (drafts : Table Draft) : List Endpoint → Logged (Table Draft)
  | [] => pure drafts
  | e :: rest => do
    addEndpoints config models document (← addEndpoint config models document drafts e) rest

def describe (config : Config) (services : Table Service) (tag : Value) : Table Service :=
  match tag with
  | .object fields =>
    let description := Fields.get fields "description"
    if description.isSet then
      services.modify (Naming.tagName (Fields.get fields "name") config.defaultTag) fun s =>
        { s with description }
    else services
  | _ => services

def meansSuccess (r : Response) : Bool :=
  (isSuccess r.code).toOption.getD false

def successTypes (o : Operation) : List TypeExpr :=
  (o.responses.values.filter meansSuccess).map Response.type ++
    o.parameters.map Parameter.type

/-- The types of the responses of an operation that have a number and do not mean success. -/
def errorTypes (o : Operation) : List TypeExpr :=
  (o.responses.values.filter fun r => Text.isDigits r.code && !meansSuccess r).map Response.type

def dependenciesOf (models : Table Model) (types : List TypeExpr) : List String :=
  Dependencies.listing models none (types.map .type)

def withDependencies (models : Table Model) (s : Service) : Service :=
  { s with
    dependencies := dependenciesOf models (s.operations.flatMap successTypes)
    errorDependencies := dependenciesOf models (s.operations.flatMap errorTypes) }

def ofDocument (config : Config) (models : Table Model) (document : Value) :
    Logged (Table Service) := do
  let fields ← (document.asFields : Outcome Fields)
  let paths ← (((fields.get "paths").orElse (.object [])).asFields : Outcome Fields)
  let drafts ← addEndpoints config models document .empty (endpointsOf paths)
  let tags ← (((fields.get "tags").orElse (.list [])).elements : Outcome (List Value))
  let described := tags.foldl (describe config) (drafts.map Draft.service)
  return described.map (withDependencies models)

end ClientGen.Services
