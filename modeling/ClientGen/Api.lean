import ClientGen.Model.Link
import ClientGen.Reference.Check
import ClientGen.Service.Build
import ClientGen.TagFilter

/-!
# Compiled documents

A document is compiled into a model table and a service table: its version and its references are
checked, the tables are built and filtered, the examples are expanded when they are asked for, and
the last entry of each table is marked.
-/
namespace ClientGen

structure Api where
  models : Table Model
  services : Table Service
  rootUrl : String

namespace Api

/-- What the root URL starts with: the host after the first scheme. -/
def hostUrl (fields : Fields) : Outcome String := do
  let host := fields.get "host"
  if host.isSet then
    let schemes := fields.get "schemes"
    let opening ← if schemes.isSet then do pure ((← schemes.first).display ++ "://") else pure "//"
    match host with
    | .text host => return opening ++ host
    | _ => unsuitableKind
  else return ""

/-- The root URL of a document: its host and its base path. -/
def rootUrlOf (document : Value) : Outcome String := do
  let fields ← document.asFields
  let url ← hostUrl fields
  let basePath := fields.get "basePath"
  if basePath.isSet then
    match basePath with
    | .text path => return if path = "/" then url else url ++ path
    | _ => unsuitableKind
  else return url

/-- The table with its last value marked. -/
def markLastValue {α : Type} (mark : Bool → α → α) (t : Table α) : Table α :=
  let last := t.keys.getLast?
  t.mapEntries fun key value => mark (some key == last) value

/-- Expands the references in the example of a model, if it has one. -/
def expandSample (document : Value) (m : Model) : Outcome Model :=
  if m.sample = .null then .ok m
  else do return { m with sample := ← Reference.expand document m.sample }

def expandSamples (document : Value) (models : Table Model) : Outcome (Table Model) := do
  let expanded ← models.entries.mapM fun (key, m) => do return (key, ← expandSample document m)
  return Table.ofList expanded

def compile (config : Config) (document : Value) : Logged Api := do
  let fields ← (document.asFields : Outcome Fields)
  let version := fields.get "swagger"
  if version ≠ .text supportedVersion then
    Logged.ofOutcome (.error (.unsupportedVersion version))
  let _ ← (Reference.checkAll document : Outcome Nat)
  let models ← Models.ofDefinitions config ((fields.get "definitions").orElse (.object []))
  let services ← Services.ofDocument config models document
  Logged.note .debug .compilation
    ("Compiled " ++ Text.natText models.size ++ " models and " ++ Text.natText services.size ++
      " services")
  let filter := TagFilter.ofTags config.includeTags config.excludeTags config.ignoreUnusedModels
    config.defaultTag
  let (models, services) ← filter.apply models services
  let models ←
    if config.generateExamples then (expandSamples document models : Outcome (Table Model))
    else pure models
  let rootUrl ← (rootUrlOf document : Outcome String)
  return {
    models := markLastValue (fun b m => { m with isLast := b }) models
    services := markLastValue (fun b s => { s with isLast := b }) services
    rootUrl }

end Api

end ClientGen
