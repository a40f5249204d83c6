import ClientGen.Config
import ClientGen.Last
import ClientGen.Model.Basic
import ClientGen.Schema.Type

/-!
# From a definition to a model

A definition becomes one kind of model. A composition is an interface when it has parents
or properties, an enumeration when it lists values, and else a name for text. Without `allOf` the
type of the definition decides. Properties are sorted by name and the last one is marked.
-/
namespace ClientGen.Model

def definitionPath (name : String) : String := "#/definitions/" ++ name

def descriptionOf : Value → Value
  | .object fields => Fields.get fields "description"
  | _ => .null

def property (path : String) (required : Value) (name : Scalar) (v : Value) :
    Outcome Property := do
  let key ← Naming.propertyKeyOf name
  let isRequired ← required.names name
  let type ← typeAt (Schema.memberPath path name) v
  return { name := name.display, key, required := isRequired, description := descriptionOf v, type }

/-- The properties of the definition at `path`, sorted by name. -/
def propertiesOf (path : String) (required : Value) (fields : Fields) :
    Outcome (List Property) := do
  let properties ← fields.mapM fun (name, v) => property path required name v
  let sorted := properties.mergeSort fun p q => decide (p.name ≤ q.name)
  return markLast (fun p => { p with isLast := true }) sorted

/-- The type of the keys that are not declared, if there may be any. -/
def additionalTypeOf (path : String) (schema : Fields) : Outcome (Option TypeExpr) :=
  match schema.get "additionalProperties" with
  | .object fields => do return some (← typeAt (path ++ "/additionalProperties") (.object fields))
  | v => .ok (if v.isSet then some .anyType else none)

/-- The entries that a value stands for: those of an object, or the pairs that it is made of. -/
def entriesOf (v : Value) : Outcome (List (Scalar × Value)) :=
  match v with
  | .object fields => .ok fields
  | v => do (← v.elements).mapM fun pair => do
    match ← pair.elements with
    | [.scalar key, value] => .ok (key, value)
    | [_, _] => unsuitableKind
    | _ => .error (.misuse .unreadable)

structure Composition where
  parents : List String := []
  properties : Fields := []
  required : List Value := []
  additional : Option TypeExpr := none

/-- Adds what a branch that is no reference says: later properties take the place of earlier ones,
and the first type of other keys stays. -/
def Composition.addBranch (c : Composition) (path : String) (branch : Fields) :
    Outcome Composition := do
  let entries ← entriesOf ((branch.get "properties").orElse (.object []))
  let required ← ((branch.get "required").orElse (.list [])).elements
  let additional ← match c.additional with
    | some type => pure (some type)
    | none => additionalTypeOf path branch
  return { c with
    properties := entries.foldl (fun fields (k, v) => fields.insert k v) c.properties
    required := c.required ++ required
    additional }

/-- Adds a branch, which is a parent when it is a reference. -/
def Composition.add (c : Composition) (path : String) (branch : Value) : Outcome Composition :=
  match branch with
  | .object fields => do
    match ← Naming.classOfRef? (Fields.get fields "$ref") with
    | some parent =>
      return if parent = "" then c else { c with parents := c.parents ++ [parent] }
    | none => c.addBranch path fields
  | _ => .ok c

def Composition.addAll (c : Composition) (path : String) (index : Nat) :
    List Value → Outcome Composition
  | [] => .ok c
  | branch :: rest => do
    let c ← c.add (Schema.placeAt path "allOf" index) branch
    c.addAll path (index + 1) rest

/-- A value of an enumeration, as it is written between single quotes. -/
def constantText (v : Value) : String :=
  Text.replaceAll "'" "\\'" v.display

def constantsOf (values : List Value) : List EnumConstant :=
  markLast (fun c => { c with isLast := true })
    (values.map fun v => ⟨Naming.constantName v, constantText v, false⟩)

/-- Classifies a composition: an interface, an enumeration, or a name for text. -/
def composition (path : String) (schema : Fields) : Outcome Payload := do
  let branches ← (schema.get "allOf").elements
  let c ← ({} : Composition).addAll path 0 branches
  let values := (schema.get "enum").orElse (.list [])
  if !c.parents.isEmpty || (!c.properties.isEmpty && !values.isSet) then
    return {
      kind := .object
      parents := c.parents
      properties := ← propertiesOf path (.list c.required) c.properties
      additionalType := c.additional }
  else if values.isSet then
    return { kind := .enum, constants := constantsOf (← values.elements) }
  else return { kind := .simple, aliasType := some (.scalar "string") }

def variantTypes (path keyword : String) (index : Nat) : List Value → Outcome (List TypeExpr)
  | [] => .ok []
  | v :: rest => do
    let first ← typeAt (Schema.placeAt path keyword index) v
    let others ← variantTypes path keyword (index + 1) rest
    return first :: others

def variantSeparator : String := " |\n  "

/-- Reads the kind of a definition, and what models of this kind are written from. -/
def payloadOf (path : String) (schema : Fields) : Outcome Payload := do
  let type := schema.get? "type"
  if (schema.get "allOf").isSet then composition path schema
  else if type = some (.text "array") then
    return { kind := .array, elementType := some (← typeAt path (.object schema)) }
  else if type = none ∧ Schema.hasVariants schema then
    let keyword := (Schema.variantKeyword schema).name
    let variants ← variantTypes path keyword 0 (← (schema.get keyword).elements)
    return { kind := .union, aliasType := some (.combine variantSeparator variants) }
  else if type = none ∨ type = some (.text "object") then
    let fields ← ((schema.get "properties").orElse (.object [])).asFields
    return {
      kind := .object
      properties := ← propertiesOf path (Schema.requiredNames schema) fields
      additionalType := ← additionalTypeOf path schema }
  else
    return { kind := .simple, aliasType := some (← typeAt path (.object schema)) }

def bodyOf (path : String) (schema : Fields) : Outcome ModelBody := do
  return (← payloadOf path schema).body

/-- Reads a definition; its key has to be a text. -/
def descriptorOf (config : Config) (name : Scalar) (schema : Fields) : Outcome Descriptor :=
  match name with
  | .text name => do
    let className := Naming.className name
    let stem := Naming.fileStem className
    let payload ← payloadOf (definitionPath name) schema
    return {
      payload with
      name, className
      fileStem := stem ++ config.modelFileSuffix
      description := schema.get "description"
      sample := schema.get "example"
      sampleFile := stem ++ config.exampleFileSuffix }
  | _ => unsuitableKind

def ofDefinition (config : Config) (name : Scalar) (schema : Fields) : Outcome Model := do
  return (← descriptorOf config name schema).model

end ClientGen.Model
