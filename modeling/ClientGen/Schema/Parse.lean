import ClientGen.Failure
import ClientGen.Schema.Basic
import ClientGen.Value.Weight

/-!
# Reading schemas

`Schema.parse` turns a value of a document into a schema, without resolving references. Where
several keywords stand in one schema, the first of these that applies decides: a null type, a
reference, an overriding type, the null mark, then the type, and without a type `anyOf`, `oneOf`,
`allOf` and the keywords of objects. Each step goes into a lighter value, so the reading ends.
-/
namespace ClientGen.Schema

open Value

def hasVariants (schema : Fields) : Bool :=
  (schema.get "anyOf").isSet || (schema.get "oneOf").isSet

def variantKeyword (schema : Fields) : UnionKeyword :=
  if (schema.get "anyOf").isSet then .anyOf else .oneOf

def isNullMarked : Value → Bool
  | .object fields => (Fields.get fields "x-nullable").isSet
  | _ => false

def placeAt (path keyword : String) (index : Nat) : String :=
  path ++ "/" ++ keyword ++ "/" ++ Text.natText index

def memberPath (path : String) (name : Scalar) : String :=
  path ++ "/properties/" ++ name.display

/-- What takes the place of schemas in a value that is gone through but is no list: nothing in it
is a schema. -/
def missingEach (path keyword : String) (v : Value) : Outcome (List Schema) := do
  return (← v.elements).mapIdx fun i _ => .null ⟨placeAt path keyword i, .null⟩

/-- The values that a primitive type is restricted to. -/
def enumValues (schema : Fields) : Outcome (Option (List Value)) :=
  if (schema.get "enum").isSet then do return some (← (schema.get "enum").elements)
  else .ok none

def requiredNames (schema : Fields) : Value :=
  (schema.get "required").orElse (.list [])

def objectWeight : Value → Nat
  | .object fields => 1 + weightFields fields
  | _ => 0

theorem objectWeight_get_le (schema : Fields) (key : String) :
    objectWeight (schema.get key) ≤ weightFields schema := by
  cases h : schema.get key with
  | object fields =>
    have := @Fields.weight_get_lt schema key (by simp [h])
    simp only [h, weight] at this
    simp only [objectWeight]
    omega
  | scalar s => simp [objectWeight]
  | list items => simp [objectWeight]

theorem weight_lt_of_get {schema : Fields} {key : String} {v : Value}
    (h : schema.get key = v) (hv : v ≠ .null) : v.weight < weightFields schema := by
  subst h
  exact Fields.weight_get_lt hv

theorem weight_without_mark_lt {schema : Fields} (h : (schema.get "x-nullable").isSet = true) :
    weightFields (schema.without "x-nullable") < weightFields schema := by
  refine Fields.weight_without_lt (Fields.get?_of_get_ne_null fun e => ?_)
  rw [e] at h
  simp [isSet] at h

mutual

def parse (path : String) (v : Value) : Outcome Schema :=
  match v with
  | .object schema => parseFields path schema
  | _ => .ok (.null ⟨path, .null⟩)
termination_by (2 * v.weight, 0, 0)
decreasing_by
  simp only [Prod.lex_def, weight]
  omega

def parseFields (path : String) (schema : Fields) : Outcome Schema :=
  let origin : Origin := ⟨path, schema.get "description"⟩
  if schema.get? "type" = some .null then .ok (.null origin)
  else if schema.get "$ref" ≠ .null then .ok (.ref origin (schema.get "$ref"))
  else if schema.get "x-type" ≠ .null then .ok (.override origin (schema.get "x-type").display)
  else if _hmark : (schema.get "x-nullable").isSet then do
    return .nullable origin (← parseFields path (schema.without "x-nullable"))
  else
    match _htype : schema.get? "type" with
    | none => parseUntyped path origin schema
    | some (.list types) => do
      return .union origin .typeList
        (← parseTypes path schema types 0 fun t ht => by
          exact Fields.weight_replace_lt _htype (weight_mem_lt ht))
    | some (.object _) => unsuitableKind
    | some (.scalar (.text name)) =>
      if name = "array" then parseArray path origin schema
      else if name = "object" then parseRecord path origin schema
      else if name = "file" then .ok (.file origin)
      else match PrimitiveType.ofName? name with
        | some type => do
          return .primitive origin type (← enumValues schema) (schema.get "const")
        | none => .ok (.any origin (some name))
    | some (.scalar s) => .ok (.any origin (some s.display))
termination_by (2 * weightFields schema + 1, 3, 0)
decreasing_by
  · have := weight_without_mark_lt _hmark
    exact Prod.Lex.left _ _ (by omega)
  all_goals exact Prod.Lex.right _ (Prod.Lex.left _ _ (by omega))

def parseTypes (path : String) (schema : Fields) (types : List Value) (index : Nat)
    (lighter : ∀ t ∈ types, weightFields (schema.replace "type" t) < weightFields schema) :
    Outcome (List Schema) :=
  match types with
  | [] => .ok []
  | t :: rest => do
    have := lighter t (by simp)
    let first ← parseFields (placeAt path "type" index) (schema.replace "type" t)
    let others ← parseTypes path schema rest (index + 1) fun u hu =>
      lighter u (List.mem_cons_of_mem _ hu)
    return first :: others
termination_by (2 * weightFields schema + 1, 1, types.length)
decreasing_by
  · exact Prod.Lex.left _ _ (by omega)
  · exact Prod.Lex.right _ (Prod.Lex.right _ (by simp))

/-- Reads a schema without a type. -/
def parseUntyped (path : String) (origin : Origin) (schema : Fields) : Outcome Schema :=
  if hasVariants schema then do
    let keyword := variantKeyword schema
    match _hv : schema.get keyword.name with
    | .list variants => return .union origin keyword (← parseEach path keyword.name 0 variants)
    | v => return .union origin keyword (← missingEach path keyword.name v)
  else if (schema.get "allOf").isSet then
    match _hv : schema.get "allOf" with
    | .list branches => do return .intersection origin (← parseBranches path 0 branches)
    | v => do return .intersection origin (← missingEach path "allOf" v)
  else if schema.has "properties" || (schema.get "additionalProperties").isSet then
    parseRecord path origin schema
  else .ok (.any origin none)
termination_by (2 * weightFields schema + 1, 2, 0)
decreasing_by
  · have := weight_lt_of_get _hv (by simp)
    simp only [weight] at this
    exact Prod.Lex.left _ _ (by omega)
  · have := weight_lt_of_get _hv (by simp)
    simp only [weight] at this
    exact Prod.Lex.left _ _ (by omega)
  · exact Prod.Lex.right _ (Prod.Lex.left _ _ (by omega))

def parseEach (path keyword : String) (index : Nat) (vs : List Value) : Outcome (List Schema) :=
  match vs with
  | [] => .ok []
  | v :: rest => do
    let first ← parse (placeAt path keyword index) v
    let others ← parseEach path keyword (index + 1) rest
    return first :: others
termination_by (2 * weightItems vs + 1, 0, 0)
decreasing_by
  all_goals simp only [Prod.lex_def, weightItems]
  all_goals have := weight_pos v
  all_goals omega

/-- Reads the branches of a composition, leaving out those that are marked to allow null. -/
def parseBranches (path : String) (index : Nat) (vs : List Value) : Outcome (List Schema) :=
  match vs with
  | [] => .ok []
  | v :: rest =>
    if isNullMarked v then parseBranches path (index + 1) rest
    else do
      let first ← parse (placeAt path "allOf" index) v
      let others ← parseBranches path (index + 1) rest
      return first :: others
termination_by (2 * weightItems vs + 1, 0, 0)
decreasing_by
  all_goals simp only [Prod.lex_def, weightItems]
  all_goals have := weight_pos v
  all_goals omega

/-- Reads the schema of what is not declared one by one, which is an object if it is there. -/
def parseAdditional (path : String) (v : Value) : Outcome (Option Schema) :=
  match v with
  | .object fields => do return some (← parseFields path fields)
  | _ => .ok none
termination_by (2 * objectWeight v, 0, 0)
decreasing_by
  simp only [Prod.lex_def, objectWeight]
  omega

/-- Reads an array schema, which is a tuple when its items are given one by one. -/
def parseArray (path : String) (origin : Origin) (schema : Fields) : Outcome Schema :=
  match _hi : schema.get "items" with
  | .list items => do
    let items ← parseEach path "items" 0 items
    let additional ← parseAdditional (path ++ "/additionalItems") (schema.get "additionalItems")
    return .tuple origin items (schema.get "minItems") (schema.get "maxItems") additional
  | .scalar .null => .ok (.array origin (.any ⟨path ++ "/items", .null⟩ none))
  | .object fields => do return .array origin (← parseFields (path ++ "/items") fields)
  | .scalar _ => .ok (.array origin (.null ⟨path ++ "/items", .null⟩))
termination_by (2 * weightFields schema + 1, 1, 0)
decreasing_by
  all_goals simp only [Prod.lex_def]
  · have := weight_lt_of_get _hi (by simp)
    simp only [weight] at this
    omega
  · have := objectWeight_get_le schema "additionalItems"
    omega
  · have := weight_lt_of_get _hi (by simp)
    simp only [weight] at this
    omega

/-- Reads the members of an inline object. -/
def parseMembers (path : String) (required : Value) (fields : List (Scalar × Value)) :
    Outcome (List (Member × Schema)) :=
  match fields with
  | [] => .ok []
  | (name, v) :: rest => do
    let schema ← parse (memberPath path name) v
    let isRequired ← required.names name
    let others ← parseMembers path required rest
    return (⟨name, isRequired⟩, schema) :: others
termination_by (2 * weightFields fields + 1, 0, 0)
decreasing_by
  all_goals simp only [Prod.lex_def, weightFields]
  all_goals omega

/-- Reads the members of an object schema, if it declares any. -/
def parseProperties (path : String) (required properties : Value) :
    Outcome (List (Member × Schema)) :=
  match properties with
  | .object fields => parseMembers path required fields
  | v => if v.isSet then lacksOperation else .ok []
termination_by (2 * objectWeight properties, 0, 0)
decreasing_by
  simp only [Prod.lex_def, objectWeight]
  omega

def parseRecord (path : String) (origin : Origin) (schema : Fields) : Outcome Schema := do
  let required := requiredNames schema
  let members ← parseProperties path required (schema.get "properties")
  let extra := schema.get "additionalProperties"
  let declared ← parseAdditional (path ++ "/additionalProperties") extra
  let free := if extra.isSet then some (.any ⟨path ++ "/additionalProperties", .null⟩ none) else none
  return .record origin members (← required.elements) (declared.or free)
termination_by (2 * weightFields schema + 1, 1, 0)
decreasing_by
  all_goals simp only [Prod.lex_def]
  · have := objectWeight_get_le schema "properties"
    omega
  · have := objectWeight_get_le schema "additionalProperties"
    omega

end

end ClientGen.Schema
