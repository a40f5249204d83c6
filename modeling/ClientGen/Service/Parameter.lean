import ClientGen.Config
import ClientGen.Reference.Expand
import ClientGen.Schema.Type
import ClientGen.Service.Basic
import ClientGen.Value.Order

/-!
# Parameters

A parameter is read from its definition, after a reference has been followed. Parameters are
sorted by name as the configuration says, and the required ones always come first, so that no
required parameter stands after an optional one.
-/
namespace ClientGen.Parameter

/-- What stands before a parameter that is taken from the object of parameters. -/
def scope (inContainer : Bool) : String :=
  if inContainer then "params." else ""

/-- The value under a key; an empty text when there is none. -/
def textOr (fields : Fields) (key : String) : Value :=
  (fields.get? key).getD (.text "")

def typeOf (name : Value) (fields : Fields) : Outcome TypeExpr :=
  let path := "#/parameters/" ++ name.display
  let schema := fields.get "schema"
  if schema = .null then typeAt path (.object fields) else typeAt (path ++ "/schema") schema

/-- Whether a form value has to be written as JSON: it is neither one of several constants, nor
text, nor binary content. -/
def needsJson (location enum : Value) (type : TypeExpr) : Bool :=
  location == .text "formData" && !enum.isSet &&
    !(["Blob", "string"].contains type.nonNullName)

def ofValue (document raw : Value) (inContainer : Bool) : Outcome Parameter := do
  let fields ← (← Reference.follow document raw).asFields
  let location := textOr fields "in"
  let name := textOr fields "name"
  let type ← typeOf name fields
  let identifier := Naming.identifierOf (← Naming.valuePieces name)
  return {
    name, location, identifier, type
    access := scope inContainer ++ identifier
    required := fields.get "required" == .bool true || location == .text "path"
    description := fields.get "description"
    collectionFormat := fields.get "collectionFormat"
    isArray := fields.get "type" == .text "array"
    toJson := needsJson location (fields.get "enum") type }

inductive NameOrder where
  | ascending
  | descending
  deriving DecidableEq, Repr

/-- The order that a configuration asks for, if any. -/
def NameOrder.ofSetting? (setting : String) : Option NameOrder :=
  if setting = "asc" then some .ascending
  else if setting = "desc" then some .descending
  else none

def NameOrder.allows : NameOrder → Parameter → Parameter → Bool
  | .ascending, p, q => p.name.notAfter q.name
  | .descending, p, q => q.name.notAfter p.name

def sortByName (order : Option NameOrder) (parameters : List Parameter) :
    Outcome (List Parameter) :=
  match order with
  | none => .ok parameters
  | some order =>
    if Value.areOrdered (parameters.map Parameter.name) then
      .ok (parameters.mergeSort order.allows)
    else unsuitableKind

/-- The required parameters, then the optional ones. -/
def requiredFirst (parameters : List Parameter) : List Parameter :=
  parameters.filter (·.required) ++ parameters.filter (!·.required)

/-- The parameters in the order in which an operation takes them. -/
def sort (setting : String) (parameters : List Parameter) : Outcome (List Parameter) := do
  return requiredFirst (← sortByName (NameOrder.ofSetting? setting) parameters)

end ClientGen.Parameter
