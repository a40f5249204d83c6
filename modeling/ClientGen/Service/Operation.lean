import ClientGen.Last
import ClientGen.Log
import ClientGen.Service.Documentation
import ClientGen.Service.Path
import ClientGen.Service.Result

/-!
# Operations

An operation is named by its id. Ids are made unique within a service: an id that is taken gets
the first number that makes it new. An operation without an id is named by its method and path.
-/
namespace ClientGen.Operation

def numbered (base : String) (n : Nat) : String :=
  base ++ "_" ++ Text.natText n

/-- The id for an operation: `base` itself if it is new, else `base` with the least number from
one on that makes it new. Among one number more than there are known ids one does. -/
def freshId (known : List String) (base : String) : String :=
  if base ∈ known then
    let numbers := (List.range (known.length + 1)).map (· + 1)
    numbered base ((numbers.find? fun n => decide (numbered base n ∉ known)).getD 0)
  else base

def baseId (given : Value) (method : String) (url : Scalar) : Outcome String :=
  if given = .null then
    match url with
    | .text path => .ok (Naming.identifier (method ++ path))
    | _ => unsuitableKind
  else do return Naming.identifierOf (← Naming.valuePieces given)

/-- How the messages about an id start. -/
def subject (method : String) (url : Scalar) : String :=
  "Operation '" ++ method ++ "' on '" ++ url.display ++ "' defines "

def missingIdMessage (method : String) (url : Scalar) (id : String) : String :=
  subject method url ++ "no operationId. Assuming '" ++ id ++ "'."

def duplicatedIdMessage (method : String) (url : Scalar) (given : Value) (id : String) : String :=
  subject method url ++ "a duplicated operationId: " ++ given.display ++ ". Assuming '" ++ id ++
    "'."

def uniqueId (known : List String) (given : Value) (method : String) (url : Scalar) :
    Logged String := do
  let base ← (baseId given method url : Outcome String)
  let id := freshId known base
  if given = .null then
    Logged.note .warning .operations (missingIdMessage method url id)
  else if base ∈ known then
    Logged.note .warning .operations (duplicatedIdMessage method url given id)
  return id

/-- The class of the object that holds `count` parameters, if there are enough of them. -/
def paramsClassFor (config : Config) (id : String) (count : Nat) : Option String :=
  if config.minParamsForContainer ≤ count then some (Text.upperFirst id ++ "Params") else none

/-- A text that the definition of an operation may have, without blanks at its ends. -/
def optionalText (v : Value) : Outcome String :=
  if v.isSet then do return Text.trim (← v.asText) else .ok ""

structure Place where
  url : Scalar
  method : String
  /-- The other entries of the path, some of which all its operations share. -/
  item : Fields

/-- The parameters as they are given: those of the operation, then those of its path. -/
def rawParameters (place : Place) (definition : Fields) : Outcome (List Value) := do
  let own ← ((definition.get "parameters").orElse (.list [])).elements
  let shared ← ((place.item.get "parameters").orElse (.list [])).elements
  return own ++ shared

def build (config : Config) (models : Table Model) (document : Value) (serviceClass : String)
    (place : Place) (definition : Fields) (id : String) : Outcome Operation := do
  let raw ← rawParameters place definition
  let paramsClass := paramsClassFor config id raw.length
  let inContainer := paramsClass.isSome
  let read ← raw.mapM fun v => Parameter.ofValue document v inContainer
  let sorted ← Parameter.sort config.sortParams read
  let parameters := markLast (fun p => { p with isLast := true }) sorted
  let pathExpression ← Path.expression parameters inContainer place.url
  let fields ← ((definition.get "responses").orElse (.object [])).asFields
  let responses ← ({} : Responses).addAll document fields
  let resultDescription ← responses.resultDescription
  let summary ← optionalText ((definition.get "summary").orElse (place.item.get "summary"))
  let details ← optionalText (definition.get "description")
  let description ←
    Documentation.build summary details parameters paramsClass resultDescription serviceClass
  return {
    name := if config.camelCase then Text.lowerFirst id else id
    method := Text.upper place.method
    path := place.url
    pathExpression, parameters, paramsClass, description, resultDescription
    responses := responses.table
    resultType := responses.resultType
    resultKind := ResultKind.classify models responses.resultType
    returnsHeaders := responses.returnsHeaders
    isMultipart := parameters.any (·.location == .text "formData") }

end ClientGen.Operation
