import ClientGen.Model.Basic
import ClientGen.Reference.Expand
import ClientGen.Schema.Type
import ClientGen.Service.Basic

/-!
# Responses and results

The responses of an operation are read in order; those without a schema carry no content and are
passed over. The result of the operation is the type of its responses that mean success. The kind
of the result, which decides how a response is decoded, is found through the model table: a model
that is a name for another type counts as that type.
-/
namespace ClientGen

structure Responses where
  table : Table Response := .empty
  /-- The types of the responses that mean success. -/
  resultTypes : List TypeExpr := []
  /-- The descriptions of the responses that mean success. -/
  descriptions : List Value := []
  returnsHeaders : Bool := false

namespace Responses

def addContent (r : Responses) (code : String) (fields : Fields) : Outcome Responses := do
  let type ← typeAt ("#/responses/" ++ code ++ "/schema") (fields.get "schema")
  let description := fields.get "description"
  let table := r.table.insert code ⟨code, type, description⟩
  if ← isSuccess code then
    return {
      table
      resultTypes := r.resultTypes ++ [type]
      descriptions := if description.isSet then r.descriptions ++ [description] else r.descriptions
      returnsHeaders := r.returnsHeaders || (fields.get "headers").isSet }
  else return { r with table }

/-- Adds the response under a code, after a reference has been followed. -/
def add (document : Value) (r : Responses) (code : Scalar) (raw : Value) : Outcome Responses := do
  match ← Reference.follow document raw with
  | .object fields =>
    if Fields.get fields "schema" = .null then return r else r.addContent code.display fields
  | _ => return r

def addAll (document : Value) (r : Responses) : Fields → Outcome Responses
  | [] => .ok r
  | (code, raw) :: rest => do (← r.add document code raw).addAll document rest

/-- The type of the result: that of the only success, the union of several, or null. -/
def resultType (r : Responses) : TypeExpr :=
  match r.resultTypes with
  | [] => .nullType
  | [type] => type
  | types => .union types

def resultDescription (r : Responses) : Outcome (Option String) := do
  let texts ← r.descriptions.mapM fun
    | .text s => .ok s
    | _ => unsuitableKind
  let joined := " or ".intercalate texts
  return if joined = "" then none else some joined

end Responses

namespace ResultKind

def ofText? (text : String) : Option ResultKind :=
  if text = "null" ∨ text = "void" then some .void
  else if text = "string" then some .string
  else if text = "number" then some .number
  else if text = "boolean" then some .boolean
  else if text = "Blob" then some .file
  else none

/-- The type that a model stands for, if it is a name for a type that is no array. -/
def actualType (model : Option Model) (type : TypeExpr) : TypeExpr :=
  (model.bind Model.aliasType?).getD type

def showsArray (type : TypeExpr) : Bool :=
  Text.contains "Array<" type.text || Text.contains "[]" type.text

/-- The kind of a type that is not known by its text, by the model behind it. -/
def ofModel (model : Option Model) (type : TypeExpr) : ResultKind :=
  match model with
  | some m =>
    match m.kind with
    | .enum => .enum
    | .object => .object
    | .array | .simple | .union => .unknown
  | none => if showsArray type then .primitiveArray else .unknown

def classify (models : Table Model) (type : TypeExpr) : ResultKind :=
  let model := models.get? (Naming.key type.bareName)
  (ofText? (actualType model type).text).getD (ofModel model type)

end ResultKind

end ClientGen
