import ClientGen.Table
import ClientGen.TypeExpr

/-!
# Services

A service is the group of operations with the same tag. An operation is one method of one path,
with its parameters, the responses that carry content, and what it returns.
-/
namespace ClientGen

structure Parameter where
  name : Value := .text ""
  /-- Where the parameter is sent: `path`, `query`, `header`, `body` or `formData`. -/
  location : Value := .text ""
  identifier : String := ""
  /-- How the generated code reads the parameter. -/
  access : String := ""
  required : Bool := false
  type : TypeExpr := .scalar ""
  description : Value := .null
  collectionFormat : Value := .null
  isArray : Bool := false
  /-- Whether a form value has to be written as JSON. -/
  toJson : Bool := false
  isLast : Bool := false
  deriving DecidableEq, Repr

structure Response where
  code : String
  type : TypeExpr
  description : Value
  deriving DecidableEq, Repr

inductive ResultKind where
  | void
  | string
  | number
  | boolean
  | enum
  | object
  | primitiveArray
  | file
  | unknown
  deriving DecidableEq, Repr

structure Operation where
  name : String
  method : String
  path : Scalar
  /-- The path as a template that takes the parameters in. -/
  pathExpression : String
  parameters : List Parameter
  responses : Table Response
  resultType : TypeExpr
  resultDescription : Option String
  resultKind : ResultKind
  returnsHeaders : Bool
  isMultipart : Bool
  /-- The class of the object that holds the parameters, if there are enough of them. -/
  paramsClass : Option String
  description : String

structure Service where
  name : String
  className : String := ""
  fileStem : String := ""
  description : Value := .null
  operations : List Operation := []
  /-- The models of parameters and of responses that mean success. -/
  dependencies : List String := []
  /-- The models of other responses. -/
  errorDependencies : List String := []
  isLast : Bool := false

namespace ResultKind

def responseType : ResultKind → String
  | .file => "blob"
  | .void | .string | .number | .boolean | .enum => "text"
  | .object | .primitiveArray | .unknown => "json"

end ResultKind

def isSuccess (code : String) : Outcome Bool :=
  if Text.isDigits code then
    match Text.readInt? code with
    | some n => .ok (200 ≤ n && n < 300)
    | none => .error (.misuse .unreadable)
  else .ok false

end ClientGen
