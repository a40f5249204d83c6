import ClientGen.Value.Basic

/-!
# Schemas

A schema of a document as a tree, with one constructor for each kind of type it can describe. A
schema remembers where it stands in the document and how it is described there.
-/
namespace ClientGen

/-- Where a schema stands, and its description (null when there is none). -/
structure Origin where
  path : String
  description : Value := .null
  deriving DecidableEq, Repr

inductive PrimitiveType where
  | string
  | integer
  | number
  | boolean
  | null
  deriving DecidableEq, Repr

inductive UnionKeyword where
  | oneOf
  | anyOf
  | typeList
  deriving DecidableEq, Repr

structure Member where
  name : Scalar
  required : Bool
  deriving DecidableEq, Repr

inductive Schema where
  /-- A missing schema, or the type null given as such. -/
  | null (origin : Origin)
  /-- A reference to a definition. -/
  | ref (origin : Origin) (target : Value)
  /-- A type given word for word. -/
  | override (origin : Origin) (text : String)
  /-- A schema that allows null as well. -/
  | nullable (origin : Origin) (inner : Schema)
  | union (origin : Origin) (keyword : UnionKeyword) (variants : List Schema)
  | intersection (origin : Origin) (branches : List Schema)
  /-- A primitive type, restricted to the values of `enum` or to the one of `const`. -/
  | primitive (origin : Origin) (type : PrimitiveType) (enum : Option (List Value)) (const : Value)
  /-- Binary content. -/
  | file (origin : Origin)
  | array (origin : Origin) (items : Schema)
  /-- An array with a type for each place, and one for the places after those. -/
  | tuple (origin : Origin) (items : List Schema) (minItems maxItems : Value)
      (additional : Option Schema)
  /-- An object with declared members and a type for other keys. -/
  | record (origin : Origin) (members : List (Member × Schema)) (required : List Value)
      (additional : Option Schema)
  /-- A schema that says nothing of its type, or names an unknown one. -/
  | any (origin : Origin) (typeName : Option String)
  deriving Repr

def PrimitiveType.name : PrimitiveType → String
  | .string => "string"
  | .integer => "integer"
  | .number => "number"
  | .boolean => "boolean"
  | .null => "null"

def PrimitiveType.ofName? (name : String) : Option PrimitiveType :=
  [PrimitiveType.string, .integer, .number, .boolean, .null].find? (·.name == name)

def UnionKeyword.name : UnionKeyword → String
  | .oneOf => "oneOf"
  | .anyOf => "anyOf"
  | .typeList => "typeArray"

def Schema.origin : Schema → Origin
  | .null o | .ref o _ | .override o _ | .nullable o _ | .union o _ _ | .intersection o _
  | .primitive o _ _ _ | .file o | .array o _ | .tuple o _ _ _ _ | .record o _ _ _
  | .any o _ => o

end ClientGen
