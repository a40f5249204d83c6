import ClientGen.TypeExpr

/-!
# Models

A model is a definition of the document, ready to be written as a type: an interface, an
enumeration of constants, or a name for another type. Other models are referred to by class name.

A definition is read into a `Descriptor`, a flat record with a kind and next to it the fields of
every kind. The table of models holds `Model`s, which have a body with the fields of one kind only.
-/
namespace ClientGen

structure Property where
  name : String
  /-- The name as it is written in the interface, between quotes when it has to be. -/
  key : String
  required : Bool
  description : Value
  type : TypeExpr
  isLast : Bool := false
  deriving DecidableEq, Repr

structure EnumConstant where
  name : String
  /-- The value as it is written between single quotes. -/
  value : String
  isLast : Bool
  deriving DecidableEq, Repr

inductive ModelKind where
  | object
  | enum
  | array
  | simple
  | union
  deriving DecidableEq, Repr

inductive ModelBody where
  /-- An interface with its parents, its properties and the type of other keys. -/
  | object (parents : List String) (properties : List Property) (additional : Option TypeExpr)
  | enum (constants : List EnumConstant)
  /-- A name for an array type. -/
  | array (element : TypeExpr)
  /-- A name for any other type that is no union. -/
  | simple (type : TypeExpr)
  /-- A name for a union. -/
  | union (type : TypeExpr)
  deriving DecidableEq, Repr

/-- A kind of model, and next to it what models of any kind are written from. -/
structure Payload where
  kind : ModelKind := .object
  parents : List String := []
  properties : List Property := []
  constants : List EnumConstant := []
  /-- The type of an array. -/
  elementType : Option TypeExpr := none
  /-- The type that is named, when it is no array type. -/
  aliasType : Option TypeExpr := none
  /-- The type of the keys of an interface that are not declared. -/
  additionalType : Option TypeExpr := none
  deriving DecidableEq, Repr

/-- The type that is written where there is none. -/
def TypeExpr.missing : TypeExpr := .scalar "None"

/-- The fields that the kind is written from; a missing type is written as `None`. -/
def Payload.body (p : Payload) : ModelBody :=
  match p.kind with
  | .object => .object p.parents p.properties p.additionalType
  | .enum => .enum p.constants
  | .array => .array (p.elementType.getD .missing)
  | .simple => .simple (p.aliasType.getD .missing)
  | .union => .union (p.aliasType.getD .missing)

def ModelBody.payload : ModelBody → Payload
  | .object parents properties additional =>
    { kind := .object, parents, properties, additionalType := additional }
  | .enum constants => { kind := .enum, constants }
  | .array element => { kind := .array, elementType := some element }
  | .simple type => { kind := .simple, aliasType := some type }
  | .union type => { kind := .union, aliasType := some type }

@[simp] theorem ModelBody.body_payload (body : ModelBody) : body.payload.body = body := by
  cases body <;> rfl

structure Descriptor extends Payload where
  /-- The key of the definition. -/
  name : String
  className : String
  fileStem : String
  description : Value
  /-- The example that the definition gives, null when there is none. -/
  sample : Value
  /-- The stem of the file of the example. -/
  sampleFile : String
  deriving DecidableEq, Repr

structure Model where
  /-- The key of the definition. -/
  name : String
  className : String
  fileStem : String := ""
  description : Value := .null
  body : ModelBody := .object [] [] none
  subclasses : List String := []
  dependencies : List String := []
  /-- The example that the definition gives, null when there is none. -/
  sample : Value := .null
  /-- The stem of the file of the example. -/
  sampleFile : String := ""
  isLast : Bool := false
  deriving DecidableEq, Repr

/-- The model of a definition that has been read. -/
def Descriptor.model (d : Descriptor) : Model :=
  { name := d.name
    className := d.className
    fileStem := d.fileStem
    description := d.description
    body := d.body
    sample := d.sample
    sampleFile := d.sampleFile }

namespace Model

def payload (m : Model) : Payload := m.body.payload

def kind (m : Model) : ModelKind :=
  match m.body with
  | .object .. => .object
  | .enum _ => .enum
  | .array _ => .array
  | .simple _ => .simple
  | .union _ => .union

def parents (m : Model) : List String :=
  match m.body with
  | .object parents _ _ => parents
  | _ => []

def properties (m : Model) : List Property :=
  match m.body with
  | .object _ properties _ => properties
  | _ => []

/-- The type of the keys of an interface that are not declared, if there may be any. -/
def additionalType? (m : Model) : Option TypeExpr :=
  match m.body with
  | .object _ _ additional => additional
  | _ => none

def constants (m : Model) : List EnumConstant :=
  match m.body with
  | .enum constants => constants
  | _ => []

def elementType? (m : Model) : Option TypeExpr :=
  match m.body with
  | .array element => some element
  | _ => none

/-- The type that a model names, when it is no array type. -/
def aliasType? (m : Model) : Option TypeExpr :=
  match m.body with
  | .simple type | .union type => some type
  | _ => none

def withParents (m : Model) (parents : List String) : Model :=
  match m.body with
  | .object _ properties additional => { m with body := .object parents properties additional }
  | _ => m

end Model

end ClientGen
