import ClientGen.Schema.Parse
import ClientGen.TypeExpr

/-!
# The type of a schema

`Schema.type` gives the type that is printed for a schema. A reference becomes the class name of
its target; restricted strings and numbers become unions of literals; a tuple becomes the union
of the tuples of all lengths that it allows.
-/
namespace ClientGen.Schema

/-- A type with a text of its own, or the null type when the text is empty. -/
def typeOfText (text : String) : TypeExpr :=
  if text = "" then .nullType else .scalar text

def stringLiteral (v : Value) : String :=
  Naming.literal '\x27' v.display

/-- A value of a restricted number, as a literal; a whole number has no point. -/
def numberLiteral (v : Value) : String :=
  match v with
  | .scalar (.float x) =>
    match x.integer? with
    | some n => Text.intText n
    | none => v.display
  | v => v.display

def restricted (name : String) (literal : Value → String) (enum : Option (List Value))
    (const : Value) : TypeExpr :=
  match enum with
  | some (v :: rest) => .scalar (" | ".intercalate ((v :: rest).map literal))
  | _ => if const = .null then .scalar name else .scalar (literal const)

def primitiveType (type : PrimitiveType) (enum : Option (List Value)) (const : Value) : TypeExpr :=
  match type with
  | .string => restricted "string" stringLiteral enum const
  | .integer | .number => restricted "number" numberLiteral enum const
  | .boolean => .scalar "boolean"
  | .null => .nullType

/-- The first `count` items; a negative count leaves out that many at the end. -/
def firstItems {α : Type} (count : Int) (items : List α) : List α :=
  match count with
  | .ofNat n => items.take n
  | .negSucc n => items.take (items.length - (n + 1))

def tupleText (types : List TypeExpr) : String :=
  "[" ++ TypeExpr.joined ", " types ++ "]"

def tupleTexts (types : List TypeExpr) (least most : Int) : List String :=
  TypeExpr.distinct <| (List.range (most + 1 - least).toNat).map fun (i : Nat) =>
    tupleText (firstItems (least + i) types)

/-- An integer that bounds the length of a tuple. -/
def bound (v : Value) : Outcome Int :=
  match v.index? with
  | some n => .ok n
  | none => unsuitableKind

/-- The type of a tuple of bounded length, whose last type stands for all further places. -/
def tupleType (types : List TypeExpr) (minItems maxItems : Value) : Outcome TypeExpr := do
  let most ← bound maxItems
  let least ← if minItems.isSet then bound minItems else .ok 0
  return .compound (" | ".intercalate (tupleTexts types least most)) (firstItems most types)

/-- A member of an inline object, with its type. -/
def memberText (member : Member) (type : TypeExpr) : Outcome String := do
  let key ← Naming.propertyKeyOf member.name
  return key ++ (if member.required then ": " else "?: ") ++ type.text

/-- An inline object. -/
def recordText (members : List String) : String :=
  "\x7b" ++ ", ".intercalate members ++ "\x7d"

mutual

def type : Schema → Outcome TypeExpr
  | .null _ => .ok .nullType
  | .ref _ target => do return typeOfText ((← Naming.classOfRef? target).getD "")
  | .override _ text => .ok (typeOfText (Text.replaceAll "List<" "Array<" text))
  | .nullable _ inner => do return (← type inner).nullable
  | .union _ _ variants => do return .union (← types variants)
  | .intersection _ branches => do return .intersection (← types branches)
  | .primitive _ kind enum const => .ok (primitiveType kind enum const)
  | .file _ => .ok .blobType
  | .array _ items => do return (← type items).arrayOf
  | .tuple _ items minItems maxItems additional =>
    if maxItems.isSet then do
      let places ← types items
      let rest ← additionalType additional
      tupleType (places ++ [rest.getD .anyType]) minItems maxItems
    else .ok (.scalar ("Array<" ++ TypeExpr.anyType.text ++ ">"))
  | .record _ members _ additional => do
    let declared ← memberTypes members
    let rest ← additionalType additional
    let free := rest.toList.map fun t => ("[key: string]: " ++ t.text, t)
    let parts := declared ++ free
    return .compound (recordText (parts.map Prod.fst)) (parts.map Prod.snd)
  | .any _ _ => .ok .anyType

def types : List Schema → Outcome (List TypeExpr)
  | [] => .ok []
  | s :: rest => do
    let first ← type s
    let others ← types rest
    return first :: others

/-- The texts of the members of an inline object, each with its type. -/
def memberTypes : List (Member × Schema) → Outcome (List (String × TypeExpr))
  | [] => .ok []
  | (member, s) :: rest => do
    let t ← type s
    let text ← memberText member t
    let others ← memberTypes rest
    return (text, t) :: others

def additionalType : Option Schema → Outcome (Option TypeExpr)
  | none => .ok none
  | some s => do return some (← type s)

end

end ClientGen.Schema

namespace ClientGen

/-- The type that is printed for the schema at a place of a document. -/
def typeAt (path : String) (schema : Value) : Outcome TypeExpr := do
  (← Schema.parse path schema).type

end ClientGen
