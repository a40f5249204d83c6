import ClientGen.Client.Globals
import ClientGen.Client.Layout
import ClientGen.Json.Writer
import ClientGen.Model.Basic

/-!
# Files of models

The file of a model imports the models that it depends on and declares an interface, an
enumeration with its constants, or a name for another type. The file of an example holds the
example as a literal.
-/
namespace ClientGen.Client

def modelImports (directory : String) (imports : List Model) : String :=
  unlines (imports.map fun m => importLine m.className (directory ++ m.fileStem))

def optionalName (name : String) (required : Bool) : String :=
  if required then name else name ++ "?"

def propertyText (p : Property) : Outcome String := do
  return (← comment p.description 1) ++ optionalName p.key p.required ++ ": " ++ p.type.text ++
    ";\n"

/-- The parents in the first line of an interface. -/
def extendsText (parents : List String) : String :=
  if parents.isEmpty then "" else " extends " ++ ", ".intercalate parents

/-- The line of the keys that are not declared. -/
def additionalText (additional : Option TypeExpr) : String :=
  match additional with
  | some type => "  [key: string]: " ++ type.text ++ ";\n"
  | none => ""

/-- The constants of an enumeration, with a separator after all but the last. -/
def constantList (separator : String) (write : EnumConstant → String)
    (constants : List EnumConstant) : String :=
  String.join (constants.map fun c => write c ++ (if c.isLast then "" else separator))

def constantLiteral (c : EnumConstant) : String := "'" ++ c.value ++ "'"

def enumNamespace (className : String) (constants : List EnumConstant) : String :=
  "export namespace " ++ className ++ " \x7b\n" ++
    unlines (constants.map fun c =>
      "  export const " ++ c.name ++ ": " ++ className ++ " = " ++ constantLiteral c ++ ";") ++
    "  export function values(): " ++ className ++ "[] \x7b\n    return [\n" ++
    String.join (constants.map fun c =>
      "      " ++ c.name ++ (if c.isLast then "" else ",") ++ "\n") ++
    "    ];\n  \x7d\n\x7d\n"

def aliasText (className type : String) : String :=
  "export type " ++ className ++ " = " ++ type ++ ";\n"

def typeText (type : Option TypeExpr) : String :=
  (type.getD .missing).text

/-- The declaration of the class `className`, from the fields that its kind asks for. -/
def declarationOf (config : Config) (className : String) (p : Payload) : Outcome String :=
  match p.kind with
  | .object => do
    return "export interface " ++ className ++ extendsText p.parents ++ " \x7b\n" ++
      String.join (← p.properties.mapM propertyText) ++ additionalText p.additionalType ++ "\x7d\n"
  | .enum =>
    .ok (aliasText className (constantList " | " constantLiteral p.constants) ++
      if config.enumModule then enumNamespace className p.constants else "")
  | .array => .ok (aliasText className (typeText p.elementType))
  | .simple | .union => .ok (aliasText className (typeText p.aliasType))

def declaration (config : Config) (m : Model) : Outcome String :=
  declarationOf config m.className m.payload

/-- What is declared, by the body of the model. -/
theorem declaration_eq (config : Config) (m : Model) : declaration config m =
    match m.body with
    | .object parents properties additional => do
      return "export interface " ++ m.className ++ extendsText parents ++ " \x7b\n" ++
        String.join (← properties.mapM propertyText) ++ additionalText additional ++ "\x7d\n"
    | .enum constants =>
      .ok (aliasText m.className (constantList " | " constantLiteral constants) ++
        if config.enumModule then enumNamespace m.className constants else "")
    | .array type | .simple type | .union type => .ok (aliasText m.className type.text) := by
  unfold declaration Model.payload
  cases m.body <;> rfl

def modelFile (g : Globals) (imports : List Model) (m : Model) : Outcome String := do
  let description ← comment m.description 0
  return g.header ++ modelImports "./" imports ++ description ++ (← declaration g.config m)

/-- A value as a literal whose lines after the first are indented by `level`. -/
def literal (v : Value) (level : Nat) : Outcome String :=
  if Json.isWritable v then
    .ok (Text.replaceAll "\n" ("\n" ++ indentation level) (Json.renderIndented v))
  else unsuitableKind

def exampleFile (g : Globals) (m : Model) : Outcome String := do
  let sample ← literal m.sample 1
  return g.header ++ importLine m.className ("./" ++ m.fileStem) ++ "\n" ++
    commentBlock ("Example of " ++ m.className) 0 ++
    "export function get" ++ m.className ++ "Example(): " ++ m.className ++ " \x7b\n  return " ++
    sample ++ ";\n\x7d\n"

def modelIndexFile (g : Globals) (models : List Model) : String :=
  g.comment ++ unlines (models.map fun m => exportLine m.className ("./models/" ++ m.fileStem))

end ClientGen.Client
