import ClientGen.Service.Basic
import ClientGen.Text.Split

/-!
# Documentation of operations

The documentation of an operation is its summary and its description, a line for each parameter
or a list of the parameters that are taken in one object, and a line for the result.
-/
namespace ClientGen.Documentation

def opening (summary description : String) : String :=
  if summary = "" then description
  else if description = "" then summary
  else summary ++ "\n\n" ++ description

/-- The text of a description; what is not set is empty. -/
def descriptionText (v : Value) : String :=
  if v.isSet then v.display else ""

def parameterLine (p : Parameter) : String :=
  Text.trimEnd ("\n@param " ++ p.name.display ++ " " ++ descriptionText p.description)

/-- The lines of an entry after its first; lines that are not empty are indented. -/
def entryLines : List String → String
  | [] => ""
  | line :: rest =>
    (if line = "" then "\n" else "  " ++ line ++ "\n") ++ entryLines rest

def parameterEntry (p : Parameter) : Outcome String := do
  let text ← if p.description.isSet then p.description.asText else .ok ""
  let body := match Text.lines (Text.trim text) with
    | [] => ""
    | first :: rest => first ++ "\n" ++ entryLines rest
  return "\n- \x60" ++ p.name.display ++ "\x60: " ++ body

/-- What leads to the list of parameters that are taken in one object. -/
def containerLine (serviceClass paramsClass : String) : String :=
  "\n@param params The \x60" ++ serviceClass ++ "." ++ paramsClass ++
    "\x60 containing the following parameters:\n"

def parametersText (parameters : List Parameter) (paramsClass : Option String)
    (serviceClass : String) : Outcome String :=
  match paramsClass with
  | none => .ok (String.join (parameters.map parameterLine))
  | some paramsClass => do
    return containerLine serviceClass paramsClass ++
      String.join (← parameters.mapM parameterEntry)

def resultLine (description : Option String) : String :=
  match description with
  | none | some "" => ""
  | some text => "\n@return " ++ text

/-- The documentation of an operation, without line breaks at its ends. -/
def build (summary description : String) (parameters : List Parameter)
    (paramsClass resultDescription : Option String) (serviceClass : String) : Outcome String := do
  let middle ← parametersText parameters paramsClass serviceClass
  return Text.trimLineBreaks (opening summary description ++ middle ++ resultLine resultDescription)

end ClientGen.Documentation
