import ClientGen.Config
import ClientGen.Storage.Disk
import ClientGen.Text.LineBreak

/-!
# Files of documents and configurations

A document or a configuration is read from a file as JSON or, if the name of the file says so, as
YAML. The parsers of the two formats are given. A document has to be a mapping; so has a
configuration, but an empty YAML file is a configuration that sets nothing.
-/
namespace ClientGen

inductive Format where
  | json
  | yaml
  deriving DecidableEq, Repr

def Format.ofPath (path : FilePath) : Format :=
  if path.isYaml then .yaml else .json

/-- The parsers of the formats: each reads a text as a value, or fails. -/
structure Parsers where
  json : String → Outcome Value
  yaml : String → Outcome Value

namespace Parsers

def read (parsers : Parsers) : Format → String → Outcome Value
  | .json => parsers.json
  | .yaml => parsers.yaml

/-- Reads the value that a file holds. Its lines end with line feeds for the parser. -/
def readValue (parsers : Parsers) (d : Disk) (path : FilePath) : Outcome Value :=
  if path.isPossible then
    match d.text? path with
    | some text =>
      parsers.read (Format.ofPath path) (String.ofList (Text.unifyLineBreaks text.toList))
    | none => .error .storage
  else .error (.misuse .unreadable)

def readDocument (parsers : Parsers) (d : Disk) (path : FilePath) : Outcome Value :=
  match parsers.readValue d path with
  | .ok (.object fields) => .ok (.object fields)
  | .ok _ => .error (.documentNotAMapping path.text)
  | .error (.malformedText _) => .error (.unparsableDocument path.text)
  | .error e => .error e

def readConfig (parsers : Parsers) (d : Disk) (path : FilePath) : Outcome Config := do
  let v ← parsers.readValue d path
  Config.ofValue (if Format.ofPath path = .yaml ∧ ¬v.isSet then .object [] else v)

end Parsers

end ClientGen
