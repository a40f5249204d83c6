import ClientGen.Text.Split
import ClientGen.Value.Show

/-!
# Failures

Why a compilation stops. The failures that are reported to the user have a message; the others
are uses of a value that its kind does not allow, faults in the text of a configuration file, and
refusals of the file system.
-/
namespace ClientGen

def supportedVersion : String := "2.0"

/-- How a value was used in a way that its kind does not allow. -/
inductive Misuse where
  /-- A value was asked for something that only values of another kind can do. -/
  | lacksOperation
  /-- A value was put where values of its kind cannot stand. -/
  | unsuitableKind
  /-- An entry was taken that is not there. -/
  | missingEntry
  /-- A text was read that is no numeral, or a sequence taken for a pair that is none. -/
  | unreadable
  /-- A number was turned into an integer that has no integer part. -/
  | outOfRange
  deriving DecidableEq, Repr

inductive ReferenceFault where
  | notLocal
  | missing
  | circular
  deriving DecidableEq, Repr

inductive SettingFault where
  | notAMapping (found : Value)
  | null (key : String)
  | notBoolean (key : String) (found : Value)
  | notInteger (key : String) (found : Value)
  | notText (key : String) (found : Value)
  deriving DecidableEq, Repr

/-- Where the text of a JSON or YAML file stops making sense. -/
inductive TextFault where
  /-- The text is no JSON. -/
  | json
  /-- A character that no YAML text may hold. -/
  | yamlCharacter
  /-- Characters that make up no YAML token. -/
  | yamlToken
  /-- YAML tokens in an order that makes up no node. -/
  | yamlStructure
  /-- An alias without its anchor, or more than one YAML document. -/
  | yamlComposition
  /-- A YAML node that stands for no value. -/
  | yamlValue
  deriving DecidableEq, Repr

inductive Failure where
  | unsupportedVersion (found : Value)
  | reference (ref : String) (fault : ReferenceFault)
  | unknownParent (model parent : String)
  | unparsableDocument (path : String)
  | documentNotAMapping (path : String)
  | setting (fault : SettingFault)
  | malformedText (fault : TextFault)
  | misuse (fault : Misuse)
  /-- A template uses a name that stands for nothing. -/
  | unknownName (name : String)
  /-- The file system refused an access. -/
  | storage
  deriving DecidableEq, Repr

def SettingFault.message : SettingFault → String
  | .notAMapping found => "Configuration must be a mapping. Currently " ++ found.kindName
  | .null key => "Configuration '" ++ key ++ "' cannot be null"
  | .notBoolean key found =>
    "Configuration '" ++ key ++ "' must be a boolean. Currently " ++ found.inspect
  | .notInteger key found =>
    "Configuration '" ++ key ++ "' must be an integer. Currently " ++ found.inspect
  | .notText key found =>
    "Configuration '" ++ key ++ "' must be a string. Currently " ++ found.inspect

def ReferenceFault.message (ref : String) : ReferenceFault → String
  | .notLocal => "Resolved references must start with #/. Current: " ++ ref
  | .missing => "Unresolved reference: " ++ ref
  | .circular => "Circular reference: " ++ ref

def Failure.message? : Failure → Option String
  | .unsupportedVersion found =>
    some ("Invalid swagger specification. Must be a " ++ supportedVersion ++ ". Currently " ++
      found.display)
  | .reference ref fault => some (fault.message ref)
  | .unknownParent model parent =>
    some ("Model '" ++ model ++ "' extends '" ++ parent ++ "', which is not a known model")
  | .unparsableDocument path => some (path ++ ": cannot parse document")
  | .documentNotAMapping path => some (path ++ ": the document must be a mapping")
  | .setting fault => some fault.message
  | .malformedText _ | .misuse _ | .unknownName _ | .storage => none

/-- A value, or the failure that stands in its way. -/
abbrev Outcome (α : Type) := Except Failure α

/-- The failure of a value that is asked for what it cannot do. -/
def lacksOperation {α : Type} : Outcome α := .error (.misuse .lacksOperation)

def unsuitableKind {α : Type} : Outcome α := .error (.misuse .unsuitableKind)

namespace Value

def asFields : Value → Outcome Fields
  | .object fields => .ok fields
  | _ => lacksOperation

def asText : Value → Outcome String
  | .text s => .ok s
  | _ => lacksOperation

/-- What a value holds when it is gone through: the items of a list, the characters of a text,
the keys of an object. -/
def elements : Value → Outcome (List Value)
  | .list items => .ok items
  | .text s => .ok (s.toList.map fun c => .text (String.ofList [c]))
  | .object fields => .ok (fields.map fun (key, _) => .scalar key)
  | .scalar _ => unsuitableKind

/-- What stands at the place zero of a value: the first item of a list, the first character of a
text, the value under the key zero of an object. -/
def first (v : Value) : Outcome Value :=
  match v with
  | .object fields =>
    match fields.find? fun (k, _) => Fields.sameKey k (.int 0) with
    | some (_, value) => .ok value
    | none => .error (.misuse .missingEntry)
  | v => do
    match ← v.elements with
    | value :: _ => return value
    | [] => .error (.misuse .missingEntry)

/-- What a value holds, each part being a text. -/
def textElements (v : Value) : Outcome (List String) := do
  (← v.elements).mapM fun
    | .text s => .ok s
    | _ => unsuitableKind

/-- The value itself when it is set, or what stands in for it. -/
def orElse (v fallback : Value) : Value :=
  if v.isSet then v else fallback

/-- Whether a value names a key: an item of a list, a part of a text, a key of an object. -/
def names (v : Value) (key : Scalar) : Outcome Bool :=
  match v with
  | .list items => .ok (items.any fun
    | .scalar s => Fields.sameKey s key
    | _ => false)
  | .object fields => .ok (fields.any fun (k, _) => Fields.sameKey k key)
  | .text s =>
    match key with
    | .text part => .ok (Text.contains part s)
    | _ => unsuitableKind
  | .scalar _ => unsuitableKind

end Value

end ClientGen
