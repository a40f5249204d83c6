import ClientGen.Failure
import ClientGen.Text.Case

/-!
# Names of the generated code

Names of a document are turned into identifiers, class names, file stems and constants. Only
ASCII letters, digits and the underscore make up an identifier. A name is gone through piece by
piece: the pieces of a text are its characters, and a list of texts, which a document may hold in
the place of a name, counts as a name with longer pieces. A piece is judged by its first character.
-/
namespace ClientGen.Naming

/-- Whether a character is an ASCII letter or digit. -/
def isAlnum (c : Char) : Bool :=
  ('a' ≤ c && c ≤ 'z') || ('A' ≤ c && c ≤ 'Z') || ('0' ≤ c && c ≤ '9')

/-- Whether a character may stand in an identifier. -/
def isWord (c : Char) : Bool :=
  isAlnum c || c == '_'

abbrev Piece := List Char

def pieces (s : String) : List Piece :=
  s.toList.map fun c => [c]

/-- The pieces of a value that stands in the place of a name. -/
def valuePieces (v : Value) : Outcome (List Piece) := do
  return (← v.textElements).map String.toList

/-- Whether the first character of a piece passes a test. -/
def startsWith (p : Char → Bool) : Piece → Bool
  | [] => false
  | c :: _ => p c

/-- Keeps the pieces that start with a character to keep, and puts a piece after a gap into upper
case; `gap` says whether the name starts after one. -/
def camelCase (keep : Char → Bool) (gap : Bool) : List Piece → List Char
  | [] => []
  | piece :: rest =>
    if startsWith keep piece then
      (if gap then Text.upperChars piece else piece) ++ camelCase keep false rest
    else camelCase keep true rest

/-- An identifier: letters and digits only, the first after each gap in upper case. -/
def identifierOf (name : List Piece) : String :=
  String.ofList (camelCase isAlnum false name)

def identifier (name : String) : String :=
  identifierOf (pieces name)

def escapeDigit (name : List Char) : List Char :=
  if startsWith Text.isDigit name then '_' :: name else name

/-- A class name: word characters only, the first of all and the first after each gap in upper
case, with an underscore before a leading digit. -/
def classNameOf (name : List Piece) : String :=
  String.ofList (escapeDigit (camelCase isWord true name))

def className (name : String) : String :=
  classNameOf (pieces name)

/-- Whether a piece stands between `a` and `z` in the order of texts, where `z` comes before all
longer texts that start with it. -/
def isLower : Piece → Bool
  | [] => false
  | [c] => 'a' ≤ c && c ≤ 'z'
  | c :: _ => 'a' ≤ c && c < 'z'

/-- The lower case form of a name, with a dash wherever a lower case letter is followed by
anything else. -/
def dashed (afterLower : Bool) : List Piece → List Char
  | [] => []
  | piece :: rest =>
    (if afterLower && !isLower piece then ['-'] else []) ++ Text.lowerChars piece ++
      dashed (isLower piece) rest

def fileStemOf (name : List Piece) : String :=
  String.ofList (dashed false name)

def fileStem (name : String) : String :=
  fileStemOf (pieces name)

/-- The key of a model in the model table: names that differ in case only are the same. -/
def key (name : String) : String :=
  Text.lower name

/-- The class name behind a reference: that of the text after its last slash. -/
def classOfRef (ref : String) : String :=
  className (String.ofList (Text.afterLast '/' ref.toList))

/-- The class name behind a value that stands in the place of a reference, if it is set. -/
def classOfRef? (ref : Value) : Outcome (Option String) :=
  if ref.isSet then do return some (classOfRef (← ref.asText)) else .ok none

/-- The upper case form of a text, with an underscore wherever a lower case letter is followed by
anything else. -/
def underscored (afterLower : Bool) : List Char → List Char
  | [] => []
  | c :: rest =>
    (if afterLower && !isLower [c] then ['_'] else []) ++ Text.upperChar c ++
      underscored (isLower [c]) rest

def mergeUnderscores : List Char → List Char
  | '_' :: '_' :: rest => mergeUnderscores ('_' :: rest)
  | c :: rest => c :: mergeUnderscores rest
  | [] => []

/-- Whether a constant needs an underscore before it: it is empty, or starts with a digit or a
blank. -/
def needsUnderscore : List Char → Bool
  | [] => true
  | c :: _ => Text.isDigit c || Text.isBlank c

def constantName (value : Value) : String :=
  let text := value.display.toList
  let name := underscored false text
  let guarded := if needsUnderscore text then '_' :: name else name
  String.ofList (mergeUnderscores (guarded.map fun c => if isWord c then c else '_'))

/-- The tag of operations without one, when the configuration gives none either. -/
def defaultTag : String := "Api"

/-- The name of a service, from the tag of its operations. A tag that is not set gives way to
`fallback`, and that to the default tag. -/
def tagName (tag : Value) (fallback : String) : String :=
  let chosen := if tag.isSet then tag.display else if fallback = "" then defaultTag else fallback
  Text.upperFirst (identifier chosen)

/-- Whether a character may start a bare property name. -/
def isBareStart (c : Char) : Bool :=
  (isWord c && !('0' ≤ c && c ≤ '9')) || c == '$'

/-- Whether a character may stand in a bare property name. -/
def isBare (c : Char) : Bool :=
  isWord c || c == '$'

/-- Whether a name can be used as a property name without quotes. One line feed at the end is
passed over. -/
def isBareName : List Char → Bool
  | [] => false
  | c :: rest =>
    isBareStart c && (rest.all isBare || (rest.getLast? == some '\n' && rest.dropLast.all isBare))

/-- A character inside a text between the quotes `quote`. -/
def escapeFor (quote c : Char) : List Char :=
  if c = '\\' || c = quote then ['\\', c] else [c]

/-- A text between quotes. -/
def literal (quote : Char) (s : String) : String :=
  String.ofList (quote :: s.toList.flatMap (escapeFor quote) ++ [quote])

/-- The name of a property in an interface, between double quotes when it has to be. -/
def propertyKey (name : String) : String :=
  if isBareName name.toList then name else literal '"' name

/-- The property name of a key, which has to be a text. -/
def propertyKeyOf : Scalar → Outcome String
  | .text name => .ok (propertyKey name)
  | _ => unsuitableKind

end ClientGen.Naming
