import ClientGen.Value.Show

/-!
# Writing JSON

A value as a JSON text on one line, or with one entry a line and an indentation of two blanks for
each level. Texts are written between double quotes, and only quotes, backslashes and control
characters are escaped.
-/
namespace ClientGen.Json

/-- A character as it stands inside a JSON text. -/
def escapedChar (c : Char) : List Char :=
  if c = '"' then ['\\', '"']
  else if c = '\\' then ['\\', '\\']
  else if c = '\n' then ['\\', 'n']
  else if c = '\r' then ['\\', 'r']
  else if c = '\t' then ['\\', 't']
  else if c = '\x08' then ['\\', 'b']
  else if c = '\x0c' then ['\\', 'f']
  else if c.toNat < 0x20 then '\\' :: 'u' :: Text.hexDigits 4 c.toNat
  else [c]

/-- A text between double quotes. -/
def quote (s : String) : String :=
  String.ofList ('"' :: s.toList.flatMap escapedChar ++ ['"'])

/-- A scalar; a day is written as a text. -/
def writeScalar : Scalar → String
  | .null => "null"
  | .bool true => "true"
  | .bool false => "false"
  | .int n => Text.intText n
  | .float x => x.text .json
  | .text s => quote s
  | .date d => quote d.text

/-- The key of an entry, which is always a text. -/
def writeKey : Scalar → String
  | .text s => quote s
  | .date d => quote d.text
  | s => "\"" ++ writeScalar s ++ "\""

structure Layout where
  /-- What stands between two parts. -/
  between : String
  /-- A line break and its indentation. -/
  lineBreak : String
  /-- What the next level adds to a line break. -/
  step : String

def Layout.deeper (l : Layout) : Layout :=
  { l with lineBreak := l.lineBreak ++ l.step }

/-- Everything on one line. -/
def Layout.compact : Layout := ⟨", ", "", ""⟩

/-- One part a line. -/
def Layout.indented : Layout := ⟨",", "\n", "  "⟩

/-- The written parts of a container, between its brackets. -/
def enclose (l : Layout) (opening closing : String) (parts : List String) : String :=
  if parts.isEmpty then opening ++ closing
  else
    let lineBreak := l.deeper.lineBreak
    opening ++ lineBreak ++ (l.between ++ lineBreak).intercalate parts ++ l.lineBreak ++ closing

mutual

def write (l : Layout) : Value → String
  | .scalar s => writeScalar s
  | .list items => enclose l "[" "]" (writeItems l.deeper items)
  | .object fields => enclose l "\x7b" "\x7d" (writeFields l.deeper fields)

def writeItems (l : Layout) : List Value → List String
  | [] => []
  | v :: rest => write l v :: writeItems l rest

/-- The entries of an object. -/
def writeFields (l : Layout) : List (Scalar × Value) → List String
  | [] => []
  | (k, v) :: rest => (writeKey k ++ ": " ++ write l v) :: writeFields l rest

end

mutual

/-- Whether every key in a value can be written: a day cannot. -/
def isWritable : Value → Bool
  | .scalar _ => true
  | .list items => areWritable items
  | .object fields => areFieldsWritable fields

def areWritable : List Value → Bool
  | [] => true
  | v :: rest => isWritable v && areWritable rest

/-- Whether the entries of an object can be written. -/
def areFieldsWritable : List (Scalar × Value) → Bool
  | [] => true
  | (.date _, _) :: _ => false
  | (_, v) :: rest => isWritable v && areFieldsWritable rest

end

def render (v : Value) : String :=
  write .compact v

def renderIndented (v : Value) : String :=
  write .indented v

end ClientGen.Json
