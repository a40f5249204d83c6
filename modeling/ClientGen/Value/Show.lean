import ClientGen.Decimal.Notation
import ClientGen.Text.Quoted
import ClientGen.Value.Basic

/-!
# Values as text

`Value.display` is the text of a value in a name, a message or a comment: a text is shown as it
is. Inside a list or an object, and in messages about a configuration, a value is shown by
`Value.inspect`, which puts texts between quotes.
-/
namespace ClientGen

/-- The decimal digits of `n`, filled up with zeros to `width`. -/
def padded (width n : Nat) : String :=
  let digits := Nat.toDigits 10 n
  String.ofList (List.replicate (width - digits.length) '0' ++ digits)

/-- A day as year, month and day. -/
def Date.text (d : Date) : String :=
  padded 4 d.year ++ "-" ++ padded 2 d.month ++ "-" ++ padded 2 d.day

/-- A day as it is shown inside a container. -/
def Date.inspect (d : Date) : String :=
  "datetime.date(" ++ Text.natText d.year ++ ", " ++ Text.natText d.month ++ ", " ++
    Text.natText d.day ++ ")"

def Scalar.display : Scalar → String
  | .null => "None"
  | .bool true => "True"
  | .bool false => "False"
  | .int n => Text.intText n
  | .float x => x.text .plain
  | .text s => s
  | .date d => d.text

/-- A scalar as it is shown inside a container. -/
def Scalar.inspect : Scalar → String
  | .text s => Text.quoted s
  | .date d => d.inspect
  | s => s.display

/-- Whether a scalar can be shown: an integer has no more digits than a numeral may have. -/
def Scalar.isTellable : Scalar → Bool
  | .int n => (Text.natText n.natAbs).length ≤ Text.digitLimit
  | _ => true

namespace Value

mutual

def isTellable : Value → Bool
  | .scalar s => s.isTellable
  | .list items => areTellable items
  | .object fields => areTellableFields fields

def areTellable : List Value → Bool
  | [] => true
  | v :: rest => isTellable v && areTellable rest

/-- Whether all entries of an object can be shown. -/
def areTellableFields : List (Scalar × Value) → Bool
  | [] => true
  | (k, v) :: rest => k.isTellable && isTellable v && areTellableFields rest

end

mutual

/-- A value as it is shown inside a container. -/
def inspect : Value → String
  | .scalar s => s.inspect
  | .list items => "[" ++ ", ".intercalate (inspectItems items) ++ "]"
  | .object fields => "\x7b" ++ ", ".intercalate (inspectFields fields) ++ "\x7d"

def inspectItems : List Value → List String
  | [] => []
  | v :: rest => inspect v :: inspectItems rest

/-- The entries of an object. -/
def inspectFields : List (Scalar × Value) → List String
  | [] => []
  | (k, v) :: rest => (k.inspect ++ ": " ++ inspect v) :: inspectFields rest

end

def display : Value → String
  | .scalar s => s.display
  | v => v.inspect

def kindName : Value → String
  | .scalar .null => "NoneType"
  | .scalar (.bool _) => "bool"
  | .scalar (.int _) => "int"
  | .scalar (.float _) => "float"
  | .scalar (.text _) => "str"
  | .scalar (.date _) => "date"
  | .list _ => "list"
  | .object _ => "dict"

end Value

end ClientGen
