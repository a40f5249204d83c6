import ClientGen.Decimal.Notation
import ClientGen.Failure
import ClientGen.Text.Numeral

/-!
# Plain scalars

A YAML scalar without quotes stands for null, a truth value, a number or a day if it is spelled
like one, and for itself otherwise. Integers are decimal, octal after a zero, binary after `0b`,
hexadecimal after `0x`, or sexagesimal with colons; a number with a fraction has a point, and is
sexagesimal, too, or has a power with a sign. Underscores may stand between digits and say nothing.
-/
namespace ClientGen.Yaml

def nullWords : List String := ["", "~", "null", "Null", "NULL"]

def trueWords : List String :=
  ["yes", "Yes", "YES", "true", "True", "TRUE", "on", "On", "ON"]

def falseWords : List String :=
  ["no", "No", "NO", "false", "False", "FALSE", "off", "Off", "OFF"]

/-- The spellings of infinity, after the sign. -/
def infinityWords : List String := [".inf", ".Inf", ".INF"]

/-- The spellings of the value that is no number. -/
def nanWords : List String := [".nan", ".NaN", ".NAN"]

/-- The plain key whose value is spread over the mapping that it stands in. -/
def mergeKey : String := "<<"

/-- The plain scalar that stands for nothing but itself, and that only as a key. -/
def equalsKey : String := "="

def isDigit (c : Char) : Bool := '0' ≤ c && c ≤ '9'

def digitValue (c : Char) : Nat :=
  if isDigit c then c.toNat - '0'.toNat
  else if 'a' ≤ c && c ≤ 'f' then c.toNat - 'a'.toNat + 10
  else if 'A' ≤ c && c ≤ 'F' then c.toNat - 'A'.toNat + 10
  else 16

/-- Whether a text is made of digits of a base and of underscores, and not empty. -/
def isNumeral (base : Nat) (s : List Char) : Bool :=
  !s.isEmpty && s.all fun c => c == '_' || digitValue c < base

/-- The number that digits stand for; there is none if there are underscores only, or more decimal
digits than a numeral may have. -/
def numeralValue (base : Nat) (s : List Char) : Outcome Nat :=
  let digits := s.filter (· != '_')
  if digits.isEmpty || (base = 10 && digits.length > Text.digitLimit) then
    .error (.misuse .unreadable)
  else .ok (digits.foldl (fun acc c => acc * base + digitValue c) 0)

/-- Whether a text is a decimal numeral that starts with a digit. -/
def isDecimal (s : List Char) : Bool :=
  isNumeral 10 s && s.head? != some '_'

/-- Whether a text counts sixtieths: one digit, or two of which the first is below six. -/
def isSixtieths : List Char → Bool
  | [c] => isDigit c
  | [c, d] => isDigit c && c < '6' && isDigit d
  | _ => false

/-- The natural number that a text spells, if it is spelled like one. -/
def natural? (s : List Char) : Option (Outcome Nat) :=
  match s with
  | ['0'] => some (.ok 0)
  | '0' :: 'b' :: digits => if isNumeral 2 digits then some (numeralValue 2 digits) else none
  | '0' :: 'x' :: digits => if isNumeral 16 digits then some (numeralValue 16 digits) else none
  | '0' :: digits => if isNumeral 8 digits then some (numeralValue 8 ('0' :: digits)) else none
  | s =>
    match Text.splitOn ':' s with
    | [digits] => if isDecimal digits then some (numeralValue 10 digits) else none
    | digits :: sixtieths =>
      if isDecimal digits && sixtieths.all isSixtieths then
        some do
          let parts ← (digits :: sixtieths).mapM (numeralValue 10)
          return parts.foldl (fun acc n => acc * 60 + n) 0
      else none
    | [] => none

/-- The sign of a numeral, and what follows it. -/
def splitSign : List Char → Bool × List Char
  | '-' :: rest => (true, rest)
  | '+' :: rest => (false, rest)
  | s => (false, s)

/-- The integer that a text spells, if it is spelled like one. -/
def integer? (s : List Char) : Option (Outcome Int) :=
  let (negative, digits) := splitSign s
  (natural? digits).map fun value => value.map fun n => if negative then -(n : Int) else n

/-- The power of ten after a fraction, if it is spelled like one; no text is no power. -/
def exponent? : List Char → Option Int
  | [] => some 0
  | e :: sign :: digits =>
    if (e == 'e' || e == 'E') && (sign == '-' || sign == '+') && !digits.isEmpty &&
        digits.all isDigit then
      let n := digits.foldl (fun acc c => acc * 10 + digitValue c) 0
      some (if sign == '-' then -(n : Int) else n)
    else none
  | _ => none

/-- The digits of a numeral, without the underscores. -/
def digitsOf (s : List Char) : List Char :=
  s.filter isDigit

/-- The number whose sixtieths are given from the greatest place to the least. They are weighed and
added one after another, from the last to the first. -/
def sexagesimal (sixtieths : List Decimal.Binary64) : Decimal.Binary64 :=
  let zero := Decimal.Binary64.ofFraction false 0 1
  let addNext := fun (n : Decimal.Binary64) (total, weight) =>
    (Decimal.Binary64.add total (n.mul (.ofFraction false weight 1)), weight * 60)
  (sixtieths.foldr addNext (zero, 1)).1

/-- The number that a text before the point and a text behind it spell in sixtieths. -/
def sexagesimal? (whole part : List Char) : Option Decimal.Binary64 := do
  let places := (Text.splitOn ':' whole).reverse
  match places with
  | last :: middle :: above =>
    let middles := (middle :: above).dropLast
    let greatest ← places.getLast?
    if isDecimal greatest && (last :: middles).all isSixtieths &&
        part.all fun c => c == '_' || isDigit c then
      let wholes := (middle :: above).reverse.map fun s => .ofDigits false (digitsOf s) [] 0
      return sexagesimal (wholes ++ [.ofDigits false (digitsOf last) (digitsOf part) 0])
    else none
  | _ => none

/-- The number with a fraction that a text spells, if it is spelled like one. -/
def fraction? (s : List Char) : Option Decimal.Binary64 := do
  let (negative, body) := splitSign s
  let isPart (c : Char) := c == '_' || isDigit c
  let whole := body.takeWhile (· != '.')
  let rest := (body.dropWhile (· != '.')).drop 1
  if body.length = whole.length then none
  else if ':' ∈ whole then do
    let x ← sexagesimal? whole rest
    return if negative then x.negate else x
  else
    let part := rest.takeWhile isPart
    let power ← exponent? (rest.dropWhile isPart)
    let signed := body.length < s.length
    if (if whole.isEmpty then !signed && isDecimal part else isDecimal whole) then
      return .ofDigits negative (digitsOf whole) (digitsOf part) power
    else none

def daysIn (year month : Nat) : Nat :=
  if month = 2 then
    if year % 4 = 0 && (year % 100 != 0 || year % 400 = 0) then 29 else 28
  else if month = 4 || month = 6 || month = 9 || month = 11 then 30
  else 31

/-- The day that a text spells, if it is spelled like one. -/
def date? (s : List Char) : Option (Outcome Date) :=
  match s with
  | [y₁, y₂, y₃, y₄, '-', m₁, m₂, '-', d₁, d₂] =>
    if [y₁, y₂, y₃, y₄, m₁, m₂, d₁, d₂].all isDigit then
      let number := List.foldl (fun acc c => acc * 10 + digitValue c) 0
      let date : Date := ⟨number [y₁, y₂, y₃, y₄], number [m₁, m₂], number [d₁, d₂]⟩
      if 1 ≤ date.year && 1 ≤ date.month && date.month ≤ 12 && 1 ≤ date.day &&
          date.day ≤ daysIn date.year date.month then some (.ok date)
      else some (.error (.misuse .unreadable))
    else none
  | _ => none

def scalarOf (s : String) : Outcome Scalar :=
  let chars := s.toList
  let (negative, unsigned) := splitSign chars
  if s ∈ nullWords then .ok .null
  else if s ∈ trueWords then .ok (.bool true)
  else if s ∈ falseWords then .ok (.bool false)
  else if s ∈ nanWords then .ok (.float .nan)
  else if String.ofList unsigned ∈ infinityWords then .ok (.float (.infinite negative))
  else if s == mergeKey || s == equalsKey then .error (.malformedText .yamlValue)
  else match integer? chars with
    | some value => value.map .int
    | none =>
      match fraction? chars with
      | some x => .ok (.float x)
      | none =>
        match date? chars with
        | some value => value.map .date
        | none => .ok (.text s)

end ClientGen.Yaml
