import ClientGen.Decimal.Notation
import ClientGen.Failure
import ClientGen.Text.Numeral

/-!
# Reading JSON

A JSON text is read as one value. A numeral with a fraction or an exponent is a binary64 number,
any other an integer; `NaN` and the two infinities are numbers as well. JSON itself sets no limit to
the digits of an integer: the limit is a parameter of the reader, and `parse` reads as many digits
as any numeral may have. A key that is written twice in an object keeps its first place and its last
value. Of several faults the first one counts.
-/
namespace ClientGen.Json

def refused {α : Type} : Outcome α := .error (.malformedText .json)

/-- What has been read; if there is nothing, the text is no JSON. -/
def orRefused {α : Type} : Option α → Outcome α
  | some a => .ok a
  | none => refused

def isBlank (c : Char) : Bool :=
  c == ' ' || c == '\t' || c == '\n' || c == '\r'

/-- The text from its first character that is not blank. -/
def skipBlanks (s : List Char) : List Char :=
  s.dropWhile isBlank

def hexValue? (c : Char) : Option Nat :=
  let n := c.toNat
  if 0x30 ≤ n && n ≤ 0x39 then some (n - 0x30)
  else if 0x41 ≤ n && n ≤ 0x46 then some (n - 0x37)
  else if 0x61 ≤ n && n ≤ 0x66 then some (n - 0x57)
  else none

/-- The number that four hexadecimal digits stand for. -/
def hexNumber? (a b c d : Char) : Option Nat := do
  return (((← hexValue? a) * 16 + (← hexValue? b)) * 16 + (← hexValue? c)) * 16 + (← hexValue? d)

/-- The character that a backslash and one more character stand for. -/
def escape? (c : Char) : Option Char :=
  match c with
  | '"' => some '"'
  | '\\' => some '\\'
  | '/' => some '/'
  | 'b' => some '\x08'
  | 'f' => some '\x0c'
  | 'n' => some '\n'
  | 'r' => some '\r'
  | 't' => some '\t'
  | _ => none

/-- Whether a number is the first half of a pair of escapes for one character. -/
def isHighHalf (n : Nat) : Bool := 0xD800 ≤ n && n ≤ 0xDBFF

/-- Whether a number is the second half of such a pair. -/
def isLowHalf (n : Nat) : Bool := 0xDC00 ≤ n && n ≤ 0xDFFF

/-- The characters that a list of numbers stands for: a pair of halves is one character, and half
a pair stands for no character. -/
def charsOf : List Nat → List Char
  | [] => []
  | [n] => [if isHighHalf n || isLowHalf n then '\uFFFD' else Char.ofNat n]
  | n :: m :: rest =>
    if isHighHalf n && isLowHalf m then
      Char.ofNat (0x10000 + (n - 0xD800) * 0x400 + (m - 0xDC00)) :: charsOf rest
    else (if isHighHalf n || isLowHalf n then '\uFFFD' else Char.ofNat n) :: charsOf (m :: rest)

/-- Reads the numbers of the characters from after an opening quote, and gives the rest after the
closing one. -/
def readCodes : List Char → Option (List Nat × List Char)
  | [] => none
  | c :: rest =>
    if c = '"' then some ([], rest)
    else if c = '\\' then
      match rest with
      | 'u' :: h₁ :: h₂ :: h₃ :: h₄ :: more => do
        let n ← hexNumber? h₁ h₂ h₃ h₄
        let (codes, rest) ← readCodes more
        return (n :: codes, rest)
      | e :: more => do
        let c ← escape? e
        let (codes, rest) ← readCodes more
        return (c.toNat :: codes, rest)
      | [] => none
    else if c.toNat < 0x20 then none
    else do
      let (codes, rest) ← readCodes rest
      return (c.toNat :: codes, rest)

/-- Reads a text from after its opening quote, and gives the rest after the closing one. -/
def readText (s : List Char) : Option (String × List Char) := do
  let (codes, rest) ← readCodes s
  return (String.ofList (charsOf codes), rest)

def isDigit (c : Char) : Bool := '0' ≤ c && c ≤ '9'

/-- The number that a list of ASCII digits stands for. -/
def digitsValue (digits : List Char) : Nat :=
  digits.foldl (fun acc c => acc * 10 + (c.toNat - 0x30)) 0

/-- Reads the digits before the point: a zero stands alone. -/
def readWhole? : List Char → Option (List Char × List Char)
  | '0' :: rest => some (['0'], rest)
  | s =>
    let digits := s.takeWhile isDigit
    if digits.isEmpty then none else some (digits, s.dropWhile isDigit)

/-- Reads a point and the digits after it, if they are there. -/
def readFraction : List Char → Option (List Char) × List Char
  | '.' :: rest =>
    let digits := rest.takeWhile isDigit
    if digits.isEmpty then (none, '.' :: rest) else (some digits, rest.dropWhile isDigit)
  | s => (none, s)

/-- Reads the power of ten, if it is there. -/
def readExponent (s : List Char) : Option Int × List Char :=
  match s with
  | c :: rest =>
    if c = 'e' || c = 'E' then
      let (negative, digits) := match rest with
        | '-' :: r => (true, r)
        | '+' :: r => (false, r)
        | r => (false, r)
      let power := digits.takeWhile isDigit
      if power.isEmpty then (none, s)
      else
        let n := digitsValue power
        (some (if negative then -(n : Int) else n), digits.dropWhile isDigit)
    else (none, s)
  | [] => (none, s)

/-- Reads a numeral behind its sign; an integer may have `limit` digits, if there is a limit. -/
def readUnsigned (limit : Option Nat) (negative : Bool) (s : List Char) :
    Outcome (Scalar × List Char) := do
  let (whole, rest) ← orRefused (readWhole? s)
  let (fraction, rest) := readFraction rest
  let (exponent, rest) := readExponent rest
  if fraction.isNone && exponent.isNone then
    if limit.any (· < whole.length) then throw (.misuse .unreadable)
    let n := digitsValue whole
    return (.int (if negative then -(n : Int) else n), rest)
  else
    let x := Decimal.Binary64.ofDigits negative whole (fraction.getD []) (exponent.getD 0)
    return (.float x, rest)

def readNumber (limit : Option Nat) : List Char → Outcome (Scalar × List Char)
  | '-' :: rest => readUnsigned limit true rest
  | s => readUnsigned limit false s

def words : List (List Char × Scalar) := [
  ("null".toList, .null), ("true".toList, .bool true), ("false".toList, .bool false),
  ("NaN".toList, .float .nan), ("Infinity".toList, .float (.infinite false)),
  ("-Infinity".toList, .float (.infinite true))]

def readWord (limit : Option Nat) (s : List Char) : Outcome (Scalar × List Char) :=
  match words.find? fun (word, _) => word.isPrefixOf s with
  | some (word, value) => .ok (value, s.drop word.length)
  | none => readNumber limit s

mutual

/-- Reads a value, with its blanks before it; `fuel` bounds the depth and the count of parts. -/
def readValue (limit : Option Nat) (fuel : Nat) (s : List Char) : Outcome (Value × List Char) :=
  match fuel, skipBlanks s with
  | 0, _ => refused
  | _, [] => refused
  | fuel + 1, c :: rest =>
    if c = '"' then do
      let (text, rest) ← orRefused (readText rest)
      return (.text text, rest)
    else if c = '[' then
      match skipBlanks rest with
      | ']' :: rest => .ok (.list [], rest)
      | _ => do
        let (items, rest) ← readItems limit fuel rest
        return (.list items, rest)
    else if c = '\x7b' then
      match skipBlanks rest with
      | '\x7d' :: rest => .ok (.object [], rest)
      | _ => do
        let (entries, rest) ← readFields limit fuel rest
        return (.object (Fields.ofEntries entries), rest)
    else do
      let (value, rest) ← readWord limit (c :: rest)
      return (.scalar value, rest)

def readItems (limit : Option Nat) (fuel : Nat) (s : List Char) :
    Outcome (List Value × List Char) :=
  match fuel with
  | 0 => refused
  | fuel + 1 => do
    let (value, rest) ← readValue limit fuel s
    match skipBlanks rest with
    | ',' :: rest =>
      let (items, rest) ← readItems limit fuel rest
      return (value :: items, rest)
    | ']' :: rest => return ([value], rest)
    | _ => refused

/-- Reads the entries of an object, up to its closing bracket. -/
def readFields (limit : Option Nat) (fuel : Nat) (s : List Char) :
    Outcome (List (Scalar × Value) × List Char) :=
  match fuel with
  | 0 => refused
  | fuel + 1 =>
    match skipBlanks s with
    | '"' :: rest => do
      let (key, rest) ← orRefused (readText rest)
      match skipBlanks rest with
      | ':' :: rest =>
        let (value, rest) ← readValue limit fuel rest
        let entry := (Scalar.text key, value)
        match skipBlanks rest with
        | ',' :: rest =>
          let (entries, rest) ← readFields limit fuel rest
          return (entry :: entries, rest)
        | '\x7d' :: rest => return ([entry], rest)
        | _ => refused
      | _ => refused
    | _ => refused

end

/-- Reads a whole JSON text within a limit for the digits of its integers. Each part takes at least
one character, so the length of the text is fuel enough. -/
def parseWithin (limit : Option Nat) (s : String) : Outcome Value := do
  let chars := s.toList
  let (value, rest) ← readValue limit (2 * chars.length + 2) chars
  if (skipBlanks rest).isEmpty then return value else refused

/-- Reads a whole JSON text. -/
def parse (s : String) : Outcome Value :=
  parseWithin (some Text.digitLimit) s

end ClientGen.Json
