import ClientGen.Text.Blank
import ClientGen.Text.CharRange
import ClientGen.Text.DigitTable

/-!
# Numerals

Digits are those of every script of the Unicode standard. An integer may be written with blanks
around it, a sign, and single underscores between its digits, of which there is a greatest number.
Some characters are digits without having a decimal value (`²`): a text of digits need not be a
numeral.
-/
namespace ClientGen.Text

def digitValue? (c : Char) : Option Nat :=
  (DigitTable.zeros.find? fun first => first ≤ c.toNat && c.toNat < first + 10).map (c.toNat - ·)

/-- Whether a character is a digit, decimal or not. -/
def isDigit (c : Char) : Bool :=
  (digitValue? c).isSome || covers DigitTable.otherDigits c

def isDigits (s : String) : Bool :=
  !s.toList.isEmpty && s.toList.all isDigit

/-- Reads decimal digits after those that make up `acc`; an underscore has to be followed by a
digit. -/
def readDigits? (acc : Nat) : List Char → Option Nat
  | [] => some acc
  | '_' :: c :: rest => do readDigits? (acc * 10 + (← digitValue? c)) rest
  | c :: rest => do readDigits? (acc * 10 + (← digitValue? c)) rest

/-- How many digits the numeral of an integer may have. -/
def digitLimit : Nat := 4300

/-- Reads a natural number, which starts with a digit. -/
def readNat? : List Char → Option Nat
  | [] => none
  | c :: rest => do
    if ((c :: rest).filter (· != '_')).length > digitLimit then none
    else readDigits? (← digitValue? c) rest

/-- The blanks that may surround a numeral: the separators U+001C to U+001F may not. -/
def isNumeralPadding (c : Char) : Bool :=
  isBlank c && !(0x1C ≤ c.toNat && c.toNat ≤ 0x1F)

def readInt? (s : String) : Option Int :=
  match trimBy isNumeralPadding s.toList with
  | '+' :: digits => (readNat? digits).map Int.ofNat
  | '-' :: digits => (readNat? digits).map fun n => -Int.ofNat n
  | digits => (readNat? digits).map Int.ofNat

/-- The decimal digits of a natural number, without leading zeros. -/
def natText (n : Nat) : String :=
  String.ofList (Nat.toDigits 10 n)

/-- The decimal form of an integer. -/
def intText (n : Int) : String :=
  match n with
  | .ofNat n => natText n
  | .negSucc n => "-" ++ natText (n + 1)

end ClientGen.Text
