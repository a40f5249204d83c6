import ClientGen.Decimal.Shortest
import ClientGen.Text.Numeral

/-!
# Numbers as text

A number is written positionally when its first digit stands between the fourth place after the
point and the sixteenth before it, and with an exponent of at least two digits otherwise. A
positional number always has a point.
-/
namespace ClientGen.Decimal

def positional (digits : List Char) (point : Int) : List Char :=
  match point with
  | .ofNat 0 => '0' :: '.' :: digits
  | .negSucc n => '0' :: '.' :: List.replicate (n + 1) '0' ++ digits
  | .ofNat n =>
    if digits.length ≤ n then digits ++ List.replicate (n - digits.length) '0' ++ ['.', '0']
    else digits.take n ++ '.' :: digits.drop n

/-- `digits` with a point after the first, and a power of ten. -/
def scientific (digits : List Char) (exponent : Int) : List Char :=
  let mantissa := match digits with
    | [] => []
    | [d] => [d]
    | d :: rest => d :: '.' :: rest
  let size := Nat.toDigits 10 exponent.natAbs
  mantissa ++ 'e' :: (if exponent < 0 then '-' else '+') ::
    (if size.length < 2 then '0' :: size else size)

def Scaled.text (d : Scaled) : List Char :=
  let digits := Nat.toDigits 10 d.digits
  let point : Int := digits.length + d.exponent
  if -4 < point && point ≤ 16 then positional digits point else scientific digits (point - 1)

structure Spelling where
  nan : String
  infinity : String

def Spelling.plain : Spelling := ⟨"nan", "inf"⟩

def Spelling.json : Spelling := ⟨"NaN", "Infinity"⟩

/-- A number as text: the shortest decimal that reads back. -/
def Binary64.text (spelling : Spelling) : Binary64 → String
  | .nan => spelling.nan
  | .infinite negative => (if negative then "-" else "") ++ spelling.infinity
  | .finite negative m e =>
    (if negative then "-" else "") ++
      if m = 0 then "0.0" else String.ofList (shortest m e).text

/-- Reads the digits of a decimal numeral: those before the point, those after it, and the power
of ten that follows. -/
def Binary64.ofDigits (negative : Bool) (whole fraction : List Char) (exponent : Int) : Binary64 :=
  let digits := (whole ++ fraction).dropWhile (· == '0')
  let value := digits.foldl (fun acc c => acc * 10 + (c.toNat - '0'.toNat)) 0
  ofDecimal negative value digits.length (exponent - fraction.length)

end ClientGen.Decimal
