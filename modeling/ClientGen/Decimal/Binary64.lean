/-!
# Numbers of the binary64 format

A finite number is kept exactly, as a mantissa and a power of two, so that reading, comparing and
writing numbers is arithmetic on natural numbers. A decimal numeral is read as the nearest number
of the format; of two equally near ones the number with the even mantissa is taken.
-/
namespace ClientGen.Decimal

/-- A number of the binary64 format; `finite negative m e` is `m · 2 ^ e` with its sign. -/
inductive Binary64 where
  | nan
  | infinite (negative : Bool)
  | finite (negative : Bool) (mantissa : Nat) (exponent : Int)
  deriving DecidableEq, Repr, Inhabited

namespace Binary64

def minExponent : Int := -1074

def maxExponent : Int := 971

/-- Numbers that are not subnormal have a mantissa of 53 binary digits. -/
def mantissaBits : Nat := 53

/-- The quotient rounded to the nearest natural number, a half going to the even one. -/
def divideToEven (num den : Nat) : Nat :=
  let quotient := num / den
  let remainder := num % den
  if 2 * remainder > den || (2 * remainder == den && quotient % 2 == 1) then quotient + 1
  else quotient

/-- `num / (den · 2 ^ e)` as a fraction of natural numbers. -/
def scaled (num den : Nat) (e : Int) : Nat × Nat :=
  match e with
  | .ofNat e => (num, den * Nat.pow 2 e)
  | .negSucc e => (num * Nat.pow 2 (e + 1), den)

/-- The exponent with which `num / den` gets a mantissa of full width. -/
def exponentFor (num den : Nat) : Int :=
  let guess : Int := (num.log2 : Int) - den.log2 - (mantissaBits - 1 : Nat)
  let (n, d) := scaled num den guess
  let exact := if n < d * Nat.pow 2 (mantissaBits - 1) then guess - 1 else guess
  max exact minExponent

def ofFraction (negative : Bool) (num den : Nat) : Binary64 :=
  if num = 0 then .finite negative 0 minExponent
  else
    let e := exponentFor num den
    let (n, d) := scaled num den e
    let m := divideToEven n d
    let (m, e) :=
      if m = Nat.pow 2 mantissaBits then (Nat.pow 2 (mantissaBits - 1), e + 1) else (m, e)
    if e > maxExponent then .infinite negative else .finite negative m e

/-- The number nearest to `digits · 10 ^ exponent`, where `digits` has at most `count` decimal
digits. Far outside the range of the format the power of ten is not computed. -/
def ofDecimal (negative : Bool) (digits : Nat) (count : Nat) (exponent : Int) : Binary64 :=
  if digits = 0 then .finite negative 0 minExponent
  else if count + exponent < -400 then .finite negative 0 minExponent
  else if exponent > 400 then .infinite negative
  else match exponent with
    | .ofNat e => ofFraction negative (digits * Nat.pow 10 e) 1
    | .negSucc e => ofFraction negative digits (Nat.pow 10 (e + 1))

/-- Whether the number is zero, of either sign. -/
def isZero : Binary64 → Bool
  | .finite _ m _ => m == 0
  | _ => false

/-- The integer part, the fraction being cut off. -/
def truncate? : Binary64 → Option Int
  | .finite negative m e =>
    let whole := match e with
      | .ofNat e => m * Nat.pow 2 e
      | .negSucc e => m / Nat.pow 2 (e + 1)
    some (if negative then -(whole : Int) else whole)
  | _ => none

/-- The number as an integer, when it is one. -/
def integer? : Binary64 → Option Int
  | .finite negative m (.negSucc e) =>
    if m % Nat.pow 2 (e + 1) = 0 then truncate? (.finite negative m (.negSucc e)) else none
  | x => truncate? x

/-- A finite number as a numerator and a positive denominator. -/
def fraction? : Binary64 → Option (Int × Nat)
  | .finite negative m e =>
    let (num, den) := match e with
      | .ofNat e => (m * Nat.pow 2 e, 1)
      | .negSucc e => (m, Nat.pow 2 (e + 1))
    some (if negative then -(num : Int) else num, den)
  | _ => none

/-- The number with the other sign. -/
def negate : Binary64 → Binary64
  | .nan => .nan
  | .infinite negative => .infinite !negative
  | .finite negative m e => .finite (!negative) m e

/-- The sum of two finite numbers, rounded; the first number that is not finite stays. -/
def add (x y : Binary64) : Binary64 :=
  match x.fraction?, y.fraction? with
  | some (a, b), some (c, d) =>
    let num := a * d + c * b
    ofFraction (num < 0) num.natAbs (b * d)
  | none, _ => x
  | _, none => y

/-- The product of two finite numbers, rounded; the first number that is not finite stays. -/
def mul (x y : Binary64) : Binary64 :=
  match x.fraction?, y.fraction? with
  | some (a, b), some (c, d) =>
    let num := a * c
    ofFraction (num < 0) num.natAbs (b * d)
  | none, _ => x
  | _, none => y

end Binary64

end ClientGen.Decimal
