import ClientGen.Decimal.Binary64

/-!
# The shortest decimal of a binary64 number

A number is written with the fewest significant digits that read back as it. The decimals that
read back form an interval around the number; on the grid of decimals with a given count of
digits only the two neighbours of the number have to be looked at.
-/
namespace ClientGen.Decimal

/-- A positive decimal `digits · 10 ^ exponent`. -/
structure Scaled where
  digits : Nat
  exponent : Int
  deriving DecidableEq, Repr

/-- The decimals that read back as `value`, all in one unit: they lie between `low` and `high`,
the ends being included when `closed` is set. -/
structure Rounding where
  value : Nat
  low : Nat
  high : Nat
  closed : Bool
  unit : Int

/-- The decimals that read back as `m · 2 ^ e`. Below a power of two the gap to the next number
is half as wide. -/
def Rounding.of (m : Nat) (e : Int) : Rounding :=
  { value := 4 * m
    low := if m = Nat.pow 2 52 ∧ e ≠ Binary64.minExponent then 4 * m - 1 else 4 * m - 2
    high := 4 * m + 2
    closed := m % 2 == 0
    unit := e - 2 }

def Rounding.admits (r : Rounding) (low high point : Nat) : Bool :=
  if r.closed then low ≤ point && point ≤ high else low < point && point < high

/-- The point of the grid of multiples of `10 ^ k` that reads back and is nearest to the value,
if there is one; of two equally near points the even one is taken. -/
def Rounding.nearestOn (r : Rounding) (k : Int) : Option Nat :=
  let (up, down) : Nat × Nat := match r.unit, k with
    | .ofNat u, .ofNat k => (Nat.pow 2 u, Nat.pow 10 k)
    | .ofNat u, .negSucc k => (Nat.pow 2 u * Nat.pow 10 (k + 1), 1)
    | .negSucc u, .ofNat k => (1, Nat.pow 2 (u + 1) * Nat.pow 10 k)
    | .negSucc u, .negSucc k => (Nat.pow 10 (k + 1), Nat.pow 2 (u + 1))
  let value := r.value * up
  let floor := value / down
  let fits := fun point => r.admits (r.low * up) (r.high * up) (point * down)
  let below := value - floor * down
  let above := (floor + 1) * down - value
  match fits floor && floor != 0, fits (floor + 1) with
  | true, true =>
    if below < above || (below == above && floor % 2 == 0) then some floor else some (floor + 1)
  | true, false => some floor
  | false, true => some (floor + 1)
  | false, false => none

def powerAtMost (k : Int) (m : Nat) (e : Int) : Bool :=
  Nat.pow 10 k.toNat * Nat.pow 2 (-e).toNat ≤ m * Nat.pow 2 e.toNat * Nat.pow 10 (-k).toNat

/-- The greatest `k` such that `10 ^ k` is at most the positive number `m · 2 ^ e`. -/
def magnitude (m : Nat) (e : Int) : Int :=
  let guess := ((m.log2 : Int) + e) * 30103 / 100000
  if powerAtMost (guess + 1) m e then guess + 1
  else if powerAtMost guess m e then guess
  else guess - 1

def Scaled.dropZeros (digits : Nat) (exponent : Int) : Nat → Scaled
  | 0 => ⟨digits, exponent⟩
  | steps + 1 =>
    if digits % 10 = 0 then dropZeros (digits / 10) (exponent + 1) steps else ⟨digits, exponent⟩

/-- The shortest decimal that reads back as the positive number `m · 2 ^ e`; seventeen digits
always do. -/
def shortest (m : Nat) (e : Int) : Scaled :=
  let r := Rounding.of m e
  let top := magnitude m e
  let hit := (List.range 17).findSome? fun (n : Nat) =>
    let k := top - n
    (r.nearestOn k).map (·, k)
  match hit with
  | some (digits, k) => Scaled.dropZeros digits k 20
  | none => ⟨m, 0⟩

end ClientGen.Decimal
