import ClientGen.Value.Basic

/-!
# The order of values

Numbers are ordered by size, truth values among them as zero and one; texts by their characters;
days by date; lists by their first items that are not equal. Other pairs of values have no order.
Equal are numbers of the same size, lists whose items are equal, and objects with equal values under
equal keys, in whatever order.
-/
namespace ClientGen

/-- A number that can be compared: a fraction, or one of the two ends of the number line. -/
inductive Magnitude where
  | least
  | fraction (num : Int) (den : Nat)
  | greatest
  | unordered

namespace Magnitude

/-- Whether one number is less than another; what is no number is neither less nor greater. -/
def less : Magnitude → Magnitude → Bool
  | .unordered, _ | _, .unordered => false
  | .least, .least => false
  | .least, _ => true
  | _, .least => false
  | .greatest, _ => false
  | _, .greatest => true
  | .fraction n d, .fraction m e => n * e < m * d

end Magnitude

namespace Scalar

/-- The size of a number. -/
def magnitude? : Scalar → Option Magnitude
  | .bool b => some (.fraction (if b then 1 else 0) 1)
  | .int n => some (.fraction n 1)
  | .float .nan => some .unordered
  | .float (.infinite negative) => some (if negative then .least else .greatest)
  | .float x => x.fraction?.map fun (n, d) => .fraction n d
  | _ => none

/-- Whether one scalar comes before another, if the two have an order. -/
def less? (s t : Scalar) : Option Bool :=
  match s, t with
  | .text a, .text b => some (a < b)
  | .date a, .date b =>
    some ([a.year, a.month, a.day] < [b.year, b.month, b.day])
  | s, t => do return (← s.magnitude?).less (← t.magnitude?)

end Scalar

namespace Value

mutual

def equals : Value → Value → Bool
  | .scalar s, .scalar t => Fields.sameKey s t
  | .list xs, .list ys => equalItems xs ys
  | .object fs, .object gs => fs.length == gs.length && equalFields fs gs
  | _, _ => false

def equalItems : List Value → List Value → Bool
  | [], [] => true
  | x :: xs, y :: ys => equals x y && equalItems xs ys
  | _, _ => false

/-- Whether the entries of an object have equal values under equal keys of another one. -/
def equalFields : List (Scalar × Value) → Fields → Bool
  | [], _ => true
  | (key, x) :: fs, gs =>
    match gs.find? fun (k, _) => Fields.sameKey k key with
    | some (_, y) => equals x y && equalFields fs gs
    | none => false

end

mutual

/-- Whether one value comes before another, if the two have an order. -/
def less? : Value → Value → Option Bool
  | .scalar s, .scalar t => s.less? t
  | .list xs, .list ys => lessItems? xs ys
  | _, _ => none

/-- Whether one list comes before another: the first items that are not equal decide. -/
def lessItems? : List Value → List Value → Option Bool
  | [], ys => some !ys.isEmpty
  | _ :: _, [] => some false
  | x :: xs, y :: ys =>
    if equals x y then lessItems? xs ys else less? x y

end

def areOrdered : List Value → Bool
  | [] => true
  | v :: rest => rest.all (fun w => (less? v w).isSome) && areOrdered rest

/-- Whether the first of two values does not come after the second. -/
def notAfter (v w : Value) : Bool :=
  (less? w v) != some true

end Value

end ClientGen
