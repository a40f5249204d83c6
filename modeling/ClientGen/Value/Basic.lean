import ClientGen.Decimal.Binary64

/-!
# Document values

A document, a configuration and an example are trees of values: scalars, lists, and objects whose
entries keep the order of the text they were read from. Keys are scalars, since a YAML mapping may
have keys that are not texts. `Fields.insert` is the only way a key that is already there is
met: it keeps its place and takes the new value.
-/
namespace ClientGen

structure Date where
  year : Nat
  month : Nat
  day : Nat
  deriving DecidableEq, Repr, Inhabited

/-- A value without parts. -/
inductive Scalar where
  | null
  | bool (b : Bool)
  | int (n : Int)
  | float (x : Decimal.Binary64)
  | text (s : String)
  | date (d : Date)
  deriving DecidableEq, Repr, Inhabited

inductive Value where
  | scalar (s : Scalar)
  | list (items : List Value)
  | object (fields : List (Scalar × Value))
  deriving Repr, Inhabited

/-- The entries of an object, in order. -/
abbrev Fields := List (Scalar × Value)

namespace Value

@[match_pattern] abbrev null : Value := .scalar .null

@[match_pattern] abbrev bool (b : Bool) : Value := .scalar (.bool b)

/-- An integer. -/
@[match_pattern] abbrev int (n : Int) : Value := .scalar (.int n)

@[match_pattern] abbrev text (s : String) : Value := .scalar (.text s)

mutual

/-- Decides whether two values are the same. -/
def decEq : (v w : Value) → Decidable (v = w)
  | .scalar s, .scalar t =>
    if h : s = t then isTrue (congrArg scalar h) else isFalse fun e => h (Value.scalar.inj e)
  | .list xs, .list ys =>
    match decEqItems xs ys with
    | isTrue h => isTrue (congrArg list h)
    | isFalse h => isFalse fun e => h (Value.list.inj e)
  | .object fs, .object gs =>
    match decEqFields fs gs with
    | isTrue h => isTrue (congrArg object h)
    | isFalse h => isFalse fun e => h (Value.object.inj e)
  | .scalar _, .list _ => isFalse (fun h => by cases h)
  | .scalar _, .object _ => isFalse (fun h => by cases h)
  | .list _, .scalar _ => isFalse (fun h => by cases h)
  | .list _, .object _ => isFalse (fun h => by cases h)
  | .object _, .scalar _ => isFalse (fun h => by cases h)
  | .object _, .list _ => isFalse (fun h => by cases h)

/-- Decides whether two lists of values are the same. -/
def decEqItems : (xs ys : List Value) → Decidable (xs = ys)
  | [], [] => isTrue rfl
  | [], _ :: _ => isFalse (fun h => by cases h)
  | _ :: _, [] => isFalse (fun h => by cases h)
  | x :: xs, y :: ys =>
    match decEq x y, decEqItems xs ys with
    | isTrue h, isTrue t => isTrue (by rw [h, t])
    | isFalse h, _ => isFalse fun e => h (List.cons.inj e).1
    | _, isFalse t => isFalse fun e => t (List.cons.inj e).2

/-- Decides whether two lists of entries are the same. -/
def decEqFields : (fs gs : List (Scalar × Value)) → Decidable (fs = gs)
  | [], [] => isTrue rfl
  | [], _ :: _ => isFalse (fun h => by cases h)
  | _ :: _, [] => isFalse (fun h => by cases h)
  | (k, x) :: fs, (l, y) :: gs =>
    match decEq x y, decEqFields fs gs with
    | isTrue h, isTrue t =>
      if hk : k = l then isTrue (by rw [h, t, hk])
      else isFalse fun e => hk (Prod.mk.inj (List.cons.inj e).1).1
    | isFalse h, _ => isFalse fun e => h (Prod.mk.inj (List.cons.inj e).1).2
    | _, isFalse t => isFalse fun e => t (List.cons.inj e).2

end

instance : DecidableEq Value := decEq

/-- Whether the value counts as set: everything but null, false, zero and what is empty. -/
def isSet : Value → Bool
  | .scalar .null => false
  | .scalar (.bool b) => b
  | .scalar (.int n) => n != 0
  | .scalar (.float x) => !x.isZero
  | .scalar (.text s) => s != ""
  | .scalar (.date _) => true
  | .list items => !items.isEmpty
  | .object fields => !fields.isEmpty

def isNull : Value → Bool
  | .scalar .null => true
  | _ => false

/-- The entries of an object. -/
def fields? : Value → Option Fields
  | .object fields => some fields
  | _ => none

def text? : Value → Option String
  | .text s => some s
  | _ => none

/-- The value as an integer, where a truth value counts as zero or one. -/
def index? : Value → Option Int
  | .int n => some n
  | .bool b => some (if b then 1 else 0)
  | _ => none

end Value

namespace Fields

def get? (fields : Fields) (key : String) : Option Value :=
  fields.lookup (.text key)

/-- The value under a key; null when there is none. -/
def get (fields : Fields) (key : String) : Value :=
  (fields.get? key).getD .null

def has (fields : Fields) (key : String) : Bool :=
  (fields.get? key).isSome

def without (fields : Fields) (key : String) : Fields :=
  fields.filter fun entry => entry.1 != .text key

/-- Two keys are the same entry when they are equal, a number being equal to the same number of
another kind. -/
def sameKey (k l : Scalar) : Bool :=
  match numeric? k, numeric? l with
  | some x, some y => x == y
  | _, _ => k == l
where
  /-- A key as a number in lowest terms. -/
  numeric? : Scalar → Option (Int × Nat)
    | .bool b => some (if b then 1 else 0, 1)
    | .int n => some (n, 1)
    | .float x => x.fraction?.map fun (n, d) =>
      let g := Nat.gcd n.natAbs d
      (n / g, d / g)
    | _ => none

/-- Sets the value under a key: in place when the key is there, at the end otherwise. -/
def insert (fields : Fields) (key : Scalar) (value : Value) : Fields :=
  match fields with
  | [] => [(key, value)]
  | (k, v) :: rest =>
    if sameKey k key then (k, value) :: rest else (k, v) :: insert rest key value

def ofEntries (entries : List (Scalar × Value)) : Fields :=
  entries.foldl (fun fields (k, v) => fields.insert k v) []

end Fields

end ClientGen
