import ClientGen.Yaml.Scalar

/-!
# YAML nodes

A YAML text is a tree of nodes, which says how scalars are written but not yet what they stand
for. `Node.value` gives the value of a tree: mappings are objects, whose keys have to be scalars,
and the mappings under the merge key come before the entries of the mapping that they are spread
over, so that the latter win. A tree is gone through level by level: of several faults the one
nearest to the root counts.
-/
namespace ClientGen.Yaml

inductive Node where
  /-- A scalar without quotes. -/
  | plain (text : String)
  /-- A scalar in quotes, or a block of text. -/
  | quoted (text : String)
  | sequence (items : List Node)
  | mapping (entries : List (Node × Node))
  deriving Repr, Inhabited

namespace Node

def empty : Node := .plain ""

def isMerge : Node → Bool
  | .plain text => text == mergeKey
  | _ => false

end Node

/-- A fault, and how deep the list or the mapping lies in which it stands. -/
structure DeepFault where
  depth : Nat
  failure : Failure

/-- What is found in a node at some depth. -/
abbrev Found (α : Type) := Except DeepFault α

namespace Found

variable {α β γ : Type}

def ofOutcome (depth : Nat) : Outcome α → Found α
  | .ok a => .ok a
  | .error e => .error ⟨depth, e⟩

/-- Two things together. Of two faults the less deep one counts, and of equally deep ones the
first. -/
def both (f : α → β → γ) (x : Found α) (y : Found β) : Found γ :=
  match x, y with
  | .ok a, .ok b => .ok (f a b)
  | .error e, .ok _ => .error e
  | .ok _, .error e => .error e
  | .error e, .error e' => .error (if e'.depth < e.depth then e' else e)

/-- Two things are found together exactly if each is found. -/
theorem both_eq_ok {f : α → β → γ} {x : Found α} {y : Found β} {c : γ} :
    both f x y = .ok c ↔ ∃ a b, x = .ok a ∧ y = .ok b ∧ f a b = c := by
  cases x <;> cases y <;> simp [both]

/-- Things together, one after another. -/
def all (xs : List (Found α)) : Found (List α) :=
  xs.foldr (both List.cons) (.ok [])

end Found

/-- The entries of a mapping. -/
abbrev FoundFields := List (Found (Scalar × Value))

namespace Node

def keyAt (depth : Nat) : Node → Found Scalar
  | .plain text =>
    if text == equalsKey then .ok (.text text) else .ofOutcome depth (scalarOf text)
  | .quoted text => .ok (.text text)
  | _ => .error ⟨depth, .malformedText .yamlValue⟩

mutual

/-- The value that a node stands for, in a list or a mapping at a depth. -/
def valueAt (depth : Nat) : Node → Found Value
  | .plain text => (Found.ofOutcome depth (scalarOf text)).map .scalar
  | .quoted text => .ok (.text text)
  | .sequence items => (valuesAt (depth + 1) items).map .list
  | .mapping entries =>
    match entriesAt (depth + 1) entries with
    | .ok (spread, own) => (Found.all (spread ++ own)).map fun fs => .object (Fields.ofEntries fs)
    | .error e => .error ⟨depth + 1, e⟩

def valuesAt (depth : Nat) : List Node → Found (List Value)
  | [] => .ok []
  | node :: rest => Found.both List.cons (valueAt depth node) (valuesAt depth rest)

/-- The entries of a mapping: those under its merge keys, and its own. -/
def entriesAt (depth : Nat) : List (Node × Node) → Outcome (FoundFields × FoundFields)
  | [] => .ok ([], [])
  | (key, node) :: rest =>
    if key.isMerge then do
      let merged ← spreadAt depth node
      let (spread, own) ← entriesAt depth rest
      return (merged ++ spread, own)
    else do
      let entry := Found.both Prod.mk (keyAt depth key) (valueAt depth node)
      let (spread, own) ← entriesAt depth rest
      return (spread, entry :: own)

/-- The entries that a node under a merge key is spread to: those of a mapping, or those of
several mappings, of which an earlier one wins. -/
def spreadAt (depth : Nat) : Node → Outcome FoundFields
  | .mapping entries => do
    let (spread, own) ← entriesAt depth entries
    return spread ++ own
  | .sequence items => spreadAllAt depth items
  | _ => .error (.malformedText .yamlValue)

/-- The entries of several mappings, the last one first. -/
def spreadAllAt (depth : Nat) : List Node → Outcome FoundFields
  | [] => .ok []
  | .mapping entries :: rest => do
    let (spread, own) ← entriesAt depth entries
    return (← spreadAllAt depth rest) ++ spread ++ own
  | _ :: _ => .error (.malformedText .yamlValue)

end

def value (node : Node) : Outcome Value :=
  (node.valueAt 0).mapError (·.failure)

end Node

end ClientGen.Yaml
