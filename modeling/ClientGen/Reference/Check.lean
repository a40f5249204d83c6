import ClientGen.Reference.Pointer

/-!
# Checking the references of a document

Before a document is compiled every reference in it is resolved once. The order of the walk
decides which of several faulty references is reported: an object comes before its parts, and of
the parts the last comes first.
-/
namespace ClientGen.Reference

mutual

/-- Resolves the references in a value, an object before its entries and the last entries first,
and counts them. What stands under the key of a reference is not looked into. -/
def check (document : Value) : Value → Outcome Nat
  | .scalar _ => .ok 0
  | .list items => checkItems document items
  | .object fields => do
    let own ← match target? fields with
      | some ref => do
        let _ ← resolve document ref
        pure 1
      | none => pure 0
    return own + (← checkFields document fields)

/-- Resolves and counts the references in the items of a list, the last first. -/
def checkItems (document : Value) : List Value → Outcome Nat
  | [] => .ok 0
  | v :: rest => do
    let others ← checkItems document rest
    return (← check document v) + others

/-- Resolves and counts the references in the entries of an object, the last first. -/
def checkFields (document : Value) : List (Scalar × Value) → Outcome Nat
  | [] => .ok 0
  | (key, v) :: rest => do
    let others ← checkFields document rest
    if key = .text "$ref" then return others
    return (← check document v) + others

end

/-- Resolves every reference of a document once, and counts them. -/
def checkAll (document : Value) : Outcome Nat :=
  check document document

end ClientGen.Reference
