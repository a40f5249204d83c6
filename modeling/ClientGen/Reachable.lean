import ClientGen.Model.Basic
import ClientGen.Search
import ClientGen.Table

/-!
# Reachable models

The models that are used directly or through the dependencies of other models. Keys without a
model are passed over, and no model is visited twice.
-/
namespace ClientGen.Reachable

/-- The keys of the models that are met from the keys `waiting`, besides those in `visited`. -/
def visit (models : Table Model) (visited waiting : List String) : List String :=
  match waiting with
  | [] => visited
  | key :: rest =>
    if _hseen : key ∈ visited then visit models visited rest
    else
      match _h : models.get? key with
      | none => visit models visited rest
      | some m => visit models (key :: visited) (m.dependencies.map Naming.key ++ rest)
termination_by (unseen models.keys visited, waiting.length)
decreasing_by
  · exact Prod.Lex.right _ (by simp)
  · exact Prod.Lex.right _ (by simp)
  · exact Prod.Lex.left _ _ (unseen_cons_lt (Table.mem_keys_of_get? _h) _hseen)

/-- The keys of the models that are reachable from class names. -/
def fromClasses (models : Table Model) (classes : List String) : List String :=
  visit models [] (classes.map Naming.key)

end ClientGen.Reachable
