import ClientGen.Reference.Pointer
import ClientGen.Search
import ClientGen.Value.Weight

/-!
# Following references

`follow` goes along a chain of references to the first node that is none; `expand` replaces every
reference in a value by what it points to. Both keep the references they have followed, and fail
when one comes up again. All references that can come up are in the document or in the value they
start from, so there are finitely many, and both end.
-/
namespace ClientGen.Reference

/-- Follows references from a node of the document until one leads to a node that is none. -/
def followFrom (document : Value) (reach seen : List String) (node : Value)
    (hdoc : targets document ⊆ reach) (hnode : targets node ⊆ reach) : Outcome Value :=
  match node with
  | .object fields =>
    match _ht : target? fields with
    | none => .ok (.object fields)
    | some ref =>
      if _hseen : ref ∈ seen then .error (.reference ref .circular)
      else
        match hr : resolve document ref with
        | .error e => .error e
        | .ok v =>
          followFrom document reach (ref :: seen) v hdoc
            (List.Subset.trans (targets_resolve_subset hr) hdoc)
  | v => .ok v
termination_by unseen reach seen
decreasing_by
  refine unseen_cons_lt (hnode ?_) _hseen
  simp [targets, _ht]

/-- Follows references from a node until one leads to a node that is none. -/
def follow (document node : Value) : Outcome Value :=
  followFrom document (targets document ++ targets node) [] node
    (List.subset_append_left _ _) (List.subset_append_right _ _)

mutual

/-- Replaces the references in a value, after `seen` have been followed to come to it. -/
def expandFrom (document : Value) (reach seen : List String) (v : Value)
    (hdoc : targets document ⊆ reach) (hv : targets v ⊆ reach) : Outcome Value :=
  match v with
  | .scalar s => .ok (.scalar s)
  | .list items => do
    return .list (← expandItems document reach seen items hdoc (by simpa [targets] using hv))
  | .object fields =>
    match _ht : target? fields with
    | some ref =>
      if _hseen : ref ∈ seen then .error (.reference ref .circular)
      else
        match hr : resolve document ref with
        | .error e => .error e
        | .ok w =>
          expandFrom document reach (ref :: seen) w hdoc
            (List.Subset.trans (targets_resolve_subset hr) hdoc)
    | none => do
      return .object (← expandFields document reach seen fields hdoc
        (List.Subset.trans (by simp [targets]) hv))
termination_by (unseen reach seen, 2 * v.weight)
decreasing_by
  · exact Prod.Lex.right _ (by simp only [Value.weight]; omega)
  · exact Prod.Lex.left _ _ (unseen_cons_lt (hv (by simp [targets, _ht])) _hseen)
  · exact Prod.Lex.right _ (by simp only [Value.weight]; omega)

def expandItems (document : Value) (reach seen : List String) (items : List Value)
    (hdoc : targets document ⊆ reach) (hv : targetsOfItems items ⊆ reach) :
    Outcome (List Value) :=
  match items with
  | [] => .ok []
  | v :: rest => do
    let first ← expandFrom document reach seen v hdoc
      (List.Subset.trans (List.subset_append_left _ _) hv)
    let others ← expandItems document reach seen rest hdoc
      (List.Subset.trans (List.subset_append_right _ _) hv)
    return first :: others
termination_by (unseen reach seen, 2 * Value.weightItems items + 1)
decreasing_by
  all_goals simp only [Value.weightItems]
  all_goals have := Value.weight_pos v
  all_goals exact Prod.Lex.right _ (by omega)

/-- Replaces the references in the entries of an object. -/
def expandFields (document : Value) (reach seen : List String) (fields : List (Scalar × Value))
    (hdoc : targets document ⊆ reach) (hv : targetsOfFields fields ⊆ reach) :
    Outcome (List (Scalar × Value)) :=
  match fields with
  | [] => .ok []
  | (key, v) :: rest => do
    let first ← expandFrom document reach seen v hdoc
      (List.Subset.trans (List.subset_append_left _ _) hv)
    let others ← expandFields document reach seen rest hdoc
      (List.Subset.trans (List.subset_append_right _ _) hv)
    return (key, first) :: others
termination_by (unseen reach seen, 2 * Value.weightFields fields + 1)
decreasing_by
  all_goals simp only [Value.weightFields]
  all_goals exact Prod.Lex.right _ (by omega)

end

def expand (document v : Value) : Outcome Value :=
  expandFrom document (targets document ++ targets v) [] v
    (List.subset_append_left _ _) (List.subset_append_right _ _)

end ClientGen.Reference
