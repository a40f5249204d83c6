import ClientGen.Failure

/-!
# Local references

A local reference is `#/` followed by the steps to a node of the document: keys of objects and
indices of lists. In a step `~1` stands for a slash and `~0` for a tilde; empty steps are passed
over. The reference without steps gives an empty object.
-/
namespace ClientGen.Reference

/-- The step that an escaped step stands for. -/
def unescape : List Char → List Char
  | '~' :: '1' :: rest => '/' :: unescape rest
  | '~' :: '0' :: rest => '~' :: unescape rest
  | c :: rest => c :: unescape rest
  | [] => []

def steps? (ref : String) : Option (List String) :=
  match ref.toList with
  | '#' :: '/' :: rest =>
    some (((Text.splitOn '/' rest).filter (!·.isEmpty)).map fun s => String.ofList (unescape s))
  | _ => none

def step (ref : String) (node : Value) (name : String) : Outcome Value :=
  match node with
  | .object fields =>
    match Fields.get? fields name with
    | some v => .ok v
    | none => .error (.reference ref .missing)
  | .list items =>
    if Text.isDigits name then
      match Text.readInt? name with
      | none => .error (.misuse .unreadable)
      | some n =>
        match items[n.toNat]? with
        | some v => .ok v
        | none => .error (.reference ref .missing)
    else .error (.reference ref .missing)
  | .scalar _ => .error (.reference ref .missing)

def walk (ref : String) (node : Value) : List String → Outcome Value
  | [] => .ok node
  | name :: rest => do walk ref (← step ref node name) rest

def resolve (document : Value) (ref : String) : Outcome Value :=
  match steps? ref with
  | none => .error (.reference ref .notLocal)
  | some [] => .ok (.object [])
  | some (name :: rest) => walk ref document (name :: rest)

/-- The reference that an object consists of, if it is one. -/
def target? (fields : Fields) : Option String :=
  (fields.get "$ref").text?

mutual

def targets : Value → List String
  | .scalar _ => []
  | .list items => targetsOfItems items
  | .object fields => (target? fields).toList ++ targetsOfFields fields

def targetsOfItems : List Value → List String
  | [] => []
  | v :: rest => targets v ++ targetsOfItems rest

/-- All references in the entries of an object. -/
def targetsOfFields : List (Scalar × Value) → List String
  | [] => []
  | (_, v) :: rest => targets v ++ targetsOfFields rest

end

theorem targets_get?_subset {fields : Fields} {name : String} {v : Value}
    (h : Fields.get? fields name = some v) : targets v ⊆ targetsOfFields fields := by
  induction fields with
  | nil => simp [Fields.get?] at h
  | cons entry rest ih =>
    obtain ⟨k, w⟩ := entry
    simp only [Fields.get?, List.lookup_cons] at h
    simp only [targetsOfFields]
    cases hk : (Scalar.text name == k) with
    | true =>
      simp only [hk] at h
      cases h
      exact List.subset_append_left _ _
    | false =>
      simp only [hk] at h
      exact List.Subset.trans (ih h) (List.subset_append_right _ _)

theorem targets_getElem?_subset {items : List Value} {i : Nat} {v : Value}
    (h : items[i]? = some v) : targets v ⊆ targetsOfItems items := by
  induction items generalizing i with
  | nil => simp at h
  | cons w rest ih =>
    simp only [targetsOfItems]
    cases i with
    | zero =>
      simp only [List.getElem?_cons_zero, Option.some.injEq] at h
      subst h
      exact List.subset_append_left _ _
    | succ i =>
      simp only [List.getElem?_cons_succ] at h
      exact List.Subset.trans (ih h) (List.subset_append_right _ _)

/-- A step leads to no new references. -/
theorem targets_step_subset {ref name : String} {node v : Value} (h : step ref node name = .ok v) :
    targets v ⊆ targets node := by
  unfold step at h
  split at h
  · split at h
    · rename_i hget
      cases h
      simp only [targets]
      exact List.Subset.trans (targets_get?_subset hget) (List.subset_append_right _ _)
    · cases h
  · split at h
    · split at h
      · cases h
      · split at h
        · rename_i hget
          cases h
          exact targets_getElem?_subset hget
        · cases h
    · cases h
  · cases h

theorem targets_walk_subset {ref : String} {names : List String} {node v : Value}
    (h : walk ref node names = .ok v) : targets v ⊆ targets node := by
  induction names generalizing node with
  | nil =>
    simp only [walk, Except.ok.injEq] at h
    subst h
    exact List.Subset.refl _
  | cons name rest ih =>
    simp only [walk] at h
    cases hs : step ref node name with
    | error e => simp [hs, bind, Except.bind] at h
    | ok w =>
      simp only [hs, bind, Except.bind] at h
      exact List.Subset.trans (ih h) (targets_step_subset hs)

/-- What a reference points to holds only references of the document. -/
theorem targets_resolve_subset {document v : Value} {ref : String}
    (h : resolve document ref = .ok v) : targets v ⊆ targets document := by
  unfold resolve at h
  split at h
  · cases h
  · cases h
    simp [targets, targetsOfFields, target?, Fields.get, Fields.get?, Value.text?]
  · exact targets_walk_subset h

end ClientGen.Reference
