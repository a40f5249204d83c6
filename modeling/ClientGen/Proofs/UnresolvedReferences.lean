import ClientGen.Proofs.CheckedReferences
import ClientGen.Proofs.Pointers

/-!
# References that do not resolve

A reference leads to a node of the document or is reported as one that does not resolve, but for one
case: at a list, a step may be made of digits and still be no numeral, since not every digit has a
decimal value and a numeral has not more than `Text.digitLimit` digits. Such a reference is misread
(`resolve_cases`).

The check of a document resolves its references in the order `visited`, and stops at the first that
fails, with the failure of that one (`checkAll_eq_error`). So a reference that leads nowhere is
reported as such, unless it is hidden below a key `$ref` or one that is misread comes first
(`unresolved_reported_iff`).
-/
namespace ClientGen

namespace Reference

/-- A step that is made of digits and is no numeral. -/
def NoNumeral (name : String) : Prop :=
  Text.isDigits name = true ∧
    ((∃ c ∈ name.toList, Text.digitValue? c = none) ∨ Text.digitLimit < name.toList.length)

section Steps

variable {ref name : String} {node : Value} {names : List String}

/-- A step leads to a node below, or nowhere, or it is no numeral where it stands for a place. -/
theorem step_cases (ref : String) (node : Value) (name : String) :
    (∃ v s, step ref node name = .ok v ∧ nodeAt? node [s] = some v) ∨
    step ref node name = .error (.reference ref .missing) ∨
    ∃ items, node = .list items ∧ NoNumeral name := by
  cases node with
  | scalar s => exact Or.inr (Or.inl rfl)
  | object fields =>
    rw [step]
    cases found : Fields.get? fields name with
    | none => exact Or.inr (Or.inl rfl)
    | some v => exact Or.inl ⟨v, .key name, rfl, by simp [nodeAt?, found]⟩
  | list items =>
    rw [step]
    by_cases digits : Text.isDigits name = true
    · rw [if_pos digits]
      cases numeral : Text.readInt? name with
      | none =>
        have noNumeral := (Text.readInt?_eq_none_iff digits).mp numeral
        exact Or.inr (Or.inr ⟨items, rfl, digits, noNumeral⟩)
      | some n =>
        cases found : items[n.toNat]? with
        | none => exact Or.inr (Or.inl (by simp [found]))
        | some v => exact Or.inl ⟨v, .index n.toNat, by simp [found], by simp [nodeAt?, found]⟩
    · rw [if_neg digits]
      exact Or.inr (Or.inl rfl)

theorem step_of_noNumeral {items : List Value} (noNumeral : NoNumeral name) :
    step ref (.list items) name = .error (.misuse .unreadable) := by
  rw [step, if_pos noNumeral.1, (Text.readInt?_eq_none_iff noNumeral.1).mpr noNumeral.2]

/-- A path goes on from the node that its first step leads to. -/
theorem nodeAt?_cons {next v : Value} {s : Step} {path : List Step}
    (first : nodeAt? node [s] = some next) (onward : nodeAt? next path = some v) :
    nodeAt? node (s :: path) = some v := by
  have here : ∀ w : Value, nodeAt? w [] = some w := fun w => by cases w <;> rfl
  cases node with
  | scalar t => cases s <;> cases first
  | object fields =>
    cases s with
    | index i => cases first
    | key name =>
      obtain ⟨w, found, same⟩ := Option.bind_eq_some_iff.mp first
      rw [here] at same
      cases same
      exact Option.bind_eq_some_iff.mpr ⟨next, found, onward⟩
  | list items =>
    cases s with
    | key name => cases first
    | index i =>
      obtain ⟨w, found, same⟩ := Option.bind_eq_some_iff.mp first
      rw [here] at same
      cases same
      exact Option.bind_eq_some_iff.mpr ⟨next, found, onward⟩

theorem walk_append (ref : String) (node : Value) (names more : List String) :
    walk ref node (names ++ more) = walk ref node names >>= fun v => walk ref v more := by
  induction names generalizing node with
  | nil => rfl
  | cons name rest ih =>
    rw [List.cons_append, walk, walk, bind_assoc]
    exact bind_congr fun v => ih v

/-- On the way from a node one of the steps comes to a list and is no numeral. -/
def Stumbles (ref : String) (node : Value) (names : List String) : Prop :=
  ∃ before name after items, names = before ++ name :: after ∧
    walk ref node before = .ok (.list items) ∧ NoNumeral name

theorem Stumbles.walk_eq (stumbles : Stumbles ref node names) :
    walk ref node names = .error (.misuse .unreadable) := by
  obtain ⟨before, name, after, items, rfl, reached, noNumeral⟩ := stumbles
  rw [walk_append, reached]
  change walk ref (.list items) (name :: after) = _
  rw [walk, step_of_noNumeral noNumeral]
  rfl

theorem Stumbles.cons {next : Value} (first : step ref node name = .ok next)
    (stumbles : Stumbles ref next names) : Stumbles ref node (name :: names) := by
  obtain ⟨before, other, after, items, rfl, reached, noNumeral⟩ := stumbles
  refine ⟨name :: before, other, after, items, rfl, ?_, noNumeral⟩
  rw [walk]
  exact bind_eq_ok.mpr ⟨next, first, reached⟩

/-- Several steps lead to a node below, or nowhere, or they stumble. -/
theorem walk_cases (ref : String) (node : Value) (names : List String) :
    (∃ v path, walk ref node names = .ok v ∧ path.length = names.length ∧
      nodeAt? node path = some v) ∨
    walk ref node names = .error (.reference ref .missing) ∨ Stumbles ref node names := by
  induction names generalizing node with
  | nil => exact Or.inl ⟨node, [], rfl, rfl, by cases node <;> rfl⟩
  | cons name rest ih =>
    rcases step_cases ref node name with ⟨next, s, first, below⟩ | missing |
      ⟨items, rfl, noNumeral⟩
    · have onward : walk ref node (name :: rest) = walk ref next rest := by
        rw [walk, first]
        rfl
      rw [onward, List.length_cons]
      rcases ih next with ⟨v, path, reached, length, leads⟩ | missing | stumbles
      · refine Or.inl ⟨v, s :: path, reached, ?_, nodeAt?_cons below leads⟩
        rw [List.length_cons, length]
      · exact Or.inr (Or.inl missing)
      · exact Or.inr (Or.inr (stumbles.cons first))
    · refine Or.inr (Or.inl ?_)
      rw [walk, missing]
      rfl
    · exact Or.inr (Or.inr ⟨[], name, rest, items, rfl, rfl, noNumeral⟩)

end Steps

/-- A reference leads to a node of the document, or, if it has no steps, to an empty object. -/
def LeadsToNode (document : Value) (ref : String) : Prop :=
  ∃ v, resolve document ref = .ok v ∧
    (steps? ref = some [] ∧ v = .object [] ∨
      ∃ path, path ≠ [] ∧ nodeAt? document path = some v)

def Reported (document : Value) (ref : String) : Prop :=
  ∃ fault, resolve document ref = .error (.reference ref fault)

/-- The steps of a reference stumble on the way from the document. -/
def Misread (document : Value) (ref : String) : Prop :=
  ∃ names, steps? ref = some names ∧ Stumbles ref document names

section Resolve

variable {document : Value} {ref : String}

theorem Misread.resolve_eq (misread : Misread document ref) :
    resolve document ref = .error (.misuse .unreadable) := by
  obtain ⟨names, read, stumbles⟩ := misread
  rw [resolve, read]
  cases names with
  | nil =>
    obtain ⟨before, name, after, items, split, -⟩ := stumbles
    simp at split
  | cons name rest => exact stumbles.walk_eq

/-- A reference leads to a node, is reported as one that does not resolve, or is misread. -/
theorem resolve_cases (document : Value) (ref : String) :
    LeadsToNode document ref ∨ Reported document ref ∨ Misread document ref := by
  cases read : steps? ref with
  | none => exact Or.inr (Or.inl ⟨.notLocal, by rw [resolve, read]⟩)
  | some names =>
    cases names with
    | nil => exact Or.inl ⟨.object [], by rw [resolve, read], Or.inl ⟨read, rfl⟩⟩
    | cons name rest =>
      have walked : resolve document ref = walk ref document (name :: rest) := by
        rw [resolve, read]
      rcases walk_cases ref document (name :: rest) with
        ⟨v, path, reached, length, leads⟩ | missing | stumbles
      · refine Or.inl ⟨v, walked.trans reached, Or.inr ⟨path, ?_, leads⟩⟩
        rintro rfl
        cases length
      · exact Or.inr (Or.inl ⟨.missing, walked.trans missing⟩)
      · exact Or.inr (Or.inr ⟨name :: rest, read, stumbles⟩)

theorem Reported.not_resolves (reported : Reported document ref) : ¬Resolves document ref := by
  obtain ⟨fault, failure⟩ := reported
  rintro ⟨v, leads⟩
  rw [failure] at leads
  cases leads

theorem Reported.not_misread (reported : Reported document ref) : ¬Misread document ref := by
  obtain ⟨fault, failure⟩ := reported
  intro misread
  rw [misread.resolve_eq] at failure
  cases failure

theorem reported_iff :
    Reported document ref ↔ ¬Resolves document ref ∧ ¬Misread document ref := by
  constructor
  · exact fun reported => ⟨reported.not_resolves, reported.not_misread⟩
  · rintro ⟨dangling, read⟩
    rcases resolve_cases document ref with ⟨v, leads, -⟩ | reported | misread
    · exact absurd ⟨v, leads⟩ dangling
    · exact reported
    · exact absurd misread read

end Resolve

mutual

/-- The references that are checked in a value, in order. -/
def visited : Value → List String
  | .scalar _ => []
  | .list items => visitedInItems items
  | .object fields => (target? fields).toList ++ visitedInFields fields

/-- The references that are checked in the items of a list, the last item first. -/
def visitedInItems : List Value → List String
  | [] => []
  | v :: rest => visitedInItems rest ++ visited v

/-- The references that are checked in the entries of an object, the last entry first. -/
def visitedInFields : List (Scalar × Value) → List String
  | [] => []
  | (key, v) :: rest =>
    visitedInFields rest ++ if key = .text "$ref" then [] else visited v

end

mutual

theorem visited_subset : ∀ v : Value, visited v ⊆ targets v
  | .scalar _ => List.Subset.refl _
  | .list items => by
    rw [visited, targets]
    exact visitedInItems_subset items
  | .object fields => by
    rw [visited, targets]
    exact List.append_subset.mpr ⟨List.subset_append_left _ _,
      List.subset_append_of_subset_right _ (visitedInFields_subset fields)⟩

theorem visitedInItems_subset : ∀ items : List Value, visitedInItems items ⊆ targetsOfItems items
  | [] => List.Subset.refl _
  | v :: rest => by
    rw [visitedInItems, targetsOfItems]
    exact List.append_subset.mpr ⟨List.subset_append_of_subset_right _ (visitedInItems_subset rest),
      List.subset_append_of_subset_left _ (visited_subset v)⟩

theorem visitedInFields_subset : ∀ fields : List (Scalar × Value),
    visitedInFields fields ⊆ targetsOfFields fields
  | [] => List.Subset.refl _
  | (key, v) :: rest => by
    rw [visitedInFields, targetsOfFields]
    refine List.append_subset.mpr
      ⟨List.subset_append_of_subset_right _ (visitedInFields_subset rest), ?_⟩
    split
    · exact List.nil_subset _
    · exact List.subset_append_of_subset_left _ (visited_subset v)

end

section Check

variable {document : Value}

/-- The references are resolved one after another, and counted. -/
def resolveAll (document : Value) (refs : List String) : Outcome Nat :=
  (refs.mapM (resolve document)).map List.length

theorem resolveAll_append (refs more : List String) :
    resolveAll document (refs ++ more) = (do
      let first ← resolveAll document refs
      return first + (← resolveAll document more)) := by
  unfold resolveAll
  rw [List.mapM_append]
  cases refs.mapM (resolve document) with
  | error e => rfl
  | ok vs =>
    cases more.mapM (resolve document) with
    | error e => rfl
    | ok ws => simp [Except.map, bind, Except.bind, pure, Except.pure]

-- The recursion is that of `check`, one case for each of its equations.
mutual

/-- The check resolves the references in the order in which it meets them, and counts them. -/
theorem check_eq_resolveAll : ∀ v : Value, check document v = resolveAll document (visited v)
  | .scalar _ => rfl
  | .list items => by
    rw [check, visited]
    exact checkItems_eq_resolveAll items
  | .object fields => by
    rw [check, visited, resolveAll_append, ← checkFields_eq_resolveAll fields]
    cases target? fields with
    | none => rfl
    | some ref =>
      rw [Option.toList_some, resolveAll, List.mapM_cons, List.mapM_nil]
      dsimp only
      cases resolve document ref <;> rfl

theorem checkItems_eq_resolveAll : ∀ items : List Value,
    checkItems document items = resolveAll document (visitedInItems items)
  | [] => rfl
  | v :: rest => by
    rw [checkItems, visitedInItems, resolveAll_append, ← checkItems_eq_resolveAll rest,
      ← check_eq_resolveAll v]
    refine bind_congr fun others => bind_congr fun own => ?_
    rw [Nat.add_comm]

theorem checkFields_eq_resolveAll : ∀ fields : List (Scalar × Value),
    checkFields document fields = resolveAll document (visitedInFields fields)
  | [] => rfl
  | (key, v) :: rest => by
    rw [checkFields, visitedInFields, resolveAll_append, ← checkFields_eq_resolveAll rest]
    refine bind_congr fun others => ?_
    by_cases special : key = .text "$ref"
    · rw [if_pos special, if_pos special]
      rfl
    · rw [if_neg special, if_neg special, ← check_eq_resolveAll v]
      refine bind_congr fun own => ?_
      rw [Nat.add_comm]

end

/-- The check of a document fails with the failure of the first reference it meets that has one. -/
theorem checkAll_eq_error {e : Failure} : checkAll document = .error e ↔
    ∃ before ref after, visited document = before ++ ref :: after ∧
      (∀ earlier ∈ before, Resolves document earlier) ∧ resolve document ref = .error e := by
  have failed : checkAll document = .error e ↔
      (visited document).mapM (resolve document) = .error e := by
    rw [checkAll, check_eq_resolveAll, resolveAll]
    cases (visited document).mapM (resolve document) <;> simp [Except.map]
  rw [failed, mapM_eq_error]
  rfl

end Check

/-- Each reference of a document either leads to a node of the document or is reported as one that
does not resolve, unless it is misread. And if one of them leads nowhere, the check of the document
reports one, exactly if the first that fails, in the order in which they are checked, is none that
is misread. -/
theorem unresolved_reported_iff (document : Value) :
    (∀ ref, LeadsToNode document ref ∨ Reported document ref ↔ ¬Misread document ref) ∧
    (((∃ ref ∈ targets document, ¬Resolves document ref) →
        ∃ ref ∈ targets document, ∃ fault,
          checkAll document = .error (.reference ref fault)) ↔
      (∀ ref ∈ targets document, Resolves document ref) ∨
      ∃ before ref after, visited document = before ++ ref :: after ∧
        (∀ earlier ∈ before, Resolves document earlier) ∧
        ¬Resolves document ref ∧ ¬Misread document ref) := by
  refine ⟨fun ref => ⟨?_, ?_⟩, ?_, ?_⟩
  · rintro (⟨v, leads, -⟩ | reported)
    · intro misread
      rw [misread.resolve_eq] at leads
      cases leads
    · exact reported.not_misread
  · intro read
    rcases resolve_cases document ref with leads | reported | misread
    · exact Or.inl leads
    · exact Or.inr reported
    · exact absurd misread read
  · intro reports
    by_cases all : ∀ ref ∈ targets document, Resolves document ref
    · exact Or.inl all
    · simp only [not_forall, exists_prop] at all
      obtain ⟨shown, -, fault, failure⟩ := reports all
      obtain ⟨before, ref, after, split, passed, own⟩ := checkAll_eq_error.mp failure
      have reported : Reported document ref := by
        rcases resolve_cases document ref with ⟨v, leads, -⟩ | reported | misread
        · rw [own] at leads
          cases leads
        · exact reported
        · rw [misread.resolve_eq] at own
          cases own
      exact Or.inr ⟨before, ref, after, split, passed, reported_iff.mp reported⟩
  · rintro (all | ⟨before, ref, after, split, passed, dangling, read⟩) ⟨bad, member, nowhere⟩
    · exact absurd (all bad member) nowhere
    · obtain ⟨fault, failure⟩ := reported_iff.mpr ⟨dangling, read⟩
      have met : ref ∈ visited document := by simp [split]
      exact ⟨ref, visited_subset document met, fault,
        checkAll_eq_error.mpr ⟨before, ref, after, split, passed, failure⟩⟩

def superscriptDocument : Value :=
  .object [
    (.text "definitions", .object [(.text "Pet", .object [(.text "$ref", .text "#/tags/²")])]),
    (.text "tags", .list [.object [(.text "name", .text "pet")]])]

/-- A superscript is a digit without a decimal value: the reference neither leads to a node nor is
reported, and the check of the document fails in another way. -/
theorem superscript_misread :
    ¬LeadsToNode superscriptDocument "#/tags/²" ∧ ¬Reported superscriptDocument "#/tags/²" ∧
    "#/tags/²" ∈ targets superscriptDocument ∧
    checkAll superscriptDocument = .error (.misuse .unreadable) := by
  have failure : resolve superscriptDocument "#/tags/²" = .error (.misuse .unreadable) := by cbv
  refine ⟨?_, ?_, by decide, by cbv⟩
  · rintro ⟨v, leads, -⟩
    rw [failure] at leads
    cases leads
  · rintro ⟨fault, reported⟩
    rw [failure] at reported
    cases reported

end Reference

end ClientGen
