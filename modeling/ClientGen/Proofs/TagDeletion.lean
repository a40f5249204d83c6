import ClientGen.Proofs.Compilation
import ClientGen.Proofs.DistinctKeys
import ClientGen.Proofs.SharedReferences
import ClientGen.Proofs.Tables

/-!
# Deleting operations from a document

The operations whose service a configuration filters out can be deleted from the paths of the
document. Everything else stays in place: a document without references into its paths resolves its
references as before, so what is left of it still passes the check of its references.
-/
namespace ClientGen

namespace Fields

theorem get?_map (f : Scalar → Value → Value) (fields : Fields) (key : String) :
    Fields.get? (fields.map fun (k, v) => (k, f k v)) key =
      (fields.get? key).map (f (.text key)) :=
  Table.lookup_map_value f (.text key) fields

theorem get?_filter {fields : Fields} (distinct : (fields.map Prod.fst).Nodup)
    (p : Scalar × Value → Bool) (key : String) :
    Fields.get? (fields.filter p) key = (fields.get? key).filter fun v => p (.text key, v) :=
  Table.lookup_filter distinct p (.text key)

theorem mem_of_get {fields : Fields} {key : String} {v : Value} (found : fields.get key = v)
    (there : v ≠ .null) : (.text key, v) ∈ fields := by
  have present := get?_of_get_ne_null (found ▸ there)
  rw [found] at present
  obtain ⟨before, after, same, -⟩ := List.lookup_eq_some_iff.mp present
  rw [same]
  simp

/-- An object that may be missing stands under its key, or it is empty. -/
theorem eq_nil_or_mem {fields part : Fields} {key : String}
    (given : (fields.get key).orElse (.object []) = .object part) :
    part = [] ∨ (.text key, .object part) ∈ fields := by
  unfold Value.orElse at given
  split at given
  · exact Or.inr (mem_of_get given (by simp))
  · cases given
    exact Or.inl rfl

end Fields

namespace Services

/-- The tag of the service that an operation belongs to, if it can be read. -/
def serviceTag? (config : Config) (definition : Fields) : Option String :=
  (firstTag (definition.get "tags")).toOption.map fun first =>
    Naming.tagName first config.defaultTag

/-- Whether an entry of a path is an operation of a service that is filtered out. -/
def isDeleted (config : Config) : Scalar × Value → Bool
  | (.text key, .object definition) =>
    isMethod key && (serviceTag? config definition).any fun tag =>
      !(Api.filterOf config).includes tag
  | _ => false

/-- The entries of a path without the operations of services that are filtered out. -/
def keptEntries (config : Config) (item : Fields) : Fields :=
  item.filter (!isDeleted config ·)

/-- A path without the operations of services that are filtered out. -/
def deleteFromPath (config : Config) : Value → Value
  | .object item => .object (keptEntries config item)
  | v => v

/-- Paths without the operations of services that are filtered out. -/
def deleteFromPaths (config : Config) : Value → Value
  | .object paths => .object (paths.map fun (url, item) => (url, deleteFromPath config item))
  | v => v

/-- An entry of a document without the operations of services that are filtered out. -/
def deleteFromEntry (config : Config) (key : Scalar) (v : Value) : Value :=
  if key = .text "paths" then deleteFromPaths config v else v

/-- The entries of a document without the operations of services that are filtered out. -/
def deleteOperations (config : Config) (fields : Fields) : Fields :=
  fields.map fun (key, v) => (key, deleteFromEntry config key v)

def withoutOperations (config : Config) : Value → Value
  | .object fields => .object (deleteOperations config fields)
  | v => v

def AvoidsPaths (document : Value) : Prop :=
  ∀ ref ∈ Reference.targets document, (Reference.steps? ref).bind List.head? ≠ some "paths"

variable {config : Config} {fields : Fields}

/-- Outside of the paths a document stays as it is. -/
theorem get?_deleteOperations {key : String} (outside : key ≠ "paths") :
    (deleteOperations config fields).get? key = fields.get? key := by
  have same : deleteFromEntry config (.text key) = id := by
    funext v
    exact if_neg fun equal => outside (Scalar.text.inj equal)
  rw [deleteOperations, Fields.get?_map, same, Option.map_id]
  rfl

theorem get_of_ne {key : String} (outside : key ≠ "paths") :
    (deleteOperations config fields).get key = fields.get key := by
  unfold Fields.get
  rw [get?_deleteOperations outside]

theorem get_paths :
    (deleteOperations config fields).get "paths" = deleteFromPaths config (fields.get "paths") := by
  unfold Fields.get
  rw [deleteOperations, Fields.get?_map]
  cases fields.get? "paths" with
  | none => rfl
  | some v => rfl

theorem isSet_deleteFromPaths (v : Value) : (deleteFromPaths config v).isSet = v.isSet := by
  cases v with
  | object paths => cases paths <;> rfl
  | scalar s => rfl
  | list items => rfl

theorem deleteFromPaths_orElse (v : Value) :
    (deleteFromPaths config v).orElse (.object []) =
      deleteFromPaths config (v.orElse (.object [])) := by
  unfold Value.orElse
  rw [isSet_deleteFromPaths]
  split <;> rfl

theorem isDeleted_eq_true {key : Scalar} {v : Value} :
    isDeleted config (key, v) = true ↔
      ∃ method definition tag, key = .text method ∧ v = .object definition ∧
        isMethod method = true ∧ serviceTag? config definition = some tag ∧
        (Api.filterOf config).includes tag = false := by
  constructor
  · intro deleted
    unfold isDeleted at deleted
    split at deleted
    · rename_i method definition equal
      cases equal
      rw [Bool.and_eq_true, Option.any_eq_true] at deleted
      obtain ⟨isMethod, tag, tagged, filtered⟩ := deleted
      exact ⟨method, definition, tag, rfl, rfl, isMethod, tagged, by simpa using filtered⟩
    · cases deleted
  · rintro ⟨method, definition, tag, rfl, rfl, isMethod, tagged, filtered⟩
    simp [isDeleted, isMethod, tagged, filtered]

/-- A path keeps what it holds under a key, unless this is an operation that is deleted. -/
theorem get_keptEntries (distinct : (fields.map Prod.fst).Nodup) (key : String) :
    (keptEntries config fields).get key = fields.get key ∨
      (isMethod key = true ∧ (∃ definition, fields.get key = .object definition) ∧
        (keptEntries config fields).get key = .null) := by
  unfold Fields.get
  rw [keptEntries, Fields.get?_filter distinct]
  cases fields.get? key with
  | none => exact Or.inl rfl
  | some v =>
    cases deleted : isDeleted config (.text key, v) with
    | false => exact Or.inl (by simp [Option.filter, deleted])
    | true =>
      obtain ⟨method, definition, -, same, rfl, isMethod, -, -⟩ := isDeleted_eq_true.mp deleted
      cases same
      exact Or.inr ⟨isMethod, ⟨definition, rfl⟩, by simp [Option.filter, deleted]⟩

section References

open Reference

/-- A reference that does not lead into the paths leads where it led before. -/
theorem shares_deleteOperations (avoids : AvoidsPaths (.object fields)) :
    Shares (.object fields) (.object (deleteOperations config fields)) := by
  intro ref member
  have outside := avoids ref member
  unfold resolve
  cases steps : steps? ref with
  | none => rfl
  | some names =>
    cases names with
    | nil => rfl
    | cons name rest =>
      have other : name ≠ "paths" := by
        rintro rfl
        simp [steps] at outside
      simp only [walk, step, get?_deleteOperations other]

theorem target?_map {f : Scalar → Value → Value} (texts : ∀ k v, (f k v).text? = v.text?) :
    target? (fields.map fun (k, v) => (k, f k v)) = target? fields := by
  unfold target? Fields.get
  rw [Fields.get?_map]
  cases fields.get? "$ref" with
  | none => rfl
  | some v => exact texts _ v

theorem target?_keptEntries (distinct : (fields.map Prod.fst).Nodup) :
    target? (keptEntries config fields) = target? fields := by
  unfold target?
  rcases get_keptEntries distinct "$ref" with same | ⟨-, ⟨definition, held⟩, deleted⟩
  · rw [same]
  · rw [held, deleted]
    rfl

theorem text?_deleteFromPath (v : Value) : (deleteFromPath config v).text? = v.text? := by
  cases v <;> rfl

theorem text?_deleteFromEntry (key : Scalar) (v : Value) :
    (deleteFromEntry config key v).text? = v.text? := by
  unfold deleteFromEntry
  split
  · cases v <;> rfl
  · rfl

section Checked

variable {document other v : Value} (shares : Shares document other) (distinct : v.Distinct)
  (inside : targets v ⊆ targets document) (checks : Checks document v)
include shares distinct inside checks

theorem checks_deleteFromPath : Checks other (deleteFromPath config v) := by
  cases v with
  | scalar s => exact checks.shared shares inside
  | list items => exact checks.shared shares inside
  | object item =>
    obtain ⟨own, each⟩ := checks_object.mp checks
    refine checks_object.mpr ⟨?_, ?_⟩
    · intro ref found
      rw [target?_keptEntries distinct.keys] at found
      obtain ⟨w, leads⟩ := own ref found
      exact ⟨w, (shares ref (inside (target_mem found))).trans leads⟩
    · intro key w member ordinary
      have among := List.mem_of_mem_filter member
      exact (each key w among ordinary).shared shares (targets_of_mem inside among)

theorem checks_deleteFromPaths : Checks other (deleteFromPaths config v) := by
  cases v with
  | scalar s => exact checks.shared shares inside
  | list items => exact checks.shared shares inside
  | object paths =>
    obtain ⟨own, each⟩ := checks_object.mp checks
    refine checks_object.mpr ⟨?_, ?_⟩
    · intro ref found
      rw [target?_map fun _ => text?_deleteFromPath] at found
      obtain ⟨w, leads⟩ := own ref found
      exact ⟨w, (shares ref (inside (target_mem found))).trans leads⟩
    · intro key w member ordinary
      obtain ⟨⟨url, item⟩, among, same⟩ := List.mem_map.mp member
      cases same
      exact checks_deleteFromPath shares (distinct.of_mem among)
        (targets_of_mem inside among) (each key item among ordinary)

end Checked

/-- The references of a document still resolve when it loses operations. -/
theorem checks_deleteOperations (avoids : AvoidsPaths (.object fields))
    (distinct : Value.Distinct (.object fields))
    (checks : Checks (.object fields) (.object fields)) :
    Checks (.object (deleteOperations config fields))
      (.object (deleteOperations config fields)) := by
  have shares := @shares_deleteOperations config fields avoids
  obtain ⟨own, each⟩ := checks_object.mp checks
  refine checks_object.mpr ⟨?_, ?_⟩
  · intro ref found
    rw [deleteOperations, target?_map text?_deleteFromEntry] at found
    obtain ⟨v, leads⟩ := own ref found
    exact ⟨v, (shares ref (target_mem found)).trans leads⟩
  · intro key w member ordinary
    obtain ⟨⟨k, v⟩, among, same⟩ := List.mem_map.mp member
    cases same
    have passes := each key v among ordinary
    have within := targets_of_mem (List.Subset.refl _) among
    unfold deleteFromEntry
    split
    · exact checks_deleteFromPaths shares (distinct.of_mem among) within passes
    · exact passes.shared shares within

end References

end Services

end ClientGen
