import ClientGen.Proofs.ModelTable

/-!
# Closed model tables

A model table is closed when what its models depend on or extend are models of the table, under
the same spelling, and when the models behind the types of a model are among its dependencies.
The model table of every document is closed, and so is the part of it that the pruning keeps.
-/
namespace ClientGen

def Model.Knows (m d : Model) : Prop :=
  d.className = m.className ∨ d.className ∈ m.dependencies

structure Closed (models : Table Model) : Prop where
  keyed : Keyed models
  dependency : ∀ key m, models.get? key = some m → ∀ name ∈ m.dependencies,
    ∃ d, models.get? (Naming.key name) = some d ∧ d.className = name
  distinct : ∀ key m, models.get? key = some m → (m.dependencies.map Naming.key).Nodup
  parent : ∀ key m, models.get? key = some m → ∀ name ∈ m.parents,
    ∃ d, models.get? (Naming.key name) = some d ∧ d.className = name ∧ m.Knows d
  named : ∀ key m, models.get? key = some m → ∀ t ∈ Models.typesOf m,
    ∀ name ∈ t.dependencyNames, ∀ d, models.get? (Dependencies.keyOf name) = some d → m.Knows d

namespace Models

variable {config : Config} {definitions : Fields} {added linked : Table Model}

def namesOf (m : Model) : List String := (candidatesOf m).flatMap Dependencies.Candidate.names

/-- The names that a model depends on: its parents, then those in its types. -/
theorem namesOf_eq (m : Model) :
    namesOf m = m.parents ++ (typesOf m).flatMap TypeExpr.dependencyNames := by
  have parents : (m.parents.map Dependencies.Candidate.name).flatMap
      Dependencies.Candidate.names = m.parents := by
    rw [List.flatMap_map]
    exact List.flatMap_singleton' _
  rw [namesOf, candidatesOf, List.flatMap_append, parents, List.flatMap_map]
  rfl

theorem ownerKey_eq_some {name key : String}
    (owned : Dependencies.ownerKey (some name) = some key) : Naming.key name = key := by
  unfold Dependencies.ownerKey at owned
  split at owned
  · cases owned
  · rename_i same
    rw [Option.some.injEq] at same owned
    rw [same, owned]
  · cases owned

/-- The model that a name leads to is the owner, or it is collected. -/
theorem knows_of_name (keyed : Keyed linked) {key : String} {m d : Model}
    (present : linked.get? key = some m) {name : String} (used : name ∈ namesOf m)
    (found : linked.get? (Dependencies.keyOf name) = some d) :
    d.className = m.className ∨ d.className ∈ dependenciesOf linked m := by
  by_cases own : Dependencies.ownerKey (some m.className) = some (Dependencies.keyOf name)
  · left
    rw [← ownerKey_eq_some own, keyed key m present, present] at found
    cases found
    rfl
  · right
    have collected := Dependencies.collected_of_candidates keyed (some m.className)
      (candidatesOf m)
    exact collected.complete name used d found own

/-- The types that a model is written with are looked at, but for a scalar that it names. -/
theorem mem_typesOf {m : Model} {t : TypeExpr} (member : t ∈ m.body.types)
    (compound : ∀ u, m.body = .simple u → u.isCompound = true) : t ∈ typesOf m := by
  unfold typesOf
  cases body : m.body with
  | object parents properties additional =>
    rw [body] at member
    exact member
  | enum constants =>
    rw [body] at member
    exact member
  | array element =>
    rw [body] at member
    exact member
  | simple type =>
    rw [body] at member
    dsimp only
    rw [if_pos (compound type body)]
    exact member
  | union type =>
    rw [body] at member
    exact member

/-- Giving a linked table its dependencies changes nothing else. -/
theorem get?_withDependencies {key : String} {m : Model} :
    (withDependencies linked).get? key = some m ↔
      ∃ bare, linked.get? key = some bare ∧
        m = { bare with dependencies := dependenciesOf linked bare } := by
  rw [withDependencies, Table.get?_map, Option.map_eq_some_iff]
  simp only [eq_comm]

/-- Filed models are keyed and have no subclasses, so their table is linked as it tells. -/
theorem link_of_fileAll {filed : Table Model}
    (built : fileAll config .empty definitions = .ok filed) : link filed = linkedTable filed := by
  refine link_eq_linkedTable (fun key m present => (readFrom_fileAll built present).filed) ?_
  intro m member
  obtain ⟨key, present⟩ := Table.mem_values.mp member
  obtain ⟨name, schema, -, read⟩ := ofDefinition_of_fileAll built present
  obtain ⟨d, -, rfl⟩ := Model.ofDefinition_eq_ok.mp read
  rfl

/-- The model table is built by filing, linking and collecting the dependencies. -/
theorem ofDefinitions_eq_ok {definitions : Value} {models : Table Model} :
    (ofDefinitions config definitions).outcome = .ok models ↔
      ∃ fields filed linked, definitions = .object fields ∧
        fileAll config .empty fields = .ok filed ∧ linkedTable filed = .ok linked ∧
        models = withDependencies linked := by
  unfold ofDefinitions
  constructor
  · intro success
    obtain ⟨fields, object, success⟩ := Logged.outcome_bind_eq_ok.mp success
    obtain ⟨filed, built, success⟩ := Logged.outcome_bind_eq_ok.mp success
    obtain ⟨linked, linking, success⟩ := Logged.outcome_bind_eq_ok.mp success
    cases success
    rw [outcome_addDefinitions] at built
    change link filed = .ok linked at linking
    rw [link_of_fileAll built] at linking
    exact ⟨fields, filed, linked, Value.asFields_eq_ok.mp object, built, linking, rfl⟩
  · rintro ⟨fields, filed, linked, object, built, linking, rfl⟩
    rw [← link_of_fileAll built] at linking
    rw [← outcome_addDefinitions] at built
    refine Logged.outcome_bind_eq_ok.mpr ⟨fields, Value.asFields_eq_ok.mpr object, ?_⟩
    refine Logged.outcome_bind_eq_ok.mpr ⟨filed, built, ?_⟩
    exact Logged.outcome_bind_eq_ok.mpr ⟨linked, linking, rfl⟩

/-- Each model of the table is read from the definition behind its key. -/
theorem readFrom_ofDefinitions {models : Table Model}
    (success : (ofDefinitions config (.object definitions)).outcome = .ok models) {key : String}
    {m : Model} (present : models.get? key = some m) : ReadFrom definitions key m := by
  obtain ⟨fields, added, linked, same, built, linking, rfl⟩ := ofDefinitions_eq_ok.mp success
  cases same
  obtain ⟨bare, found, rfl⟩ := get?_withDependencies.mp present
  obtain ⟨name, schema, body, parents, read⟩ := readFrom_linkedTable built linking found
  exact ⟨name, schema, body, parents, read⟩

/-- There is a model for every definition that is an object. -/
theorem exists_get?_ofDefinitions {models : Table Model}
    (success : (ofDefinitions config (.object definitions)).outcome = .ok models) {name : String}
    {schema : Fields} (member : (.text name, .object schema) ∈ definitions) :
    ∃ m, models.get? (Naming.key (Naming.className name)) = some m := by
  obtain ⟨fields, added, linked, same, built, linking, rfl⟩ := ofDefinitions_eq_ok.mp success
  cases same
  obtain ⟨⟨last, schema⟩, behind⟩ := definitionOf_isSome member
  obtain ⟨m, -, here⟩ := (get?_fileAll built _).1 last schema behind
  obtain ⟨bare, there⟩ := get?_linkedTable linking here
  exact ⟨_, get?_withDependencies.mpr ⟨bare, there, rfl⟩⟩

/-- The model table of a document is closed. -/
theorem closed_ofDefinitions {definitions : Value} {models : Table Model}
    (success : (ofDefinitions config definitions).outcome = .ok models) : Closed models := by
  obtain ⟨fields, added, linked, rfl, built, linking, rfl⟩ := ofDefinitions_eq_ok.mp success
  have read : ∀ key m, linked.get? key = some m → ReadFrom fields key m :=
    fun key m present => readFrom_linkedTable built linking present
  have keyed : Keyed linked := fun key m present => (read key m present).filed
  have collected (m : Model) := Dependencies.collected_of_candidates keyed (some m.className)
    (candidatesOf m)
  -- a model of the linked table is in the final one, under the same name
  have kept : ∀ key m, linked.get? key = some m → ∃ d,
      (withDependencies linked).get? key = some d ∧ d.className = m.className :=
    fun key m present => ⟨_, get?_withDependencies.mpr ⟨m, present, rfl⟩, rfl⟩
  refine ⟨?_, ?_, ?_, ?_, ?_⟩
  · intro key m present
    obtain ⟨bare, found, rfl⟩ := get?_withDependencies.mp present
    exact keyed key bare found
  · intro key m present name depends
    obtain ⟨bare, found, rfl⟩ := get?_withDependencies.mp present
    obtain ⟨d, there, rfl⟩ := (collected bare).model name depends
    exact kept _ d there
  · intro key m present
    obtain ⟨bare, found, rfl⟩ := get?_withDependencies.mp present
    exact (collected bare).distinct
  · intro key m present name extends_name
    obtain ⟨bare, found, rfl⟩ := get?_withDependencies.mp present
    obtain ⟨d, there, rfl⟩ := parents_linkedTable built linking found extends_name
    obtain ⟨final, here, same⟩ := kept _ d there
    refine ⟨final, here, same, ?_⟩
    have stripped : Dependencies.keyOf d.className = Naming.key d.className :=
      congrArg Naming.key (read _ d there).strip_className
    have used : d.className ∈ namesOf bare := namesOf_eq bare ▸ List.mem_append_left _ extends_name
    have known := knows_of_name keyed found used (stripped ▸ there)
    rw [← same] at known
    exact known
  · intro key m present t written name used d found
    obtain ⟨bare, here, rfl⟩ := get?_withDependencies.mp present
    obtain ⟨target, there, rfl⟩ := get?_withDependencies.mp found
    have among : name ∈ namesOf bare :=
      namesOf_eq bare ▸ List.mem_append_right _ (List.mem_flatMap.mpr ⟨t, written, used⟩)
    have known := knows_of_name keyed here among there
    exact known

end Models

end ClientGen
