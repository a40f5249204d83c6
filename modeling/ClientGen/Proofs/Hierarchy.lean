import Mathlib
import ClientGen.Proofs.ClosedModels

/-!
# The hierarchy of a model table

Parents and subclasses are two sides of one relation: a class is listed among the subclasses of a
model exactly if that model is among the parents of the class (`Hierarchy.linked`). Linking reads
both sides off the parents that the definitions name, each under its key. It fails exactly if one of
them is not in the table (`linkedTable_cases`), and then it tells which model names which parent.
-/
namespace ClientGen

structure Hierarchy (models : Table Model) : Prop where
  linked : ∀ s ∈ models.values, ∀ p ∈ models.values,
    s.className ∈ p.subclasses ↔ p.className ∈ s.parents
  parent : ∀ m ∈ models.values, ∀ name ∈ m.parents, ∃ d ∈ models.values, d.className = name
  subclass : ∀ m ∈ models.values, ∀ name ∈ m.subclasses, ∃ d ∈ models.values, d.className = name
  distinct : ∀ m ∈ models.values, m.subclasses.Nodup
  interface : ∀ m ∈ models.values, m.parents ≠ [] → m.kind = .object

/-- A model is found by its class name, which is that of no other model. -/
theorem Keyed.eq_of_className {models : Table Model} (keyed : Keyed models) {m d : Model}
    (member : m ∈ models.values) (among : d ∈ models.values) (same : m.className = d.className) :
    m = d := by
  obtain ⟨key, present⟩ := Table.mem_values.mp member
  obtain ⟨other, found⟩ := Table.mem_values.mp among
  rw [← keyed key m present, same, keyed other d found, found] at present
  cases present
  rfl

/-- No two models of a table have the same class name. -/
theorem Keyed.nodup_classNames {models : Table Model} (keyed : Keyed models) :
    (models.values.map Model.className).Nodup := by
  have byKey : (models.values.map Model.className).map Naming.key = models.keys := by
    have same : models.values.map (Naming.key ∘ Model.className) = models.keys.map id :=
      Table.map_values fun key m present => keyed key m present
    rw [List.map_map, same, List.map_id]
  have distinct : models.keys.Nodup := models.nodup
  rw [← byKey] at distinct
  exact List.Nodup.of_map _ distinct

namespace Models

/-- The model called `model` names a parent under whose key there is nothing in the table. -/
def ExtendsUnknown (models : Table Model) (model parent : String) : Prop :=
  ∃ m ∈ models.values, m.name = model ∧ m.kind = .object ∧ parent ∈ m.parents ∧
    models.get? (Naming.key parent) = none

section Linking

variable {models : Table Model} {m : Model}

/-- The parents of a model are all found, or the first one that is not is a failure. -/
theorem linkedParents_cases (models : Table Model) (m : Model) :
    (∃ names, linkedParents models m = .ok names) ∨
      ∃ parent ∈ m.parents, models.get? (Naming.key parent) = none ∧
        linkedParents models m = .error (.unknownParent m.name parent) := by
  cases outcome : linkedParents models m with
  | ok names => exact .inl ⟨names, rfl⟩
  | error failure =>
    obtain ⟨before, parent, after, split, -, failed⟩ := mapM_eq_error.mp outcome
    obtain ⟨absent, rfl⟩ := lookupParent_eq_error.mp failed
    exact .inr ⟨parent, split ▸ List.mem_append_cons_self, absent, rfl⟩

/-- What is found for the parents are the class names under their keys. -/
theorem mem_linkedParents {names : List String} (found : linkedParents models m = .ok names)
    {name : String} : name ∈ names ↔
      ∃ parent ∈ m.parents, ∃ d, models.get? (Naming.key parent) = some d ∧ d.className = name := by
  have paired := forall₂_of_mapM_ok found
  constructor
  · intro member
    obtain ⟨parent, among, lookup⟩ := exists_of_forall₂ paired.flip member
    exact ⟨parent, among, lookupParent_eq_ok.mp lookup⟩
  · rintro ⟨parent, among, d, present, rfl⟩
    obtain ⟨name, member, lookup⟩ := exists_of_forall₂ paired among
    rw [lookupParent_eq_ok.mpr ⟨d, present, rfl⟩] at lookup
    cases lookup
    exact member

/-- The subclasses under a key are the models that name a parent with this key. -/
theorem mem_subclassesOf {key name : String} : name ∈ subclassesOf models.values key ↔
    ∃ m ∈ models.values, m.className = name ∧ ∃ parent ∈ m.parents, Naming.key parent = key := by
  simp only [subclassesOf, List.mem_map, List.mem_filter, List.any_eq_true, beq_iff_eq]
  constructor
  · rintro ⟨m, ⟨member, extending⟩, named⟩
    exact ⟨m, member, named, extending⟩
  · rintro ⟨m, member, named, extending⟩
    exact ⟨m, ⟨member, extending⟩, named⟩

/-- The model of an interface takes the linked parents; any other model has none to link. -/
theorem parents_of_linked {names : List String} (subclasses : List String)
    (found : linkedParents models m = .ok names) :
    ((m.withSubclasses subclasses).withParents names).parents = names := by
  obtain ⟨name, className, stem, description, body⟩ := m
  cases body with
  | object parents properties additional => rfl
  | enum constants | array element | simple type | union type =>
    cases found
    rfl

/-- Linking succeeds, or it fails at a model that extends an unknown one. -/
theorem linkedTable_cases (models : Table Model) :
    ((∃ linked, linkedTable models = .ok linked) ∧
        ∀ model parent, ¬ExtendsUnknown models model parent) ∨
      ∃ model parent, ExtendsUnknown models model parent ∧
        linkedTable models = .error (.unknownParent model parent) := by
  unfold linkedTable
  cases passed : models.values.mapM (linkedParents models) with
  | ok names =>
    left
    refine ⟨⟨_, rfl⟩, ?_⟩
    rintro _ parent ⟨m, member, rfl, -, extending, absent⟩
    obtain ⟨names, -, linkable⟩ := exists_of_forall₂ (forall₂_of_mapM_ok passed) member
    obtain ⟨name, -, lookup⟩ := exists_of_forall₂ (forall₂_of_mapM_ok linkable) extending
    obtain ⟨d, present, -⟩ := lookupParent_eq_ok.mp lookup
    rw [absent] at present
    cases present
  | error failure =>
    right
    obtain ⟨before, m, after, split, -, failed⟩ := mapM_eq_error.mp passed
    have member : m ∈ models.values := split ▸ List.mem_append_cons_self
    rcases linkedParents_cases models m with ⟨names, found⟩ | ⟨parent, extending, absent, stopped⟩
    · rw [found] at failed
      cases failed
    · rw [stopped] at failed
      cases failed
      have interface := Model.kind_of_parents (List.ne_nil_of_mem extending)
      exact ⟨m.name, parent, ⟨m, member, rfl, interface, extending, absent⟩, rfl⟩

end Linking

section Build

variable {config : Config} {definitions : Fields} {filed linked : Table Model}

/-- If every definition can be read, all of them are filed. -/
theorem exists_fileAll (read : ∀ name schema, (name, .object schema) ∈ definitions →
      ∃ m, Model.ofDefinition config name schema = .ok m) (models : Table Model) :
    ∃ filed, fileAll config models definitions = .ok filed := by
  induction definitions generalizing models with
  | nil => exact ⟨models, rfl⟩
  | cons entry rest ih =>
    obtain ⟨name, v⟩ := entry
    rw [fileAll]
    refine exists_bind_eq_ok ?_ fun next =>
      ih (fun other schema later => read other schema (List.mem_cons_of_mem _ later)) next
    cases v with
    | object schema =>
      obtain ⟨m, success⟩ := read name schema List.mem_cons_self
      exact ⟨_, bind_eq_ok.mpr ⟨m, success, rfl⟩⟩
    | scalar s => exact ⟨models, rfl⟩
    | list items => exact ⟨models, rfl⟩

/-- A model of the final table is a filed one with linked parents and with the subclasses under its
key. -/
theorem filed_of_mem (built : fileAll config .empty definitions = .ok filed)
    (linking : linkedTable filed = .ok linked) {m : Model}
    (member : m ∈ (withDependencies linked).values) :
    ∃ b ∈ filed.values, m.className = b.className ∧ linkedParents filed b = .ok m.parents ∧
      m.subclasses = subclassesOf filed.values (Naming.key m.className) := by
  obtain ⟨key, present⟩ := Table.mem_values.mp member
  obtain ⟨bare, found, rfl⟩ := get?_withDependencies.mp present
  obtain ⟨b, names, there, linkable, rfl⟩ := linkedTable_ok linking key bare found
  refine ⟨b, Table.mem_values.mpr ⟨key, there⟩, ?_⟩
  have filedUnder : Naming.key b.className = key := (readFrom_fileAll built there).filed
  have own := parents_of_linked (subclassesOf filed.values key) linkable
  rw [Model.withParents_eq] at own ⊢
  exact ⟨rfl, own.symm ▸ linkable, by rw [← filedUnder]; rfl⟩

/-- Every filed model has one of its class in the final table. -/
theorem exists_mem_of_filed (linking : linkedTable filed = .ok linked) {b : Model}
    (member : b ∈ filed.values) :
    ∃ m ∈ (withDependencies linked).values, m.className = b.className := by
  obtain ⟨key, present⟩ := Table.mem_values.mp member
  obtain ⟨bare, found⟩ := get?_linkedTable linking present
  obtain ⟨same, names, there, -, rfl⟩ := linkedTable_ok linking key bare found
  rw [present] at there
  cases there
  have final := get?_withDependencies.mpr ⟨_, found, rfl⟩
  exact ⟨_, Table.mem_values.mpr ⟨key, final⟩, by simp⟩

/-- The parents and the subclasses of the models of a document agree. -/
theorem hierarchy_ofDefinitions {definitions : Value} {models : Table Model}
    (success : (ofDefinitions config definitions).outcome = .ok models) : Hierarchy models := by
  obtain ⟨fields, filed, linked, rfl, built, linking, rfl⟩ := ofDefinitions_eq_ok.mp success
  have keyed : Keyed filed := fun key m present => (readFrom_fileAll built present).filed
  refine ⟨?_, ?_, ?_, ?_, ?_⟩
  · intro s isSub p isParent
    obtain ⟨b, among, sameSub, linkable, -⟩ := filed_of_mem built linking isSub
    obtain ⟨target, there, sameParent, -, subclasses⟩ := filed_of_mem built linking isParent
    rw [subclasses, mem_subclassesOf, mem_linkedParents linkable]
    constructor
    · rintro ⟨m, member, named, parent, extending, equal⟩
      rw [keyed.eq_of_className member among (named.trans sameSub)] at extending
      obtain ⟨key, present⟩ := Table.mem_values.mp there
      refine ⟨parent, extending, target, ?_, sameParent.symm⟩
      rw [equal, sameParent, keyed key target present, present]
    · rintro ⟨parent, extending, d, found, named⟩
      exact ⟨b, among, sameSub.symm, parent, extending, by rw [← named, keyed _ d found]⟩
  · intro m member name extending
    obtain ⟨b, -, -, linkable, -⟩ := filed_of_mem built linking member
    obtain ⟨parent, -, d, found, rfl⟩ := (mem_linkedParents linkable).mp extending
    exact exists_mem_of_filed linking (Table.mem_values.mpr ⟨_, found⟩)
  · intro m member name extended
    obtain ⟨_, -, -, -, subclasses⟩ := filed_of_mem built linking member
    rw [subclasses] at extended
    obtain ⟨b, among, rfl, -⟩ := mem_subclassesOf.mp extended
    exact exists_mem_of_filed linking among
  · intro m member
    obtain ⟨_, -, -, -, subclasses⟩ := filed_of_mem built linking member
    rw [subclasses]
    exact keyed.nodup_classNames.sublist (List.filter_sublist.map Model.className)
  · intro m member extending
    exact Model.kind_of_parents extending

/-- Once the definitions are filed, building the table is linking it. -/
theorem outcome_ofDefinitions (built : fileAll config .empty definitions = .ok filed) :
    (ofDefinitions config (.object definitions)).outcome =
      (linkedTable filed).map withDependencies := by
  rw [← link_of_fileAll built]
  have steps : (ofDefinitions config (.object definitions)).outcome =
      (addDefinitions config .empty definitions).outcome >>= fun added =>
        (link added).map withDependencies := by
    simp only [ofDefinitions, Logged.outcome_bind]
    rfl
  rw [steps, outcome_addDefinitions, built]
  rfl

end Build

/-- In every table that is built the parents and the subclasses agree. If every definition can be
read, the table is built unless an interface extends a model that is not filed, and the failure then
names such an interface and its parent. -/
theorem parents_and_subclasses {config : Config} (definitions : Fields) :
    (∀ models, (ofDefinitions config (.object definitions)).outcome = .ok models →
      Hierarchy models) ∧
    ((∀ name schema, (name, .object schema) ∈ definitions →
        ∃ m, Model.ofDefinition config name schema = .ok m) →
      ∃ filed, fileAll config .empty definitions = .ok filed ∧
        ((∃ model parent, (ofDefinitions config (.object definitions)).outcome =
            .error (.unknownParent model parent)) ↔
          ∃ m ∈ filed.values, m.kind = .object ∧
            ∃ parent ∈ m.parents, filed.get? (Naming.key parent) = none) ∧
        ∀ failure, (ofDefinitions config (.object definitions)).outcome = .error failure →
          ∃ model parent, failure = .unknownParent model parent ∧
            ExtendsUnknown filed model parent) := by
  refine ⟨fun models success => hierarchy_ofDefinitions success, fun read => ?_⟩
  obtain ⟨filed, built⟩ := exists_fileAll read .empty
  refine ⟨filed, built, ?_⟩
  rw [outcome_ofDefinitions built]
  rcases linkedTable_cases filed with ⟨⟨linked, linking⟩, known⟩ | ⟨model, parent, unknown, stopped⟩
  · rw [linking]
    refine ⟨⟨?_, ?_⟩, ?_⟩
    · rintro ⟨model, parent, failed⟩
      cases failed
    · rintro ⟨m, member, interface, parent, extending, absent⟩
      exact absurd ⟨m, member, rfl, interface, extending, absent⟩ (known m.name parent)
    · intro failure failed
      cases failed
  · rw [stopped]
    refine ⟨⟨fun _ => ?_, fun _ => ⟨model, parent, rfl⟩⟩, ?_⟩
    · obtain ⟨m, member, -, interface, extending, absent⟩ := unknown
      exact ⟨m, member, interface, parent, extending, absent⟩
    · intro failure failed
      cases failed
      exact ⟨model, parent, rfl, unknown⟩

def dogSchema (parent : String) : Fields :=
  [(.text "allOf", .list [.object [(.text "$ref", .text (Model.definitionPath parent))]])]

/-- Dogs and pets, the parent of dogs being spelled in upper case. -/
def dogDefinitions : Fields :=
  [(.text "Dog", .object (dogSchema "PET")), (.text "Pet", .object [(.text "type", .text "object")])]

/-- Dogs are pets, and without pets they cannot be linked. -/
theorem parents_and_subclasses_dogs :
    (∃ models, (ofDefinitions {} (.object dogDefinitions)).outcome = .ok models ∧
      models.values.map Model.subclasses = [[], ["Dog"]] ∧ Hierarchy models) ∧
    ∃ filed, fileAll {} .empty [(.text "Dog", .object (dogSchema "Pet"))] = .ok filed ∧
      ∃ model parent,
        (ofDefinitions {} (.object [(.text "Dog", .object (dogSchema "Pet"))])).outcome =
          .error (.unknownParent model parent) := by
  constructor
  · obtain ⟨models, built, subclasses⟩ : ∃ models,
        (ofDefinitions {} (.object dogDefinitions)).outcome = .ok models ∧
        models.values.map Model.subclasses = [[], ["Dog"]] :=
      ⟨_, by cbv, by cbv⟩
    exact ⟨models, built, subclasses, (parents_and_subclasses dogDefinitions).1 models built⟩
  · have read : ∀ name schema,
        (name, .object schema) ∈ [((.text "Dog" : Scalar), Value.object (dogSchema "Pet"))] →
        ∃ m, Model.ofDefinition {} name schema = .ok m := by
      intro name schema member
      cases List.mem_singleton.mp member
      exact ⟨_, by cbv⟩
    obtain ⟨filed, built, unknown, -⟩ := (parents_and_subclasses _).2 read
    refine ⟨filed, built, unknown.mpr ?_⟩
    obtain ⟨same, builtSame, dog, isDog, extending, absent⟩ : ∃ same,
        fileAll {} .empty [(.text "Dog", .object (dogSchema "Pet"))] = .ok same ∧
        ∃ dog, same.get? "dog" = some dog ∧ dog.body = .object ["Pet"] [] none ∧
          same.get? "pet" = none :=
      ⟨_, by cbv, _, by cbv, by cbv, by cbv⟩
    rw [built] at builtSame
    cases builtSame
    refine ⟨dog, Table.mem_values.mpr ⟨_, isDog⟩, by rw [Model.kind, extending], "Pet", ?_, ?_⟩
    · rw [Model.parents, extending]
      exact List.mem_singleton_self _
    · have key : Naming.key "Pet" = "pet" := by cbv
      rw [key, absent]

end Models

end ClientGen
