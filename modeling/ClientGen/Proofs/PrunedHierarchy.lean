import ClientGen.Proofs.Hierarchy
import ClientGen.Proofs.Pruning

/-!
# The hierarchy after the pruning

A model keeps the list of its subclasses when unused models are dropped. As a subclass is no
dependency of its parent, it can be dropped while the parent is kept. So the hierarchy of a compiled
document is closed exactly if whatever extends a reachable model is reachable as well
(`compile_hierarchy_iff`).
-/
namespace ClientGen

def Reachable.ReachesSubclasses (models : Table Model) (classes : List String) : Prop :=
  ∀ p ∈ models.values, Reaches models classes (Naming.key p.className) →
    ∀ name ∈ p.subclasses, Reaches models classes (Naming.key name)

namespace Api

/-- Every subclass of a model is that of a model that has it as a parent. -/
def HierarchyClosed (api : Api) : Prop :=
  ∀ m ∈ api.models.values, ∀ name ∈ m.subclasses,
    ∃ d ∈ api.models.values, d.className = name ∧ m.className ∈ d.parents

section Given

variable {config : Config} {document : Value} {fields : Fields} {models : Table Model}
  {services : Table Service} {finished : Table Model} {api : Api}

/-- The kept models are given out, with their classes and their places in the hierarchy. -/
theorem exists_final (stages : Stages config document fields models services finished api)
    {m : Model}
    (kept : m ∈ (keptModels config models services).values) :
    ∃ final ∈ api.models.values, final.className = m.className ∧ final.parents = m.parents ∧
      final.subclasses = m.subclasses := by
  obtain ⟨key, present⟩ := Table.mem_values.mp kept
  obtain ⟨final, given, finishes⟩ := stages.model_of_kept present
  refine ⟨final, Table.mem_values.mpr ⟨key, given⟩, ?_⟩
  rw [finishes]
  exact ⟨rfl, rfl, rfl⟩

/-- Nothing but kept models is given out. -/
theorem exists_kept (stages : Stages config document fields models services finished api)
    {final : Model} (given : final ∈ api.models.values) :
    ∃ m ∈ (keptModels config models services).values, final.className = m.className ∧
      final.parents = m.parents ∧ final.subclasses = m.subclasses := by
  obtain ⟨key, present⟩ := Table.mem_values.mp given
  obtain ⟨m, kept, finishes⟩ := stages.kept_of_model present
  refine ⟨m, Table.mem_values.mpr ⟨key, kept⟩, ?_⟩
  rw [finishes]
  exact ⟨rfl, rfl, rfl⟩

/-- The kept models are those of the table that are reachable, if unused models are dropped. -/
theorem mem_keptModels (keyed : Keyed models) {m : Model} :
    m ∈ (keptModels config models services).values ↔
      m ∈ models.values ∧ (config.ignoreUnusedModels = true →
        Reachable.Reaches models
          (TagFilter.usedClasses ((filterOf config).services services))
          (Naming.key m.className)) := by
  constructor
  · intro kept
    obtain ⟨key, present⟩ := Table.mem_values.mp kept
    obtain ⟨here, reached⟩ := TagFilter.reaches_of_get?_models keyed present
    exact ⟨Table.mem_values.mpr ⟨key, here⟩, keyed key m here ▸ reached⟩
  · rintro ⟨member, reached⟩
    obtain ⟨key, here⟩ := Table.mem_values.mp member
    have filed := keyed key m here
    exact Table.mem_values.mpr
      ⟨key, TagFilter.get?_models_of_reaches keyed here (filed ▸ reached)⟩

end Given

/-- The hierarchy of a compiled document is closed exactly if no subclass of a model that is kept is
dropped: unused models are kept, or every subclass of a reachable model is reachable. -/
theorem compile_hierarchy_iff {config : Config} {document : Value} {api : Api}
    (success : (compile config document).outcome = .ok api) :
    ∃ fields models services, document = .object fields ∧
      (Models.ofDefinitions config (definitionsOf fields)).outcome = .ok models ∧
      (Services.ofDocument config models document).outcome = .ok services ∧
      (HierarchyClosed api ↔ (config.ignoreUnusedModels = true →
        Reachable.ReachesSubclasses models
          (TagFilter.usedClasses ((filterOf config).services services)))) := by
  obtain ⟨fields, models, services, finished, stages⟩ := compile_eq_ok.mp success
  refine ⟨fields, models, services, stages.object, stages.modelsBuilt, stages.servicesBuilt, ?_⟩
  have keyed := (Models.closed_ofDefinitions stages.modelsBuilt).keyed
  have hierarchy := Models.hierarchy_ofDefinitions stages.modelsBuilt
  constructor
  · intro closed pruning p member reached name extended
    obtain ⟨final, given, -, -, subclasses⟩ :=
      exists_final stages ((mem_keptModels keyed).mpr ⟨member, fun _ => reached⟩)
    obtain ⟨d, among, rfl, -⟩ := closed final given name (subclasses ▸ extended)
    obtain ⟨s, kept, named, -, -⟩ := exists_kept stages among
    rw [named]
    exact ((mem_keptModels keyed).mp kept).2 pruning
  · intro reaches final given name extended
    obtain ⟨p, kept, named, -, subclasses⟩ := exists_kept stages given
    rw [subclasses] at extended
    obtain ⟨member, reached⟩ := (mem_keptModels keyed).mp kept
    obtain ⟨s, isSub, rfl⟩ := hierarchy.subclass p member name extended
    have extending := (hierarchy.linked s isSub p member).mp extended
    have keptSub : s ∈ (keptModels config models services).values :=
      (mem_keptModels keyed).mpr
        ⟨isSub, fun pruning => reaches pruning p member (reached pruning) _ extended⟩
    obtain ⟨d, among, sameName, parents, -⟩ := exists_final stages keptSub
    refine ⟨d, among, sameName, ?_⟩
    rw [named, parents]
    exact extending

/-- A document with dogs, which are pets, and with a service for the model `used`. -/
def kennelDocument (used : String) : Value :=
  .object [(.text "swagger", .text supportedVersion),
    (.text "definitions", .object [
      (.text "Pet", .object [(.text "type", .text "object")]),
      (.text "Dog", .object (Models.dogSchema "Pet"))]),
    (.text "paths", .object [(.text "/animals", getting "Animals" (refTo used))])]

/-- With a service for dogs the pets are kept as their parents, and nothing is dropped. -/
theorem compile_hierarchy_dogs :
    ∃ api, (compile {} (kennelDocument "Dog")).outcome = .ok api ∧
      api.models.keys = ["pet", "dog"] ∧
      ∃ fields models services, kennelDocument "Dog" = .object fields ∧
        (Models.ofDefinitions {} (definitionsOf fields)).outcome = .ok models ∧
        (Services.ofDocument {} models (kennelDocument "Dog")).outcome = .ok services ∧
        (HierarchyClosed api ↔ (({} : Config).ignoreUnusedModels = true →
          Reachable.ReachesSubclasses models
            (TagFilter.usedClasses ((filterOf {}).services services)))) := by
  obtain ⟨api, success, kept⟩ : ∃ api, (compile {} (kennelDocument "Dog")).outcome = .ok api ∧
      api.models.keys = ["pet", "dog"] :=
    ⟨_, by cbv, by cbv⟩
  exact ⟨api, success, kept, compile_hierarchy_iff success⟩

/-- With a service for pets the dogs are dropped, but pets still list them as a subclass. -/
theorem dropped_subclass_listed :
    ∃ api, (compile {} (kennelDocument "Pet")).outcome = .ok api ∧
      api.models.values.map (fun m => (m.className, m.subclasses)) = [("Pet", ["Dog"])] ∧
      ¬HierarchyClosed api := by
  obtain ⟨api, success, left⟩ : ∃ api, (compile {} (kennelDocument "Pet")).outcome = .ok api ∧
      api.models.values.map (fun m => (m.className, m.subclasses)) = [("Pet", ["Dog"])] :=
    ⟨_, by cbv, by cbv⟩
  refine ⟨api, success, left, fun closed => ?_⟩
  obtain ⟨pet, alone, own⟩ := List.map_eq_singleton_iff.mp left
  rw [Prod.mk.injEq] at own
  obtain ⟨d, member, named, -⟩ := closed pet (by simp [alone]) "Dog" (by simp [own.2])
  rw [alone, List.mem_singleton] at member
  rw [member, own.1] at named
  exact absurd named (by decide)

end Api

end ClientGen
