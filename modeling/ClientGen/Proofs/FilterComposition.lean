import Mathlib
import ClientGen.Proofs.Pruning

/-!
# Filters one after another

A filter that drops unused models leaves a table in which the next filter looks for what is
reachable. No path from the services that both filters keep leads through a model that the first one
has dropped (`Reachable.reaches_part_iff`). So two filters leave what both of them keep, in either
order, and a filter that is applied again changes nothing (`TagFilter.filters_compose`).
-/
namespace ClientGen

namespace Reachable

variable {models part : Table Model} {classes fewer : List String} {key : String}

/-- Whatever is reachable in a part of a table is reachable in the table, also from more classes. -/
theorem Reaches.mono (within : ∀ k m, part.get? k = some m → models.get? k = some m)
    (subset : fewer ⊆ classes) (reached : Reaches part fewer key) : Reaches models classes key := by
  induction reached with
  | root used present => exact .root (subset used) (within _ _ present)
  | step _ found depends present ih =>
    exact .step ih (within _ _ found) depends (within _ _ present)

/-- The part of a table that is reachable from some classes holds every path from any of them. -/
theorem reaches_part_iff
    (kept : ∀ k m, part.get? k = some m ↔ models.get? k = some m ∧ Reaches models classes k)
    (subset : fewer ⊆ classes) : Reaches part fewer key ↔ Reaches models fewer key := by
  constructor
  · intro reached
    exact reached.mono (fun k m found => ((kept k m).mp found).1) (List.Subset.refl _)
  · intro reached
    induction reached with
    | root used present =>
      exact .root used ((kept _ _).mpr ⟨present, .root (subset used) present⟩)
    | step before found depends present ih =>
      -- both ends of the step are reachable from the larger set of classes, hence still there
      have source := before.mono (fun _ _ same => same) subset
      have target := Reaches.step source found depends present
      exact .step ih ((kept _ _).mpr ⟨found, source⟩) depends ((kept _ _).mpr ⟨present, target⟩)

end Reachable

namespace Api

/-- The tables are those that are built from a document, or those that it is compiled to. -/
inductive Tables : Table Model → Table Service → Prop
  | built {config : Config} {fields : Fields} {models : Table Model} {services : Table Service}
      (modelsBuilt : (Models.ofDefinitions config (definitionsOf fields)).outcome = .ok models)
      (servicesBuilt :
        (Services.ofDocument config models (.object fields)).outcome = .ok services) :
      Tables models services
  | compiled {config : Config} {document : Value} {api : Api}
      (success : (compile config document).outcome = .ok api) : Tables api.models api.services

/-- The models of a compiled document are filed under the keys of their class names. -/
theorem keyed_of_compile {config : Config} {document : Value} {api : Api}
    (success : (compile config document).outcome = .ok api) : Keyed api.models := by
  obtain ⟨fields, models, services, finished, stages⟩ := compile_eq_ok.mp success
  have closed := Models.closed_ofDefinitions stages.modelsBuilt
  intro key m present
  obtain ⟨built, kept, finishes⟩ := stages.kept_of_model present
  rw [finishes]
  exact closed.keyed key built (TagFilter.reaches_of_get?_models closed.keyed kept).1

theorem Tables.keyed {models : Table Model} {services : Table Service}
    (tables : Tables models services) : Keyed models := by
  cases tables with
  | built modelsBuilt _ => exact (Models.closed_ofDefinitions modelsBuilt).keyed
  | compiled success => exact keyed_of_compile success

end Api

namespace TagFilter

def keptByBoth (f g : TagFilter) (services : Table Service) : Table Service :=
  services.filter fun tag _ => f.includes tag && g.includes tag

def reachedModels (models : Table Model) (services : Table Service) : Table Model :=
  models.filter fun _ m =>
    decide (Reachable.Reaches models (usedClasses services) (Naming.key m.className))

def applyBoth (f g : TagFilter) (models : Table Model) (services : Table Service) :
    Logged (Table Model × Table Service) := do
  let (models, services) ← f.apply models services
  g.apply models services

variable {f g : TagFilter} {models : Table Model} {services : Table Service}

theorem keptByBoth_comm (f g : TagFilter) (services : Table Service) :
    keptByBoth f g services = keptByBoth g f services := by
  unfold keptByBoth
  simp only [Bool.and_comm]

theorem keptByBoth_self (f : TagFilter) (services : Table Service) :
    keptByBoth f f services = f.services services := by
  unfold keptByBoth TagFilter.services
  simp only [Bool.and_self]

/-- The second filter keeps those of the services left by the first that both keep. -/
theorem services_services (f g : TagFilter) (services : Table Service) :
    g.services (f.services services) = keptByBoth f g services := by
  unfold TagFilter.services keptByBoth
  rw [Table.filter_filter]
  exact Table.filter_congr fun tag s => Bool.and_comm _ _

/-- Fewer services use fewer classes. -/
theorem usedClasses_filter_subset (services : Table Service) (p : String → Service → Bool) :
    usedClasses (services.filter p) ⊆ usedClasses services := by
  intro name used
  obtain ⟨s, kept, among⟩ := List.mem_flatMap.mp used
  obtain ⟨entry, passed, rfl⟩ := List.mem_map.mp kept
  have member : entry.2 ∈ services.values :=
    List.mem_map_of_mem (List.mem_filter.mp passed).1
  exact List.mem_flatMap.mpr ⟨entry.2, member, among⟩

theorem usedClasses_keptByBoth_subset (f g : TagFilter) (services : Table Service) :
    usedClasses (keptByBoth f g services) ⊆ usedClasses (f.services services) := by
  rw [← services_services]
  exact usedClasses_filter_subset _ _

theorem models_eq_reachedModels (pruning : f.dropUnused = true) :
    f.models models services = reachedModels models services :=
  models_eq pruning

/-- What is left of the models is what is reachable in the table as it was before any filter. -/
theorem models_models (keyed : Keyed models) (fPrunes : f.dropUnused = true)
    (gPrunes : g.dropUnused = true) :
    g.models (f.models models (f.services services)) (keptByBoth f g services) =
      reachedModels models (keptByBoth f g services) := by
  have kept : ∀ key m, (f.models models (f.services services)).get? key = some m ↔
      models.get? key = some m ∧
        Reachable.Reaches models (usedClasses (f.services services)) key := by
    intro key m
    constructor
    · intro found
      obtain ⟨present, reached⟩ := reaches_of_get?_models keyed found
      exact ⟨present, reached fPrunes⟩
    · rintro ⟨present, reached⟩
      exact get?_models_of_reaches keyed present fun _ => reached
  have subset := usedClasses_keptByBoth_subset f g services
  rw [models_eq_reachedModels gPrunes]
  unfold reachedModels
  simp only [Reachable.reaches_part_iff kept subset]
  rw [models_eq_reachedModels fPrunes]
  unfold reachedModels
  rw [Table.filter_filter]
  refine Table.filter_congr fun key m => ?_
  -- a model that the fewer services reach is one that the services of the first filter reach
  by_cases reached : Reachable.Reaches models (usedClasses (keptByBoth f g services))
      (Naming.key m.className)
  · have before := reached.mono (fun _ _ same => same) subset
    simp [reached, before]
  · simp [reached]

theorem outcome_applyBoth (f g : TagFilter) (models : Table Model) (services : Table Service) :
    (f.applyBoth g models services).outcome =
      .ok (g.models (f.models models (f.services services)) (keptByBoth f g services),
        keptByBoth f g services) := by
  rw [← services_services]
  rfl

/-- Two filters that drop unused models leave the services that both keep and the models that these
reach in the tables as they were, in either order. A filter applied again changes nothing. -/
theorem filters_compose (tables : Api.Tables models services) (fPrunes : f.dropUnused = true)
    (gPrunes : g.dropUnused = true) :
    (f.applyBoth g models services).outcome =
      .ok (reachedModels models (keptByBoth f g services), keptByBoth f g services) ∧
    (g.applyBoth f models services).outcome = (f.applyBoth g models services).outcome ∧
    (f.applyBoth f models services).outcome = (f.apply models services).outcome := by
  have keyed := tables.keyed
  refine ⟨?_, ?_, ?_⟩
  · rw [outcome_applyBoth, models_models keyed fPrunes gPrunes]
  · rw [outcome_applyBoth, outcome_applyBoth, models_models keyed fPrunes gPrunes,
      models_models keyed gPrunes fPrunes, keptByBoth_comm]
  · rw [outcome_applyBoth, models_models keyed fPrunes fPrunes, keptByBoth_self,
      ← models_eq_reachedModels fPrunes]
    rfl

/-- Of the services for pets and for owners the second one passes both filters, and of the models
the owners alone. -/
theorem filters_compose_owners :
    ∃ models services, Api.Tables models services ∧
      models.keys = ["vet", "owner", "pet"] ∧ services.keys = ["Pets", "Owners"] ∧
      ∃ f g : TagFilter, f.dropUnused = true ∧ g.dropUnused = true ∧
        f.includes "Pets" = true ∧ g.includes "Pets" = false ∧
        (reachedModels models (keptByBoth f g services)).keys = ["owner"] ∧
        (f.applyBoth g models services).outcome =
          .ok (reachedModels models (keptByBoth f g services), keptByBoth f g services) ∧
        (g.applyBoth f models services).outcome = (f.applyBoth g models services).outcome ∧
        (f.applyBoth f models services).outcome = (f.apply models services).outcome := by
  obtain ⟨models, services, modelsBuilt, servicesBuilt, modelKeys, serviceKeys, left⟩ :
      ∃ models services,
        (Models.ofDefinitions {} (Api.definitionsOf Api.petFields)).outcome = .ok models ∧
        (Services.ofDocument {} models Api.petDocument).outcome = .ok services ∧
        models.keys = ["vet", "owner", "pet"] ∧ services.keys = ["Pets", "Owners"] ∧
        ((ofTags .null (.text "pets") true "Api").models models
          (keptByBoth (ofTags (.text "pets, owners") .null true "Api")
            (ofTags .null (.text "pets") true "Api") services)).keys = ["owner"] :=
    ⟨_, _, by cbv, by cbv, by cbv, by cbv, by cbv⟩
  have tables := Api.Tables.built modelsBuilt servicesBuilt
  rw [models_eq_reachedModels rfl] at left
  exact ⟨models, services, tables, modelKeys, serviceKeys, _, _, rfl, rfl, by cbv, by cbv, left,
    filters_compose tables rfl rfl⟩

end TagFilter

end ClientGen
