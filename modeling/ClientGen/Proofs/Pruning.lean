import ClientGen.Client.Render
import ClientGen.Proofs.Compilation
import ClientGen.Proofs.Constituents
import ClientGen.Proofs.Reachability
import ClientGen.Proofs.ServiceTable

/-!
# What the filter keeps

With unused models dropped, a compiled document holds the services of the tags that are kept and
the models that these reach, in their old order. Nothing that is kept refers to what was dropped:
the names in the dependencies and parents of kept models and in the dependencies of kept services
are those of kept models, so every import of a generated file finds its model.
-/
namespace ClientGen

def Named (models : Table Model) (name : String) : Prop :=
  ∃ m, models.get? (Naming.key name) = some m ∧ m.className = name

structure Imported (models : Table Model) (names : List String) : Prop where
  each : List.Forall₂ (fun name m => models.get? (Naming.key name) = some m ∧ m.className = name)
    names (Client.importedModels models names)
  distinct : (Client.importedModels models names).Nodup

/-- Names with distinct keys that are all those of models have imports of their own. -/
theorem imported_of_named {models : Table Model} {names : List String}
    (distinct : (names.map Naming.key).Nodup) (named : ∀ name ∈ names, Named models name) :
    Imported models names := by
  have paired : List.Forall₂
      (fun name m => models.get? (Naming.key name) = some m ∧ m.className = name) names
      ((names.map Naming.key).filterMap models.get?) := by
    clear distinct
    induction names with
    | nil => exact .nil
    | cons name rest ih =>
      obtain ⟨m, present, same⟩ := named name (by simp)
      rw [List.map_cons, List.filterMap_cons_some present]
      exact .cons ⟨present, same⟩ (ih fun other member => named other (by simp [member]))
  have imports : Client.importedModels models names =
      (names.map Naming.key).filterMap models.get? := by
    rw [Client.importedModels, TypeExpr.distinct_of_nodup distinct]
  rw [← imports] at paired
  have classes : (Client.importedModels models names).map Model.className = names := by
    clear imports distinct named
    generalize Client.importedModels models names = found at paired
    induction paired with
    | nil => rfl
    | cons head _ ih => rw [List.map_cons, head.2, ih]
  refine ⟨paired, ?_⟩
  have nodup : names.Nodup := List.Nodup.of_map _ distinct
  rw [← classes] at nodup
  exact List.Nodup.of_map _ nodup

namespace Services

/-- The dependencies of a service that is built are those collected from its types. -/
theorem collected_of_ofDocument {config : Config} {models : Table Model} {document : Value}
    {services : Table Service} (keyed : Keyed models)
    (success : (ofDocument config models document).outcome = .ok services) {key : String}
    {s : Service} (present : services.get? key = some s) :
    (∀ name ∈ s.dependencies, Named models name) ∧ (s.dependencies.map Naming.key).Nodup ∧
    (∀ name ∈ s.errorDependencies, Named models name) ∧
    (s.errorDependencies.map Naming.key).Nodup := by
  obtain ⟨_, _, _, _, -, -, -, -, rfl⟩ := ofDocument_eq_ok.mp success
  rw [Table.get?_map, Option.map_eq_some_iff] at present
  obtain ⟨described, -, rfl⟩ := present
  have collected (types : List TypeExpr) := Dependencies.collected_of_candidates keyed none
    (types.map .type)
  exact ⟨(collected _).model, (collected _).distinct, (collected _).model, (collected _).distinct⟩

end Services

namespace TagFilter

variable {f : TagFilter} {models : Table Model} {kept : Table Service}

/-- The models that the filter keeps are the reachable ones. -/
theorem models_eq (pruning : f.dropUnused = true) :
    f.models models kept = models.filter fun _ m =>
      decide (Reachable.Reaches models (usedClasses kept) (Naming.key m.className)) := by
  unfold TagFilter.models
  rw [if_pos pruning]
  have same : (fun (_ : String) (m : Model) =>
      keepsModel (Reachable.fromClasses models (usedClasses kept)) m) =
      fun _ m => decide (Reachable.Reaches models (usedClasses kept) (Naming.key m.className)) := by
    funext key m
    exact decide_eq_decide.mpr (Reachable.mem_fromClasses _ _)
  exact congrArg models.filter same

/-- A model is kept if it is reachable. -/
theorem get?_models_of_reaches (keyed : Keyed models) {key : String} {m : Model}
    (present : models.get? key = some m)
    (reached : f.dropUnused = true → Reachable.Reaches models (usedClasses kept) key) :
    (f.models models kept).get? key = some m := by
  by_cases pruning : f.dropUnused = true
  · rw [models_eq pruning, Table.get?_filter_eq_some, keyed key m present, decide_eq_true_eq]
    exact ⟨present, reached pruning⟩
  · rw [TagFilter.models, if_neg pruning]
    exact present

/-- A kept model is one of the table, and it is reachable if unused models are dropped. -/
theorem reaches_of_get?_models (keyed : Keyed models) {key : String} {m : Model}
    (found : (f.models models kept).get? key = some m) :
    models.get? key = some m ∧
      (f.dropUnused = true → Reachable.Reaches models (usedClasses kept) key) := by
  by_cases pruning : f.dropUnused = true
  · rw [models_eq pruning, Table.get?_filter_eq_some, decide_eq_true_eq] at found
    have filed := keyed key m found.1
    exact ⟨found.1, fun _ => filed ▸ found.2⟩
  · rw [TagFilter.models, if_neg pruning] at found
    exact ⟨found, fun dropped => absurd dropped pruning⟩

/-- What a kept model knows is kept. -/
theorem kept_of_knows (closed : Closed models) {key other : String} {m d : Model}
    (found : (f.models models kept).get? key = some m) (present : models.get? other = some d)
    (knows : m.Knows d) : (f.models models kept).get? other = some d := by
  obtain ⟨here, reached⟩ := reaches_of_get?_models closed.keyed found
  refine get?_models_of_reaches closed.keyed present fun pruning => ?_
  have filed := closed.keyed other d present
  rcases knows with same | depends
  · rw [same, closed.keyed key m here] at filed
    exact filed ▸ reached pruning
  · rw [← filed] at present ⊢
    exact .step (reached pruning) here depends present

/-- Whatever a kept service depends on is kept. -/
theorem kept_of_used (closed : Closed models) {tag : String} {s : Service}
    (running : kept.get? tag = some s) {name : String}
    (used : name ∈ s.dependencies ++ s.errorDependencies) (named : Named models name) :
    Named (f.models models kept) name := by
  obtain ⟨d, present, same⟩ := named
  have among : name ∈ usedClasses kept :=
    List.mem_flatMap.mpr ⟨s, Table.mem_values.mpr ⟨tag, running⟩, used⟩
  exact ⟨d, get?_models_of_reaches closed.keyed present fun _ => .root among present, same⟩

end TagFilter

/-- The classes that the file of a service imports have distinct keys if its dependencies have. -/
theorem nodup_importedClasses {models : Table Model} {s : Service}
    (dependencies : ∀ name ∈ s.dependencies, Named models name)
    (distinct : (s.dependencies.map Naming.key).Nodup)
    (errors : ∀ name ∈ s.errorDependencies, Named models name)
    (distinctErrors : (s.errorDependencies.map Naming.key).Nodup) :
    ((Client.importedClasses s).map Naming.key).Nodup := by
  unfold Client.importedClasses
  rw [List.map_append, List.nodup_append]
  refine ⟨distinct, distinctErrors.sublist (List.filter_sublist.map _), ?_⟩
  intro key left other right equal
  obtain ⟨name, member, rfl⟩ := List.mem_map.mp left
  obtain ⟨error, among, rfl⟩ := List.mem_map.mp right
  obtain ⟨isError, new⟩ := List.mem_filter.mp among
  obtain ⟨m, present, same⟩ := dependencies name member
  obtain ⟨d, found, sameError⟩ := errors error isError
  -- two spellings with one key are those of the one model under the key
  rw [equal, found] at present
  cases present
  rw [← same, sameError] at member
  simp [member] at new

namespace Api

/-- The compiled document `api` is what is left of the tables `models` and `services` when the
services of other tags and the models that no service reaches are dropped. -/
structure Pruned (config : Config) (document : Value) (models : Table Model)
    (services : Table Service) (api : Api) : Prop where
  servicesKept : api.services = markLastValue (fun b s => { s with isLast := b })
    (services.filter fun tag _ => (filterOf config).includes tag)
  modelsKept : ∃ finished, api.models = markLastValue (fun b m => { m with isLast := b }) finished ∧
    Table.Paired (fun built final => finish config document built = .ok final)
      (models.filter fun _ m => decide (Reachable.Reaches models
        (TagFilter.usedClasses (services.filter fun tag _ => (filterOf config).includes tag))
        (Naming.key m.className))) finished
  modelNames : ∀ m ∈ api.models.values, ∀ name ∈ m.dependencies ++ m.parents,
    Named api.models name
  serviceNames : ∀ s ∈ api.services.values, ∀ name ∈ s.dependencies ++ s.errorDependencies,
    Named api.models name
  modelImports : ∀ m ∈ api.models.values, Imported api.models m.dependencies
  serviceImports : ∀ s ∈ api.services.values, Imported api.models (Client.importedClasses s)

section Given

variable {config : Config} {document : Value} {fields : Fields} {models : Table Model}
  {services : Table Service} {finished : Table Model} {api : Api}

/-- Finishing keeps the names of models. -/
theorem named_of_kept (stages : Stages config document fields models services finished api)
    {name : String}
    (named : Named (keptModels config models services) name) :
    Named api.models name := by
  obtain ⟨m, kept, same⟩ := named
  obtain ⟨final, present, finishes⟩ := stages.model_of_kept kept
  refine ⟨final, present, ?_⟩
  rw [finishes]
  exact same

/-- The models that a model depends on are given out with it, under distinct keys. -/
theorem dependencies_named (stages : Stages config document fields models services finished api)
    {m : Model} (member : m ∈ api.models.values) :
    (∀ name ∈ m.dependencies ++ m.parents, Named api.models name) ∧
      (m.dependencies.map Naming.key).Nodup := by
  have closed := Models.closed_ofDefinitions stages.modelsBuilt
  obtain ⟨key, present⟩ := Table.mem_values.mp member
  obtain ⟨built, kept, finishes⟩ := stages.kept_of_model present
  have here := (TagFilter.reaches_of_get?_models closed.keyed kept).1
  rw [finishes]
  refine ⟨?_, closed.distinct key built here⟩
  intro name used
  apply named_of_kept stages
  rcases List.mem_append.mp used with dependency | parent
  · obtain ⟨d, there, same⟩ := closed.dependency key built here name dependency
    exact ⟨d, TagFilter.kept_of_knows closed kept there (.inr (same ▸ dependency)), same⟩
  · obtain ⟨d, there, same, knows⟩ := closed.parent key built here name parent
    exact ⟨d, TagFilter.kept_of_knows closed kept there knows, same⟩

/-- The models that a service depends on are given out with it, under distinct keys. -/
theorem service_dependencies_named
    (stages : Stages config document fields models services finished api)
    {s : Service} (member : s ∈ api.services.values) :
    (∀ name ∈ s.dependencies ++ s.errorDependencies, Named api.models name) ∧
      ((Client.importedClasses s).map Naming.key).Nodup := by
  have closed := Models.closed_ofDefinitions stages.modelsBuilt
  obtain ⟨tag, present⟩ := Table.mem_values.mp member
  obtain ⟨built, kept, finishes⟩ := stages.kept_of_service present
  have here := (Table.get?_filter_eq_some.mp kept).1
  obtain ⟨named, distinct, namedErrors, distinctErrors⟩ :=
    Services.collected_of_ofDocument closed.keyed stages.servicesBuilt here
  rw [finishes]
  refine ⟨?_, nodup_importedClasses named distinct namedErrors distinctErrors⟩
  intro name used
  apply named_of_kept stages
  apply TagFilter.kept_of_used closed kept used
  rcases List.mem_append.mp used with dependency | error
  · exact named name dependency
  · exact namedErrors name error

end Given

/-- With unused models dropped, a compiled document holds the services with a kept tag and the
models that they reach, and what is kept refers to kept models only. -/
theorem compile_prunes {config : Config} {document : Value} {api : Api}
    (success : (compile config document).outcome = .ok api)
    (pruning : config.ignoreUnusedModels = true) :
    ∃ fields models services, document = .object fields ∧
      (Models.ofDefinitions config (definitionsOf fields)).outcome = .ok models ∧
      (Services.ofDocument config models document).outcome = .ok services ∧
      Pruned config document models services api := by
  obtain ⟨fields, models, services, finished, stages⟩ := compile_eq_ok.mp success
  refine ⟨fields, models, services, stages.object, stages.modelsBuilt, stages.servicesBuilt,
    stages.services, ?_, ?_, ?_, ?_, ?_⟩
  · have kept := finishAll_ok stages.finishing
    rw [keptModels, TagFilter.models_eq pruning] at kept
    exact ⟨finished, stages.models, kept⟩
  · intro m member
    exact (dependencies_named stages member).1
  · intro s member
    exact (service_dependencies_named stages member).1
  · intro m member
    obtain ⟨named, distinct⟩ := dependencies_named stages member
    exact imported_of_named distinct fun name used => named name (List.mem_append_left _ used)
  · intro s member
    obtain ⟨named, distinct⟩ := service_dependencies_named stages member
    refine imported_of_named distinct fun name used => named name ?_
    rcases List.mem_append.mp used with dependency | error
    · exact List.mem_append_left _ dependency
    · exact List.mem_append_right _ (List.mem_filter.mp error).1

/-- Of the pets and their owners the owners alone are left without the service of pets. -/
theorem compile_prunes_petDocument :
    ∃ api, (compile { includeTags := .text "owners" } petDocument).outcome = .ok api ∧
      api.models.keys = ["owner"] ∧ api.services.keys = ["Owners"] ∧
      ({ includeTags := .text "owners" } : Config).ignoreUnusedModels = true ∧
      ∃ fields models services, petDocument = .object fields ∧
        (Models.ofDefinitions { includeTags := .text "owners" } (definitionsOf fields)).outcome =
          .ok models ∧
        (Services.ofDocument { includeTags := .text "owners" } models petDocument).outcome =
          .ok services ∧
        Pruned { includeTags := .text "owners" } petDocument models services api := by
  obtain ⟨api, success, models, services⟩ := compile_owners
  exact ⟨api, success, models, services, rfl, compile_prunes success rfl⟩

end Api

end ClientGen
