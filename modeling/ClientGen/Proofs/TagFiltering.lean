import ClientGen.Proofs.Pruning
import ClientGen.Proofs.TagDeletion

/-!
# Filtering by tag is deleting operations

A document compiles to the same tables whether the services of some tags are filtered out or
their operations are deleted from the document beforehand. An operation is built from its own
entry and a summary and parameters that no deletion touches, and it is named among the operations
of its own service; so the drafts that are left after the deletion are those of the kept tags.
-/
namespace ClientGen

/-- The configuration without tags to include or to exclude. -/
def Config.untagged (config : Config) : Config :=
  { config with includeTags := .null, excludeTags := .null }

open Reference

section Shared

variable {document other : Value} (shares : Shares document other)
include shares

theorem Parameter.ofValue_eq {raw : Value} (inside : targets raw ⊆ targets document)
    (inContainer : Bool) :
    Parameter.ofValue other raw inContainer = Parameter.ofValue document raw inContainer := by
  unfold Parameter.ofValue
  rw [follow_eq shares inside]

theorem Responses.addAll_eq {fields : Fields}
    (inside : targetsOfFields fields ⊆ targets document) (r : Responses) :
    r.addAll other fields = r.addAll document fields := by
  induction fields generalizing r with
  | nil => rfl
  | cons entry rest ih =>
    obtain ⟨code, raw⟩ := entry
    rw [targetsOfFields, List.append_subset] at inside
    have first : r.add other code raw = r.add document code raw := by
      unfold Responses.add
      rw [follow_eq shares inside.1]
    rw [Responses.addAll, Responses.addAll, first]
    exact bind_congr fun next => ih inside.2 next

end Shared

namespace Services

/-- A path entry beside which the operations of services that are filtered out are deleted. -/
def Endpoint.without (config : Config) (e : Endpoint) : Endpoint :=
  { e with item := keptEntries config e.item }

/-- Whether a path entry stays when operations are deleted. -/
def Endpoint.stays (config : Config) (e : Endpoint) : Bool :=
  !isDeleted config (e.key, e.definition)

/-- The path entries that are left are those that are not deleted. -/
theorem endpointsOf_delete (config : Config) (paths : Fields) :
    endpointsOf (paths.map fun (url, item) => (url, deleteFromPath config item)) =
      ((endpointsOf paths).filter (Endpoint.stays config)).map (Endpoint.without config) := by
  unfold endpointsOf
  induction paths with
  | nil => rfl
  | cons entry rest ih =>
    obtain ⟨url, v⟩ := entry
    rw [List.map_cons, List.flatMap_cons, List.flatMap_cons, List.filter_append, List.map_append,
      ih]
    congr 1
    cases v with
    | object item =>
      simp only [deleteFromPath, keptEntries, List.filter_map, List.map_map]
      rfl
    | scalar s => rfl
    | list items => rfl

variable {config : Config} {models : Table Model} {document other : Value}

/-- A summary that an operation takes over from its path is no operation. -/
theorem optionalText_summary {own : Value} {item : Fields} {summary : String}
    (distinct : (item.map Prod.fst).Nodup)
    (success : Operation.optionalText (own.orElse (item.get "summary")) = .ok summary) :
    Operation.optionalText (own.orElse ((keptEntries config item).get "summary")) =
      .ok summary := by
  rcases @get_keptEntries config item distinct "summary" with same | ⟨-, ⟨definition, held⟩, gone⟩
  · rw [same]
    exact success
  · rw [held] at success
    rw [gone]
    unfold Value.orElse at success ⊢
    split at success
    · rename_i given
      rw [if_pos given]
      exact success
    · rename_i missing
      rw [if_neg missing]
      unfold Operation.optionalText at success
      split at success
      · obtain ⟨text, read, -⟩ := bind_eq_ok.mp success
        cases read
      · cases success
        rfl

theorem get_parameters_keptEntries {item : Fields} (distinct : (item.map Prod.fst).Nodup) :
    (keptEntries config item).get "parameters" = item.get "parameters" := by
  rcases @get_keptEntries config item distinct "parameters" with same | ⟨isMethod, -, -⟩
  · exact same
  · exact absurd isMethod (by decide)

theorem rawParameters_keptEntries {place : Operation.Place} {definition : Fields}
    (distinct : (place.item.map Prod.fst).Nodup) :
    Operation.rawParameters { place with item := keptEntries config place.item } definition =
      Operation.rawParameters place definition := by
  unfold Operation.rawParameters
  rw [get_parameters_keptEntries distinct]

/-- The parameters of an operation refer to nothing but what it and its path refer to. -/
theorem targets_rawParameters {place : Operation.Place} {definition : Fields} {raw : List Value}
    (own : targets (.object definition) ⊆ targets document)
    (shared : targets (.object place.item) ⊆ targets document)
    (given : Operation.rawParameters place definition = .ok raw) {v : Value} (member : v ∈ raw) :
    targets v ⊆ targets document := by
  obtain ⟨first, ownListed, given⟩ := bind_eq_ok.mp given
  obtain ⟨second, sharedListed, given⟩ := bind_eq_ok.mp given
  cases given
  have none : targets (.list []) = [] := rfl
  rcases List.mem_append.mp member with here | there
  · exact targets_of_mem_elements (targets_orElse (targets_get own _) none) ownListed here
  · exact targets_of_mem_elements (targets_orElse (targets_get shared _) none) sharedListed there

/-- An operation is built alike from what is left of its path. -/
theorem build_keptEntries (shares : Shares document other) {place : Operation.Place}
    {definition : Fields} {serviceClass id : String} {operation : Operation}
    (distinct : (place.item.map Prod.fst).Nodup)
    (own : targets (.object definition) ⊆ targets document)
    (shared : targets (.object place.item) ⊆ targets document)
    (success : Operation.build config models document serviceClass place definition id =
      .ok operation) :
    Operation.build config models other serviceClass
      { place with item := keptEntries config place.item } definition id = .ok operation := by
  unfold Operation.build at success ⊢
  obtain ⟨raw, given, success⟩ := bind_eq_ok.mp success
  obtain ⟨read, parameters, success⟩ := bind_eq_ok.mp success
  obtain ⟨sorted, ordered, success⟩ := bind_eq_ok.mp success
  obtain ⟨expression, templated, success⟩ := bind_eq_ok.mp success
  obtain ⟨fields, listed, success⟩ := bind_eq_ok.mp success
  obtain ⟨responses, collected, success⟩ := bind_eq_ok.mp success
  obtain ⟨resultDescription, described, success⟩ := bind_eq_ok.mp success
  obtain ⟨summary, summarized, success⟩ := bind_eq_ok.mp success
  have sameRead := mapM_congr fun v member =>
    Parameter.ofValue_eq shares (targets_rawParameters own shared given member)
      (Operation.paramsClassFor config id raw.length).isSome
  have answers : targetsOfFields fields ⊆ targets document := by
    have none : targets (.object []) = [] := rfl
    have within := targets_orElse (targets_get own "responses") none
    rw [Value.asFields_eq_ok.mp listed, targets, List.append_subset] at within
    exact within.2
  have sameResponses := Responses.addAll_eq shares answers {}
  refine bind_eq_ok.mpr ⟨raw, (rawParameters_keptEntries distinct).trans given, ?_⟩
  refine bind_eq_ok.mpr ⟨read, sameRead.trans parameters, ?_⟩
  refine bind_eq_ok.mpr ⟨sorted, ordered, ?_⟩
  refine bind_eq_ok.mpr ⟨expression, templated, ?_⟩
  refine bind_eq_ok.mpr ⟨fields, listed, ?_⟩
  refine bind_eq_ok.mpr ⟨responses, sameResponses.trans collected, ?_⟩
  refine bind_eq_ok.mpr ⟨resultDescription, described, ?_⟩
  exact bind_eq_ok.mpr ⟨summary, optionalText_summary distinct summarized, success⟩

def keptDrafts (config : Config) (drafts : Table Draft) : Table Draft :=
  drafts.filter fun tag _ => (Api.filterOf config).includes tag

theorem serviceTag?_of_firstTag {definition : Fields} {first : Value}
    (tagged : firstTag (definition.get "tags") = .ok first) :
    serviceTag? config definition = some (Naming.tagName first config.defaultTag) := by
  rw [serviceTag?, tagged]
  rfl

/-- An operation of a service that is kept is added alike to the drafts that are kept. -/
theorem addOperation_kept (shares : Shares document other) {drafts next : Table Draft}
    {place : Operation.Place} {definition : Fields} (distinct : (place.item.map Prod.fst).Nodup)
    (own : targets (.object definition) ⊆ targets document)
    (shared : targets (.object place.item) ⊆ targets document)
    (kept : ∀ tag, serviceTag? config definition = some tag →
      (Api.filterOf config).includes tag = true)
    (success : (addOperation config models document drafts place definition).outcome = .ok next) :
    (addOperation config.untagged models other (keptDrafts config drafts)
      { place with item := keptEntries config place.item } definition).outcome =
        .ok (keptDrafts config next) := by
  obtain ⟨first, tag, draft, id, operation, tagged, rfl, rfl, named, built, rfl⟩ :=
    addOperation_eq_ok.mp success
  have included := kept _ (serviceTag?_of_firstTag tagged)
  have sameDraft : draftOf config.untagged (keptDrafts config drafts)
      (Naming.tagName first config.defaultTag) =
        draftOf config drafts (Naming.tagName first config.defaultTag) := by
    unfold draftOf keptDrafts
    rw [Table.get?_filter_key, if_pos included]
    rfl
  refine addOperation_eq_ok.mpr ⟨first, _, _, id, operation, tagged, rfl, sameDraft.symm, named,
    build_keptEntries shares distinct own shared built, ?_⟩
  exact Table.filter_insert_of_kept drafts _ included

/-- An operation of a service that is filtered out changes no draft that is kept. -/
theorem addOperation_dropped {drafts next : Table Draft} {place : Operation.Place}
    {definition : Fields} {tag : String} (tagged : serviceTag? config definition = some tag)
    (dropped : (Api.filterOf config).includes tag = false)
    (success : (addOperation config models document drafts place definition).outcome = .ok next) :
    keptDrafts config next = keptDrafts config drafts := by
  obtain ⟨first, _, _, id, operation, read, rfl, rfl, -, -, rfl⟩ := addOperation_eq_ok.mp success
  cases (serviceTag?_of_firstTag read).symm.trans tagged
  exact Table.filter_insert_of_dropped drafts _ dropped

/-- What one path entry does to the drafts that are kept. -/
theorem addEndpoint_delete (shares : Shares document other) {drafts next : Table Draft}
    {e : Endpoint} (distinct : (e.item.map Prod.fst).Nodup)
    (own : targets e.definition ⊆ targets document)
    (shared : targets (.object e.item) ⊆ targets document)
    (success : (addEndpoint config models document drafts e).outcome = .ok next) :
    if e.stays config then
      (addEndpoint config.untagged models other (keptDrafts config drafts)
        (e.without config)).outcome = .ok (keptDrafts config next)
    else keptDrafts config next = keptDrafts config drafts := by
  rcases addEndpoint_ok success with
    ⟨method, definition, operates, added⟩ | ⟨⟨method, key⟩, none, rfl⟩
  · split
    · rename_i stays
      have kept : ∀ tag, serviceTag? config definition = some tag →
          (Api.filterOf config).includes tag = true := by
        intro tag tagged
        by_contra dropped
        have deleted : isDeleted config (e.key, e.definition) = true :=
          isDeleted_eq_true.mpr ⟨method, definition, tag, operates.key, operates.definition,
            operates.isMethod, tagged, by simpa using dropped⟩
        simp [Endpoint.stays, deleted] at stays
      have still : (e.without config).Operates method definition :=
        ⟨operates.key, operates.definition, operates.isMethod⟩
      rw [operates.definition] at own
      have addition := addOperation_kept shares distinct own shared kept added
      rw [addEndpoint_of_operates still]
      exact addition
    · rename_i deleted
      have gone : isDeleted config (e.key, e.definition) = true := by
        simpa [Endpoint.stays] using deleted
      obtain ⟨_, _, tag, sameKey, sameDefinition, -, tagged, dropped⟩ := isDeleted_eq_true.mp gone
      rw [operates.definition] at sameDefinition
      cases sameDefinition
      exact addOperation_dropped tagged dropped added
  · split
    · have stillKey : (e.without config).key = .text method := key
      have passed : ∀ other definition, ¬(e.without config).Operates other definition :=
        fun other definition operates =>
          none other definition ⟨operates.key, operates.definition, operates.isMethod⟩
      rw [addEndpoint_of_passed stillKey passed]
      rfl
    · rfl

/-- What is left of the path entries gives the drafts that are kept. -/
theorem addEndpoints_delete (shares : Shares document other) {drafts final : Table Draft}
    {endpoints : List Endpoint}
    (each : ∀ e ∈ endpoints, (e.item.map Prod.fst).Nodup ∧
      targets e.definition ⊆ targets document ∧ targets (.object e.item) ⊆ targets document)
    (success : (addEndpoints config models document drafts endpoints).outcome = .ok final) :
    (addEndpoints config.untagged models other (keptDrafts config drafts)
      ((endpoints.filter (Endpoint.stays config)).map (Endpoint.without config))).outcome =
        .ok (keptDrafts config final) := by
  induction endpoints generalizing drafts with
  | nil =>
    cases success
    rfl
  | cons e rest ih =>
    rw [addEndpoints] at success
    obtain ⟨next, added, success⟩ := Logged.outcome_bind_eq_ok.mp success
    obtain ⟨distinct, own, shared⟩ := each e List.mem_cons_self
    have step := addEndpoint_delete shares distinct own shared added
    have later := ih (fun e' member => each e' (List.mem_cons_of_mem e member)) success
    by_cases stays : e.stays config = true
    · rw [if_pos stays] at step
      rw [List.filter_cons_of_pos stays, List.map_cons, addEndpoints]
      exact Logged.outcome_bind_eq_ok.mpr ⟨_, step, later⟩
    · rw [if_neg stays] at step
      rw [List.filter_cons_of_neg stays, ← step]
      exact later

/-- Describing the services of all tags and of the kept ones only comes to the same. -/
theorem filter_describeAll (keeps : String → Bool) (tags : List Value) (services : Table Service) :
    ((tags.foldl (describe config) services).filter fun tag _ => keeps tag) =
      tags.foldl (describe config) (services.filter fun tag _ => keeps tag) := by
  induction tags generalizing services with
  | nil => rfl
  | cons tag rest ih =>
    have first : ((describe config services tag).filter fun tag _ => keeps tag) =
        describe config (services.filter fun tag _ => keeps tag) tag := by
      unfold describe
      split
      · dsimp only
        split
        · exact Table.filter_modify services keeps _ _
        · rfl
      · rfl
    rw [List.foldl_cons, List.foldl_cons, ih, first]

/-- The services of what is left of a document are those that the filter keeps. -/
theorem ofDocument_delete {fields : Fields} {services : Table Service}
    (avoids : AvoidsPaths (.object fields)) (distinct : Value.Distinct (.object fields))
    (success : (ofDocument config models (.object fields)).outcome = .ok services) :
    (ofDocument config.untagged models (.object (deleteOperations config fields))).outcome =
      .ok ((Api.filterOf config).services services) := by
  obtain ⟨_, paths, drafts, tags, same, found, added, listed, rfl⟩ := ofDocument_eq_ok.mp success
  cases same
  have shares := @shares_deleteOperations config fields avoids
  have each : ∀ e ∈ endpointsOf paths, (e.item.map Prod.fst).Nodup ∧
      targets e.definition ⊆ targets (.object fields) ∧
      targets (.object e.item) ⊆ targets (.object fields) := by
    intro e member
    obtain ⟨atPath, inItem⟩ := mem_endpointsOf.mp member
    rcases Fields.eq_nil_or_mem found with rfl | there
    · cases atPath
    · have within := targets_of_mem (targets_of_mem (List.Subset.refl _) there) atPath
      exact ⟨((distinct.of_mem there).of_mem atPath).keys, targets_of_mem within inItem, within⟩
  have left := addEndpoints_delete shares each added
  rw [← endpointsOf_delete] at left
  refine ofDocument_eq_ok.mpr ⟨deleteOperations config fields, _, _, tags, rfl, ?_, left, ?_, ?_⟩
  · rw [get_paths, deleteFromPaths_orElse, found]
    rfl
  · rw [get_of_ne (by decide)]
    exact listed
  · unfold TagFilter.services keptDrafts
    rw [Table.filter_map, filter_describeAll, Table.filter_map]
    rfl

end Services

namespace Models

theorem addDefinitions_untagged (config : Config) (models : Table Model) (definitions : Fields) :
    addDefinitions config.untagged models definitions =
      addDefinitions config models definitions := by
  induction definitions generalizing models with
  | nil => rfl
  | cons entry rest ih =>
    obtain ⟨name, schema⟩ := entry
    have first : addDefinition config.untagged models name schema =
        addDefinition config models name schema := by
      unfold addDefinition
      rfl
    rw [addDefinitions, addDefinitions, first]
    simp only [ih]

/-- The model table does not depend on the tags. -/
theorem ofDefinitions_untagged (config : Config) (definitions : Value) :
    ofDefinitions config.untagged definitions = ofDefinitions config definitions := by
  unfold ofDefinitions
  simp only [addDefinitions_untagged]

end Models

namespace Api

variable {config : Config} {document other : Value} {fields : Fields}

theorem includes_untagged (config : Config) (tag : String) :
    (filterOf config.untagged).includes tag = true := by
  rfl

theorem services_untagged (config : Config) (services : Table Service) :
    (filterOf config.untagged).services services = services := by
  apply Table.ext_entries
  exact List.filter_eq_self.mpr fun entry _ => includes_untagged config entry.1

theorem rootUrlOf_delete :
    rootUrlOf (.object (Services.deleteOperations config fields)) = rootUrlOf (.object fields) := by
  have host : hostUrl (Services.deleteOperations config fields) = hostUrl fields := by
    unfold hostUrl
    rw [Services.get_of_ne (by decide), Services.get_of_ne (by decide)]
  have basePath := @Services.get_of_ne config fields "basePath" (by decide)
  simp only [rootUrlOf, Value.asFields, bind, Except.bind, host, basePath]

/-- Examples that hold no other references than the document are expanded alike. -/
theorem finishAll_eq (shares : Shares document other) {models : Table Model}
    (inside : ∀ key m, models.get? key = some m → targets m.sample ⊆ targets document) :
    finishAll config.untagged other models = finishAll config document models := by
  have passes : expandSamples other models = expandSamples document models := by
    unfold expandSamples
    refine congrArg (· >>= fun expanded => pure (Table.ofList expanded)) (mapM_congr ?_)
    rintro ⟨key, m⟩ member
    have same : expandSample other m = expandSample document m := by
      unfold expandSample
      rw [expand_eq shares (inside key m (Table.get?_eq_some.mpr member))]
    dsimp only
    rw [same]
  unfold finishAll
  rw [passes]
  rfl

/-- The examples of models refer to nothing but what the document refers to. -/
theorem targets_sample {models : Table Model}
    (built : (Models.ofDefinitions config (definitionsOf fields)).outcome = .ok models)
    {key : String} {m : Model} (present : models.get? key = some m) :
    targets m.sample ⊆ targets (.object fields) := by
  obtain ⟨definitions, _, _, given, -, -, -⟩ := Models.ofDefinitions_eq_ok.mp built
  rw [given] at built
  obtain ⟨name, schema, _, _, behind, -, -, -, -, sample⟩ :=
    Models.readFrom_ofDefinitions built present
  have member := (Models.definitionOf_mem behind).1
  rw [sample]
  rcases Fields.eq_nil_or_mem given with rfl | there
  · cases member
  · exact targets_get (targets_of_mem (targets_of_mem (List.Subset.refl _) there) member) _

/-- A document whose references stay out of its paths compiles to the same tables, whether
services are filtered out by their tags or their operations are deleted beforehand. -/
theorem compile_withoutOperations {api : Api} (avoids : Services.AvoidsPaths document)
    (distinct : document.Distinct) (success : (compile config document).outcome = .ok api) :
    (compile config.untagged (Services.withoutOperations config document)).outcome = .ok api := by
  obtain ⟨fields, models, services, finished, stages⟩ := compile_eq_ok.mp success
  obtain rfl := stages.object
  have shares := @Services.shares_deleteOperations config fields avoids
  have kept : keptModels config.untagged models ((filterOf config).services services) =
      keptModels config models services := by
    unfold keptModels
    rw [services_untagged]
    rfl
  refine compile_eq_ok.mpr ⟨Services.deleteOperations config fields, models,
    (filterOf config).services services, finished, ?_⟩
  refine ⟨rfl, ?_, ?_, ?_, ?_, ?_, stages.models, ?_, ?_⟩
  · rw [Services.get_of_ne (by decide)]
    exact stages.version
  · exact Services.checks_deleteOperations avoids distinct stages.checked
  · rw [Models.ofDefinitions_untagged, definitionsOf, Services.get_of_ne (by decide)]
    exact stages.modelsBuilt
  · exact Services.ofDocument_delete avoids distinct stages.servicesBuilt
  · rw [kept]
    refine (finishAll_eq shares ?_).trans stages.finishing
    intro key m present
    have closed := Models.closed_ofDefinitions stages.modelsBuilt
    exact targets_sample stages.modelsBuilt
      (TagFilter.reaches_of_get?_models closed.keyed present).1
  · rw [services_untagged]
    exact stages.services
  · exact rootUrlOf_delete.trans stages.rootUrl

/-- Without the service of pets, or without its operation, the owners alone are left. -/
theorem compile_withoutOperations_petDocument :
    ∃ api, (compile { includeTags := .text "owners" } petDocument).outcome = .ok api ∧
      api.services.keys = ["Owners"] ∧ Services.AvoidsPaths petDocument ∧ petDocument.Distinct ∧
      (Services.deleteOperations { includeTags := .text "owners" } petFields).get "paths" =
        .object [(.text "/pets", .object []), (.text "/owners", getting "Owners" (refTo "Owner"))] ∧
      (compile ({ includeTags := .text "owners" } : Config).untagged
        (Services.withoutOperations { includeTags := .text "owners" } petDocument)).outcome =
          .ok api := by
  obtain ⟨api, success, -, services⟩ := compile_owners
  have references : targets petDocument =
      ["#/definitions/Owner", "#/definitions/Pet", "#/definitions/Owner"] := rfl
  have avoids : Services.AvoidsPaths petDocument := by
    unfold Services.AvoidsPaths
    rw [references]
    simp only [List.mem_cons, List.not_mem_nil, or_false]
    rintro ref (rfl | rfl | rfl) <;> decide
  have distinct : petDocument.Distinct := by
    simp [petDocument, petFields, petDefinitions, petSchema, getting, refTo, Value.Distinct,
      Value.DistinctFields, Value.DistinctItems]
  have left : (Services.deleteOperations { includeTags := .text "owners" } petFields).get "paths" =
      .object [(.text "/pets", .object []),
        (.text "/owners", getting "Owners" (refTo "Owner"))] := by
    cbv
  exact ⟨api, success, services, avoids, distinct, left,
    compile_withoutOperations avoids distinct success⟩

end Api

end ClientGen
