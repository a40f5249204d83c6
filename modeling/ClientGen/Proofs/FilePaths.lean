import ClientGen.Client.Render
import ClientGen.Proofs.FileStems
import ClientGen.Proofs.Pruning

/-!
# The paths of the generated files

Every model, every example that is asked for and every service is written to a file of its own
directory, and the other files have names of their own. The paths are therefore distinct exactly if
the services have distinct stems and no example takes the path of a model (`paths_nodup_iff`); the
models themselves never meet.
-/
namespace ClientGen

open Naming

structure Model.NamesFiles (config : Config) (m : Model) : Prop where
  fileStem : m.fileStem = Naming.fileStem m.className ++ config.modelFileSuffix
  sampleFile : m.sampleFile = Naming.fileStem m.className ++ config.exampleFileSuffix

theorem Model.namesFiles_ofDefinition {config : Config} {name : Scalar} {schema : Fields}
    {m : Model} (success : ofDefinition config name schema = .ok m) : m.NamesFiles config := by
  obtain ⟨d, described, rfl⟩ := ofDefinition_eq_ok.mp success
  unfold descriptorOf at described
  split at described
  · obtain ⟨payload, -, described⟩ := bind_eq_ok.mp described
    cases described
    exact ⟨rfl, rfl⟩
  · cases described

namespace Models

variable {config : Config} {models : Table Model}

/-- Linking a table and collecting its dependencies leave the names of the files alone. -/
theorem namesFiles_ofDefinitions {definitions : Value}
    (success : (ofDefinitions config definitions).outcome = .ok models) {key : String} {m : Model}
    (present : models.get? key = some m) : m.NamesFiles config := by
  obtain ⟨fields, filed, linked, -, built, linking, rfl⟩ := ofDefinitions_eq_ok.mp success
  obtain ⟨bare, found, rfl⟩ := get?_withDependencies.mp present
  obtain ⟨first, parents, there, -, rfl⟩ := linkedTable_ok linking key bare found
  obtain ⟨name, schema, -, read⟩ := ofDefinition_of_fileAll built there
  have named : first.NamesFiles config := Model.namesFiles_ofDefinition read
  rw [Model.withParents_eq]
  exact ⟨named.fileStem, named.sampleFile⟩

/-- The models of a built table are filed by their class names, after which their files are
called. -/
theorem named_of_ofDefinitions {definitions : Value}
    (success : (ofDefinitions config definitions).outcome = .ok models) {key : String} {m : Model}
    (present : models.get? key = some m) :
    Naming.key m.className = key ∧ (∃ name, m.className = className name) ∧
      m.NamesFiles config := by
  have named := namesFiles_ofDefinitions success present
  obtain ⟨fields, _, _, rfl, -, -, -⟩ := ofDefinitions_eq_ok.mp success
  have read := readFrom_ofDefinitions success present
  have filed := read.filed
  obtain ⟨name, _, _, _, -, -, className, -, -, -⟩ := read
  exact ⟨filed, ⟨name, className⟩, named⟩

/-- In a table that is filed by class names the models have different class stems. -/
theorem nodup_classStems
    (filed : ∀ key m, models.get? key = some m →
      Naming.key m.className = key ∧ ∃ name, m.className = className name) :
    (models.values.map fun m => fileStem m.className).Nodup := by
  have keys : models.values.map (fun m => Naming.key m.className) = models.keys := by
    rw [Table.map_values fun key m present => (filed key m present).1]
    exact List.map_id _
  have distinct : (models.values.map fun m => Naming.key m.className).Nodup := by
    rw [keys]
    exact models.nodup
  refine (List.nodup_map_iff_inj_on (distinct.of_map _)).mpr ?_
  -- A stem tells the key, so that the keys of the table carry over to the stems.
  intro m among n amongToo same
  obtain ⟨key, present⟩ := Table.mem_values.mp among
  obtain ⟨other, presentToo⟩ := Table.mem_values.mp amongToo
  obtain ⟨-, name, named⟩ := filed key m present
  obtain ⟨-, otherName, otherNamed⟩ := filed other n presentToo
  refine List.inj_on_of_nodup_map distinct among amongToo ?_
  rw [named, otherNamed] at same ⊢
  exact key_eq_of_fileStem same

/-- What is put behind all stems leaves them different. -/
theorem nodup_suffixed {ms : List Model} (distinct : (ms.map fun m => fileStem m.className).Nodup)
    (suffix : String) : (ms.map fun m => fileStem m.className ++ suffix).Nodup := by
  have keeps : Function.Injective fun stem : String => stem ++ suffix :=
    fun stem other same => (String.append_left_inj suffix).mp same
  have lengthened := distinct.map keeps
  rwa [List.map_map] at lengthened

end Models

namespace Services

variable {config : Config} {models : Table Model} {document : Value}

def OnlyFilled (config : Config) (drafts : Table Draft) : Prop :=
  ∀ tag draft, drafts.get? tag = some draft →
    ∃ operations, draft.service = { newService config tag with operations }

theorem OnlyFilled.addEndpoint {drafts next : Table Draft} {e : Endpoint}
    (filled : OnlyFilled config drafts)
    (success : (addEndpoint config models document drafts e).outcome = .ok next) :
    OnlyFilled config next := by
  rcases addEndpoint_ok success with ⟨method, definition, -, added⟩ | ⟨-, -, rfl⟩
  · obtain ⟨_, tag, draft, id, operation, -, -, ofTag, -, -, rfl⟩ := addOperation_eq_ok.mp added
    have before : ∃ operations, draft.service = { newService config tag with operations } := by
      rw [ofTag, draftOf]
      cases found : drafts.get? tag with
      | none => exact ⟨[], rfl⟩
      | some known => exact filled tag known found
    obtain ⟨operations, service⟩ := before
    intro other extended present
    rw [Table.get?_insert] at present
    split at present
    · rename_i same
      cases present
      subst same
      exact ⟨operations ++ [operation], by rw [Draft.extend, service]⟩
    · exact filled other extended present
  · exact filled

theorem OnlyFilled.addEndpoints {drafts final : Table Draft} {endpoints : List Endpoint}
    (filled : OnlyFilled config drafts)
    (success : (addEndpoints config models document drafts endpoints).outcome = .ok final) :
    OnlyFilled config final :=
  @addEndpoints_induction config models document (fun _ drafts => OnlyFilled config drafts)
    (fun _ _ _ _ before added => before.addEndpoint added) [] endpoints drafts final filled success

/-- The file of a service is called after the class that its tag gives. -/
theorem fileStem_ofDocument {services : Table Service}
    (success : (ofDocument config models document).outcome = .ok services) {tag : String}
    {s : Service} (present : services.get? tag = some s) :
    s.fileStem = fileStem (className tag) ++ config.serviceFileSuffix := by
  obtain ⟨_, _, drafts, draft, _, -, -, added, drafted, rfl⟩ := filled_of_ofDocument success present
  have empty : OnlyFilled config Table.empty := by
    intro tag draft none
    simp [Table.get?, Table.empty] at none
  obtain ⟨operations, service⟩ := empty.addEndpoints added tag draft drafted
  rw [service]
  rfl

end Services

namespace Client

variable {config : Config} {g : Globals} {api : Api} {models : Table Model}

def hasExample (config : Config) (m : Model) : Bool :=
  config.generateExamples && decide (m.sample ≠ .null)

/-- The names of the files in the directory of models: those of the models, then those of the
examples. -/
def modelStems (config : Config) (ms : List Model) : List String :=
  ms.map Model.fileStem ++ (ms.filter (hasExample config)).map Model.sampleFile

/-- The names of the files in no directory that the configuration asks for. -/
def wantedStems (g : Globals) : List String :=
  (if g.config.modelIndex then ["models"] else []) ++
    (if g.config.serviceIndex then ["services"] else []) ++
    (if g.config.apiModule then [moduleStem g.config] else []) ++
    [g.configurationStem, "strict-http-response", "base-service"]

def topPath (stem : String) : String := stem ++ ".ts"

theorem perm_modelPaths (ms : List Model) :
    ((ms.flatMap (modelPlans g models)).map FilePlan.path).Perm
      ((modelStems g.config ms).map modelPath) := by
  induction ms with
  | nil => exact .nil
  | cons m rest ih =>
    rw [modelStems, List.map_append] at ih ⊢
    rw [List.flatMap_cons, List.map_append, List.map_cons, List.map_cons, List.filter_cons]
    by_cases wanted : g.config.generateExamples ∧ m.sample ≠ .null
    · have here : hasExample g.config m = true := by simpa [hasExample] using wanted
      rw [if_pos here, modelPlans, if_pos wanted, List.map_cons, List.map_singleton, List.map_cons,
        List.map_cons]
      exact .cons _ ((ih.cons _).trans List.perm_middle.symm)
    · have none : ¬hasExample g.config m = true := by simpa [hasExample] using wanted
      rw [if_neg none, modelPlans, if_neg wanted]
      exact .cons _ ih

theorem map_path_planIf (wanted : Bool) (plan : FilePlan) :
    (planIf wanted plan).map FilePlan.path = if wanted then [plan.path] else [] := by
  cases wanted <;> rfl

theorem map_topPath_wantedStems (g : Globals) :
    (wantedStems g).map topPath = (if g.config.modelIndex then [modelIndexPath] else []) ++
      (if g.config.serviceIndex then [serviceIndexPath] else []) ++
      (if g.config.apiModule then [modulePath g.config] else []) ++
      [g.configurationStem ++ ".ts", "strict-http-response.ts", "base-service.ts"] := by
  have models : topPath "models" = modelIndexPath := by decide
  have services : topPath "services" = serviceIndexPath := by decide
  have response : topPath "strict-http-response" = "strict-http-response.ts" := by decide
  have base : topPath "base-service" = "base-service.ts" := by decide
  simp only [wantedStems, List.map_append, apply_ite (List.map topPath), List.map_cons,
    List.map_nil, models, services, response, base]
  rfl

/-- The paths by their directories. -/
theorem perm_paths (g : Globals) (api : Api) :
    ((plans g api).map FilePlan.path).Perm
      ((modelStems g.config api.models.values).map modelPath ++
        ((api.services.values.map Service.fileStem).map servicePath ++
          (wantedStems g).map topPath)) := by
  rw [map_topPath_wantedStems]
  simp only [plans, List.map_append, map_path_planIf, List.map_map, List.append_assoc]
  exact (perm_modelPaths _).append (List.perm_append_comm_assoc _ _ _)

theorem modelPath_injective : Function.Injective modelPath := by
  intro stem other same
  exact (String.append_right_inj _).mp ((String.append_left_inj _).mp same)

theorem servicePath_injective : Function.Injective servicePath := by
  intro stem other same
  exact (String.append_right_inj _).mp ((String.append_left_inj _).mp same)

theorem topPath_injective : Function.Injective topPath := by
  intro stem other same
  exact (String.append_left_inj _).mp same

theorem modelPath_ne_servicePath (stem other : String) : modelPath stem ≠ servicePath other := by
  intro same
  have firsts := congrArg (fun path : String => path.toList.head?) same
  simp [modelPath, servicePath] at firsts

theorem wantedStems_sublist (g : Globals) : (wantedStems g).Sublist (sharedStems g) := by
  have kept (wanted : Bool) (stem : String) : (if wanted then [stem] else []).Sublist [stem] := by
    cases wanted <;> simp
  exact (((kept _ _).append (kept _ _)).append (kept _ _)).append (.refl _)

/-- A path in a directory is no path of a file in none. -/
theorem ne_topPath {stem path : String} (wanted : stem ∈ wantedStems g)
    (directory : '/' ∈ path.toList) : path ≠ topPath stem := by
  rintro rfl
  rw [topPath, String.toList_append, List.mem_append] at directory
  rcases directory with inside | ending
  · exact slash_not_mem_sharedStems g stem ((wantedStems_sublist g).subset wanted) inside
  · exact absurd ending (by decide)

/-- The paths are distinct if they are so in the directories of models and of services. -/
theorem nodup_paths_iff_stems (g : Globals) (api : Api) :
    ((plans g api).map FilePlan.path).Nodup ↔
      (modelStems g.config api.models.values).Nodup ∧
        (api.services.values.map Service.fileStem).Nodup := by
  have shared : ((wantedStems g).map topPath).Nodup :=
    ((wantedStems_sublist g).nodup (nodup_sharedStems g)).map topPath_injective
  rw [(perm_paths g api).nodup_iff, List.nodup_append, List.nodup_append,
    List.nodup_map_iff modelPath_injective, List.nodup_map_iff servicePath_injective]
  constructor
  · rintro ⟨models, ⟨services, -, -⟩, -⟩
    exact ⟨models, services⟩
  · rintro ⟨models, services⟩
    refine ⟨models, ⟨services, shared, ?_⟩, ?_⟩
    · intro path served top wanted
      obtain ⟨stem, -, rfl⟩ := List.mem_map.mp served
      obtain ⟨other, given, rfl⟩ := List.mem_map.mp wanted
      exact ne_topPath given (by simp [servicePath])
    · intro path modelled other member
      obtain ⟨stem, -, rfl⟩ := List.mem_map.mp modelled
      rcases List.mem_append.mp member with served | wanted
      · obtain ⟨stem, -, rfl⟩ := List.mem_map.mp served
        exact modelPath_ne_servicePath _ _
      · obtain ⟨stem, given, rfl⟩ := List.mem_map.mp wanted
        exact ne_topPath given (by simp [modelPath])

/-- Each file is written to the path that is planned for it. -/
theorem map_fst_texts {text : Subject → Outcome String} {plans : List FilePlan}
    {entries : List (String × String)}
    (texts : (plans.mapM fun plan => do
      return (plan.path, ← text plan.subject)) = .ok entries) :
    entries.map Prod.fst = plans.map FilePlan.path := by
  have passed := forall₂_of_mapM_ok texts
  clear texts
  induction passed with
  | nil => rfl
  | cons step _ ih =>
    obtain ⟨text, -, same⟩ := bind_eq_ok.mp step
    cases same
    rw [List.map_cons, List.map_cons, ih]

end Client

namespace Api

variable {config : Config} {document : Value} {api : Api}

/-- The models of a compiled document are filed by their class names, after which their files are
called. -/
theorem named_of_compile (success : (compile config document).outcome = .ok api) {key : String}
    {m : Model} (present : api.models.get? key = some m) :
    Naming.key m.className = key ∧ (∃ name, m.className = className name) ∧
      m.NamesFiles config := by
  obtain ⟨fields, models, services, finished, stages⟩ := compile_eq_ok.mp success
  obtain ⟨built, kept, finishes⟩ := stages.kept_of_model present
  have keyed := (Models.closed_ofDefinitions stages.modelsBuilt).keyed
  have there := (TagFilter.reaches_of_get?_models keyed kept).1
  obtain ⟨filed, named, files⟩ := Models.named_of_ofDefinitions stages.modelsBuilt there
  rw [finishes]
  exact ⟨filed, named, files.fileStem, files.sampleFile⟩

/-- The services of a compiled document are filed by their tags, after which their files are
called. -/
theorem fileStem_of_compile (success : (compile config document).outcome = .ok api) {tag : String}
    {s : Service} (present : api.services.get? tag = some s) :
    s.fileStem = fileStem (className tag) ++ config.serviceFileSuffix := by
  obtain ⟨fields, models, services, finished, stages⟩ := compile_eq_ok.mp success
  obtain ⟨built, kept, finishes⟩ := stages.kept_of_service present
  have there := (Table.get?_filter_eq_some.mp kept).1
  have same : s.fileStem = built.fileStem := by rw [finishes]
  exact same.trans (Services.fileStem_ofDocument stages.servicesBuilt there)

/-- The names of the files of a compiled document are apart: no two tags give one for their
services, and no example is called like another model. -/
structure StemsApart (config : Config) (api : Api) : Prop where
  services : ∀ s ∈ api.services.keys, ∀ t ∈ api.services.keys,
    fileStem (className s) = fileStem (className t) → s = t
  examples : config.generateExamples = true →
    ∀ m ∈ api.models.values, ∀ n ∈ api.models.values, m ≠ n → n.sample ≠ .null →
      fileStem m.className ++ config.modelFileSuffix ≠
        fileStem n.className ++ config.exampleFileSuffix

/-- Models of a compiled document have different class stems. -/
theorem nodup_classStems (success : (compile config document).outcome = .ok api) :
    (api.models.values.map fun m => fileStem m.className).Nodup := by
  refine Models.nodup_classStems fun key m present => ?_
  obtain ⟨filed, named, -⟩ := named_of_compile success present
  exact ⟨filed, named⟩

/-- The files in the directory of models have different names exactly if no example is called like
another model. -/
theorem nodup_modelStems_iff (success : (compile config document).outcome = .ok api)
    (suffixes : config.modelFileSuffix ≠ config.exampleFileSuffix) :
    (Client.modelStems config api.models.values).Nodup ↔
      (config.generateExamples = true →
        ∀ m ∈ api.models.values, ∀ n ∈ api.models.values, m ≠ n → n.sample ≠ .null →
          fileStem m.className ++ config.modelFileSuffix ≠
            fileStem n.className ++ config.exampleFileSuffix) := by
  have named : ∀ m ∈ api.models.values, m.NamesFiles config := by
    intro m among
    obtain ⟨key, present⟩ := Table.mem_values.mp among
    exact (named_of_compile success present).2.2
  have distinct := Models.nodup_suffixed (nodup_classStems success)
  have models : (api.models.values.map Model.fileStem).Nodup := by
    rw [List.map_congr_left fun m among => (named m among).fileStem]
    exact distinct _
  have examples : ((api.models.values.filter (Client.hasExample config)).map
      Model.sampleFile).Nodup := by
    refine List.Sublist.nodup (List.filter_sublist.map _) ?_
    rw [List.map_congr_left fun m among => (named m among).sampleFile]
    exact distinct _
  rw [Client.modelStems, List.nodup_append]
  constructor
  · rintro ⟨-, -, apart⟩ wanted m among n amongToo - given
    rw [← (named m among).fileStem, ← (named n amongToo).sampleFile]
    refine apart _ (List.mem_map_of_mem among) _ (List.mem_map_of_mem ?_)
    exact List.mem_filter.mpr ⟨amongToo, by simp [Client.hasExample, wanted, given]⟩
  · intro apart
    refine ⟨models, examples, ?_⟩
    intro stem modelled other exemplified
    obtain ⟨m, among, rfl⟩ := List.mem_map.mp modelled
    obtain ⟨n, kept, rfl⟩ := List.mem_map.mp exemplified
    obtain ⟨amongToo, there⟩ := List.mem_filter.mp kept
    rw [Client.hasExample, Bool.and_eq_true, decide_eq_true_eq] at there
    rw [(named m among).fileStem, (named n amongToo).sampleFile]
    -- A model and its own example are apart by the suffixes alone.
    by_cases same : m = n
    · subst same
      exact fun met => suffixes ((String.append_right_inj _).mp met)
    · exact apart there.1 m among n amongToo same there.2

/-- The files in the directory of services have different names exactly if the tags give different
ones. -/
theorem nodup_serviceStems_iff (success : (compile config document).outcome = .ok api) :
    (api.services.values.map Service.fileStem).Nodup ↔
      ∀ s ∈ api.services.keys, ∀ t ∈ api.services.keys,
        fileStem (className s) = fileStem (className t) → s = t := by
  have keys : api.services.keys.Nodup := api.services.nodup
  rw [Table.map_values fun tag s present => fileStem_of_compile success present,
    List.nodup_map_iff_inj_on keys]
  simp only [String.append_left_inj]

/-- The files of a table have the paths that were planned for them, unless two paths meet. -/
theorem keys_files_iff {text : Client.Subject → Outcome String} {g : Client.Globals}
    {table : Table String} (written : Client.files text g api = .ok table) :
    table.keys = (Client.plans g api).map Client.FilePlan.path ↔
      ((Client.plans g api).map Client.FilePlan.path).Nodup := by
  obtain ⟨entries, texts, made⟩ := bind_eq_ok.mp written
  cases made
  have paths := Client.map_fst_texts texts
  rw [← paths]
  constructor
  · intro same
    rw [← same]
    exact (Table.ofList entries).nodup
  · intro distinct
    rw [Table.keys, Table.entries_ofList distinct]

/-- For a document that compiles, the paths of its files are distinct exactly if no two services
have files of the same name and no example is called like another model, and just then the table of
files, whatever the texts in them, has one for each model, each example and each service, and the
other files. -/
theorem paths_nodup_iff (success : (compile config document).outcome = .ok api)
    (suffixes : config.modelFileSuffix ≠ config.exampleFileSuffix) :
    (((Client.plans ⟨config, api.rootUrl⟩ api).map Client.FilePlan.path).Nodup ↔
      api.StemsApart config) ∧
    ∀ text table, Client.files text ⟨config, api.rootUrl⟩ api = .ok table →
      (table.keys = (Client.plans ⟨config, api.rootUrl⟩ api).map Client.FilePlan.path ↔
        api.StemsApart config) := by
  have apart : ((Client.plans ⟨config, api.rootUrl⟩ api).map Client.FilePlan.path).Nodup ↔
      api.StemsApart config := by
    rw [Client.nodup_paths_iff_stems, nodup_modelStems_iff success suffixes,
      nodup_serviceStems_iff success]
    exact ⟨fun ⟨examples, services⟩ => ⟨services, examples⟩,
      fun ⟨services, examples⟩ => ⟨examples, services⟩⟩
  exact ⟨apart, fun _ _ written => (keys_files_iff written).trans apart⟩

/-- A document with a service for pets, which have an example, and one for something else. -/
def shopDocument (other tag : String) : Value :=
  .object [(.text "swagger", .text supportedVersion),
    (.text "definitions", .object [
      (.text "Pet", .object [(.text "type", .text "object"), (.text "example", .text "Rex")]),
      (.text other, .object [(.text "type", .text "object")])]),
    (.text "paths", .object [
      (.text "/pets", getting "PETSTORE" (refTo "Pet")),
      (.text "/others", getting tag (refTo other))])]

/-- Pets with an example, owners and their services are all written to files of their own. -/
theorem paths_nodup_shop : ∃ api,
    (compile { generateExamples := true } (shopDocument "Owner" "owners")).outcome = .ok api ∧
    api.models.values.map Model.sample = [.text "Rex", .null] ∧
    api.services.keys = ["PETSTORE", "Owners"] ∧ api.StemsApart { generateExamples := true } ∧
    ((Client.plans ⟨{ generateExamples := true }, api.rootUrl⟩ api).map
      Client.FilePlan.path).Nodup := by
  obtain ⟨api, success, models, services⟩ : ∃ api,
      (compile { generateExamples := true } (shopDocument "Owner" "owners")).outcome = .ok api ∧
      api.models.values.map (fun m => (m.className, m.sample)) =
        [("Pet", .text "Rex"), ("Owner", .null)] ∧
      api.services.keys = ["PETSTORE", "Owners"] := by
    refine ⟨_, by cbv, ?_, ?_⟩ <;> cbv
  obtain ⟨pet, _, values, ofPet, others⟩ := List.map_eq_cons_iff.mp models
  obtain ⟨owner, rfl, ofOwner⟩ := List.map_eq_singleton_iff.mp others
  obtain ⟨petClass, petSample⟩ := Prod.mk.inj ofPet
  obtain ⟨ownerClass, ownerSample⟩ := Prod.mk.inj ofOwner
  have apart : api.StemsApart { generateExamples := true } := by
    constructor
    · rw [services]
      decide
    · rw [values]
      intro _ m among n amongToo different given
      simp only [List.mem_cons, List.not_mem_nil, or_false] at among amongToo
      rcases among with rfl | rfl <;> rcases amongToo with rfl | rfl
      · exact absurd rfl different
      · exact absurd ownerSample given
      · rw [ownerClass, petClass]
        decide
      · exact absurd rfl different
  refine ⟨api, success, ?_, services, apart, (paths_nodup_iff success (by decide)).1.mpr apart⟩
  rw [values, List.map_cons, List.map_singleton, petSample, ownerSample]

/-- Two services are written to one file, and so are the example of a model and another model. -/
theorem paths_meet : ∃ api,
    (compile { generateExamples := true } (shopDocument "PetExample" "petstore")).outcome =
      .ok api ∧
    api.models.values.map (fun m => (m.fileStem, m.sample, m.sampleFile)) =
      [("pet", .text "Rex", "pet-example"),
        ("pet-example", .null, "pet-example-example")] ∧
    api.services.values.map (fun s => (s.name, s.fileStem)) =
      [("PETSTORE", "petstore.service"), ("Petstore", "petstore.service")] ∧
    ¬((Client.plans ⟨{ generateExamples := true }, api.rootUrl⟩ api).map
      Client.FilePlan.path).Nodup ∧
    ∀ text table, Client.files text ⟨{ generateExamples := true }, api.rootUrl⟩ api = .ok table →
      table.keys ≠ (Client.plans ⟨{ generateExamples := true }, api.rootUrl⟩ api).map
        Client.FilePlan.path := by
  obtain ⟨api, success, models, services⟩ : ∃ api,
      (compile { generateExamples := true } (shopDocument "PetExample" "petstore")).outcome =
        .ok api ∧
      api.models.values.map (fun m => (m.fileStem, m.sample, m.sampleFile)) =
        [("pet", .text "Rex", "pet-example"),
          ("pet-example", .null, "pet-example-example")] ∧
      api.services.values.map (fun s => (s.name, s.fileStem)) =
        [("PETSTORE", "petstore.service"), ("Petstore", "petstore.service")] := by
    refine ⟨_, by cbv, ?_, ?_⟩ <;> cbv
  have stems : api.services.values.map Service.fileStem =
      ["petstore.service", "petstore.service"] := by
    have seconds := congrArg (List.map Prod.snd) services
    rwa [List.map_map] at seconds
  have meet : ¬((Client.plans ⟨{ generateExamples := true }, api.rootUrl⟩ api).map
      Client.FilePlan.path).Nodup := by
    intro distinct
    have apart := ((Client.nodup_paths_iff_stems _ api).mp distinct).2
    rw [stems] at apart
    exact absurd apart (by decide)
  exact ⟨api, success, models, services, meet,
    fun _ _ written same => meet ((keys_files_iff written).mp same)⟩

end Api

end ClientGen
