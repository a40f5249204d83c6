import Mathlib
import ClientGen.Api
import ClientGen.Proofs.ClosedModels
import ClientGen.Proofs.Tables

/-!
# The stages of a compilation

A compilation that succeeds has built both tables, filtered them, expanded the examples that it
was asked for and marked the last entries (`compile_eq_ok`). Past the filter nothing is added or
dropped, and a model only changes in its example and in whether it is the last.
-/
namespace ClientGen

def Model.Finishes (m built : Model) : Prop :=
  m = { built with sample := m.sample, isLast := m.isLast }

def Service.Finishes (s built : Service) : Prop :=
  s = { built with isLast := s.isLast }

namespace Api

/-- The definitions of a document; without any there are none. -/
def definitionsOf (fields : Fields) : Value :=
  (fields.get "definitions").orElse (.object [])

def filterOf (config : Config) : TagFilter :=
  .ofTags config.includeTags config.excludeTags config.ignoreUnusedModels config.defaultTag

def keptModels (config : Config) (models : Table Model) (services : Table Service) :
    Table Model :=
  (filterOf config).models models ((filterOf config).services services)

/-- A model with its example as the configuration asks for it. -/
def finish (config : Config) (document : Value) (m : Model) : Outcome Model :=
  if config.generateExamples then expandSample document m else .ok m

/-- The models with their examples as the configuration asks for them. -/
def finishAll (config : Config) (document : Value) (models : Table Model) :
    Outcome (Table Model) :=
  if config.generateExamples then expandSamples document models else .ok models

/-- The document of `fields` compiles to `api`, by way of the tables that are built, `models` and
`services`, and of the kept models with their final examples, `finished`. -/
structure Stages (config : Config) (document : Value) (fields : Fields) (models : Table Model)
    (services : Table Service) (finished : Table Model) (api : Api) : Prop where
  object : document = .object fields
  version : fields.get "swagger" = .text supportedVersion
  checked : ∃ count, Reference.checkAll document = .ok count
  modelsBuilt : (Models.ofDefinitions config (definitionsOf fields)).outcome = .ok models
  servicesBuilt : (Services.ofDocument config models document).outcome = .ok services
  finishing : finishAll config document (keptModels config models services) = .ok finished
  models : api.models = markLastValue (fun b m => { m with isLast := b }) finished
  services : api.services =
    markLastValue (fun b s => { s with isLast := b }) ((filterOf config).services services)
  rootUrl : rootUrlOf document = .ok api.rootUrl

/-- A compilation succeeds exactly if it goes through all stages. -/
theorem compile_eq_ok {config : Config} {document : Value} {api : Api} :
    (compile config document).outcome = .ok api ↔
      ∃ fields models services finished,
        Stages config document fields models services finished api := by
  constructor
  · intro success
    unfold compile at success
    obtain ⟨fields, object, success⟩ := Logged.outcome_bind_eq_ok.mp success
    dsimp only at success
    split at success
    · obtain ⟨_, refused, -⟩ := Logged.outcome_bind_eq_ok.mp success
      cases refused
    · rename_i supported
      obtain ⟨count, checked, success⟩ := Logged.outcome_bind_eq_ok.mp success
      obtain ⟨models, modelsBuilt, success⟩ := Logged.outcome_bind_eq_ok.mp success
      obtain ⟨services, servicesBuilt, success⟩ := Logged.outcome_bind_eq_ok.mp success
      obtain ⟨_, -, success⟩ := Logged.outcome_bind_eq_ok.mp success
      obtain ⟨filtered, applied, success⟩ := Logged.outcome_bind_eq_ok.mp success
      cases applied
      have isObject : document = .object fields := Value.asFields_eq_ok.mp object
      split at success
      · rename_i wanted
        obtain ⟨finished, expanded, success⟩ := Logged.outcome_bind_eq_ok.mp success
        obtain ⟨rootUrl, located, success⟩ := Logged.outcome_bind_eq_ok.mp success
        cases success
        exact ⟨fields, models, services, finished, isObject, not_not.mp supported,
          ⟨count, checked⟩, modelsBuilt, servicesBuilt, (if_pos wanted).trans expanded, rfl, rfl,
          located⟩
      · rename_i unwanted
        obtain ⟨finished, same, success⟩ := Logged.outcome_bind_eq_ok.mp success
        cases same
        obtain ⟨rootUrl, located, success⟩ := Logged.outcome_bind_eq_ok.mp success
        cases success
        exact ⟨fields, models, services, _, isObject, not_not.mp supported,
          ⟨count, checked⟩, modelsBuilt, servicesBuilt, if_neg unwanted, rfl, rfl, located⟩
  · rintro ⟨fields, models, services, finished, stages⟩
    obtain ⟨apiModels, apiServices, rootUrl⟩ := api
    obtain ⟨count, checked⟩ := stages.checked
    have given : apiModels = _ := stages.models
    have running : apiServices = _ := stages.services
    subst given running
    unfold compile
    refine Logged.outcome_bind_eq_ok.mpr
      ⟨fields, Value.asFields_eq_ok.mpr stages.object, ?_⟩
    dsimp only
    rw [if_neg (not_not.mpr stages.version)]
    refine Logged.outcome_bind_eq_ok.mpr ⟨count, checked, ?_⟩
    refine Logged.outcome_bind_eq_ok.mpr ⟨models, stages.modelsBuilt, ?_⟩
    refine Logged.outcome_bind_eq_ok.mpr ⟨services, stages.servicesBuilt, ?_⟩
    refine Logged.outcome_bind_eq_ok.mpr ⟨(), rfl, ?_⟩
    refine Logged.outcome_bind_eq_ok.mpr ⟨_, rfl, ?_⟩
    have expanded := stages.finishing
    unfold finishAll at expanded
    split at expanded
    · rename_i wanted
      rw [if_pos wanted]
      refine Logged.outcome_bind_eq_ok.mpr ⟨finished, expanded, ?_⟩
      exact Logged.outcome_bind_eq_ok.mpr ⟨rootUrl, stages.rootUrl, rfl⟩
    · rename_i unwanted
      cases expanded
      rw [if_neg unwanted]
      refine Logged.outcome_bind_eq_ok.mpr ⟨_, rfl, ?_⟩
      exact Logged.outcome_bind_eq_ok.mpr ⟨rootUrl, stages.rootUrl, rfl⟩

/-- Finishing leaves the models in place. -/
theorem finishAll_ok {config : Config} {document : Value} {models finished : Table Model}
    (success : finishAll config document models = .ok finished) :
    Table.Paired (fun built final => finish config document built = .ok final) models finished := by
  unfold finishAll at success
  split at success
  · rename_i wanted
    simp only [finish, wanted, if_true]
    obtain ⟨finals, passed, success⟩ := bind_eq_ok.mp success
    cases success
    exact Table.paired_of_mapM_ok passed
  · rename_i unwanted
    cases success
    simp only [finish, unwanted]
    exact List.forall₂_same.mpr fun entry _ => ⟨rfl, rfl⟩

theorem get?_markLastValue {α : Type} (mark : Bool → α → α) (t : Table α) (key : String) :
    (markLastValue mark t).get? key = (t.get? key).map (mark (some key == t.keys.getLast?)) :=
  Table.get?_mapEntries t _ key

/-- Finishing a model changes its example only. -/
theorem finishes_of_finish {config : Config} {document : Value} {built m : Model}
    (success : finish config document built = .ok m) (isLast : Bool) :
    Model.Finishes { m with isLast } built := by
  unfold finish at success
  split at success
  · unfold expandSample at success
    split at success
    · cases success
      rfl
    · obtain ⟨sample, -, success⟩ := bind_eq_ok.mp success
      cases success
      rfl
  · cases success
    rfl

namespace Stages

variable {config : Config} {document : Value} {fields : Fields} {built : Table Model}
  {services : Table Service} {finished : Table Model} {api : Api}

/-- Every kept model is given out under its key. -/
theorem model_of_kept (stages : Stages config document fields built services finished api)
    {key : String} {m : Model}
    (kept : (keptModels config built services).get? key = some m) :
    ∃ final, api.models.get? key = some final ∧ final.Finishes m := by
  obtain ⟨final, present, ready⟩ := (finishAll_ok stages.finishing).get? kept
  rw [stages.models, get?_markLastValue, present]
  exact ⟨_, rfl, finishes_of_finish ready _⟩

/-- Every model that is given out is a kept one. -/
theorem kept_of_model (stages : Stages config document fields built services finished api)
    {key : String} {final : Model} (present : api.models.get? key = some final) :
    ∃ m, (keptModels config built services).get? key = some m ∧ final.Finishes m := by
  rw [stages.models, get?_markLastValue, Option.map_eq_some_iff] at present
  obtain ⟨ready, found, rfl⟩ := present
  obtain ⟨m, kept, finishing⟩ := (finishAll_ok stages.finishing).flip.get? found
  exact ⟨m, kept, finishes_of_finish finishing _⟩

/-- Every service that is given out is one that was built, under a tag that the filter keeps. -/
theorem kept_of_service (stages : Stages config document fields built services finished api)
    {key : String} {final : Service} (present : api.services.get? key = some final) :
    ∃ s, ((filterOf config).services services).get? key = some s ∧ final.Finishes s := by
  rw [stages.services, get?_markLastValue, Option.map_eq_some_iff] at present
  obtain ⟨s, found, rfl⟩ := present
  exact ⟨s, found, rfl⟩

end Stages

def refTo (name : String) : Value :=
  .object [(.text "$ref", .text (Model.definitionPath name))]

/-- An operation with the tag `tag` that returns what `schema` describes. -/
def getting (tag : String) (schema : Value) : Value :=
  .object [(.text "get", .object [
    (.text "tags", .list [.text tag]), (.text "operationId", .text ("get" ++ tag)),
    (.text "responses", .object [(.text "200", .object [(.text "schema", schema)])])])]

def petSchema : Fields :=
  [(.text "properties", .object [
    (.text "owners", .object [(.text "type", .text "array"), (.text "items", refTo "Owner")])])]

/-- Definitions of pets and owners, and of vets, which nothing uses. -/
def petDefinitions : Fields :=
  [(.text "Vet", .object [(.text "type", .text "object")]),
    (.text "Owner", .object [(.text "type", .text "object")]),
    (.text "Pet", .object petSchema)]

theorem petModels_built :
    ∃ models, (Models.ofDefinitions {} (.object petDefinitions)).outcome = .ok models :=
  ⟨_, by cbv⟩

/-- The fields of a document with a service for pets and one for owners. -/
def petFields : Fields :=
  [(.text "swagger", .text supportedVersion),
    (.text "definitions", .object petDefinitions),
    (.text "paths", .object [
      (.text "/pets", getting "Pets" (refTo "Pet")),
      (.text "/owners", getting "Owners" (refTo "Owner"))])]

def petDocument : Value := .object petFields

/-- With the tag of the owners alone their model and their service are left. -/
theorem compile_owners :
    ∃ api, (compile { includeTags := .text "owners" } petDocument).outcome = .ok api ∧
      api.models.keys = ["owner"] ∧ api.services.keys = ["Owners"] := by
  refine ⟨_, by cbv, ?_, ?_⟩ <;> cbv

end Api

end ClientGen
