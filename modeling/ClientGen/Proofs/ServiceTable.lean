import ClientGen.Proofs.Runs
import ClientGen.Proofs.Tables
import ClientGen.Service.Build

/-!
# The service table of a document

A path entry is an operation or it is passed over; an operation extends the draft of the service of
its first tag. The service table is made of the drafts that all entries leave, with the
descriptions of the tags and the dependencies, so that each of its operations is built from an
entry of a path.
-/
namespace ClientGen.Services

structure Endpoint.Operates (e : Endpoint) (method : String) (definition : Fields) : Prop where
  key : e.key = .text method
  definition : e.definition = .object definition
  isMethod : isMethod method = true

def Draft.extend (draft : Draft) (operation : Operation) (id : String) : Draft :=
  ⟨{ draft.service with operations := draft.service.operations ++ [operation] }, draft.ids ++ [id]⟩

variable {config : Config} {models : Table Model} {document : Value}

/-- Adding an operation extends the draft of the service of its first tag. -/
theorem addOperation_eq_ok {drafts next : Table Draft} {place : Operation.Place}
    {definition : Fields} :
    (addOperation config models document drafts place definition).outcome = .ok next ↔
    ∃ first tag draft id operation, firstTag (definition.get "tags") = .ok first ∧
      tag = Naming.tagName first config.defaultTag ∧ draft = draftOf config drafts tag ∧
      (Operation.uniqueId draft.ids (definition.get "operationId") place.method
        place.url).outcome = .ok id ∧
      Operation.build config models document draft.service.className place definition id =
        .ok operation ∧
      next = drafts.insert tag (draft.extend operation id) := by
  unfold addOperation
  constructor
  · intro success
    obtain ⟨first, tagged, success⟩ := Logged.outcome_bind_eq_ok.mp success
    obtain ⟨id, named, success⟩ := Logged.outcome_bind_eq_ok.mp success
    obtain ⟨operation, built, success⟩ := Logged.outcome_bind_eq_ok.mp success
    cases success
    exact ⟨first, _, _, id, operation, tagged, rfl, rfl, named, built, rfl⟩
  · rintro ⟨first, _, _, id, operation, tagged, rfl, rfl, named, built, rfl⟩
    refine Logged.outcome_bind_eq_ok.mpr ⟨first, tagged, ?_⟩
    refine Logged.outcome_bind_eq_ok.mpr ⟨id, named, ?_⟩
    exact Logged.outcome_bind_eq_ok.mpr ⟨operation, built, rfl⟩

/-- An entry that is an operation adds it. -/
theorem addEndpoint_of_operates {drafts : Table Draft} {e : Endpoint} {method : String}
    {definition : Fields} (operates : e.Operates method definition) :
    addEndpoint config models document drafts e =
      addOperation config models document drafts ⟨e.url, method, e.item⟩ definition := by
  obtain ⟨url, key, v, item⟩ := e
  obtain ⟨rfl, rfl, isMethod⟩ := operates
  exact if_pos isMethod

/-- An entry with a text as its key that is no operation is passed over. -/
theorem addEndpoint_of_passed {drafts : Table Draft} {e : Endpoint} {method : String}
    (key : e.key = .text method) (none : ∀ other definition, ¬e.Operates other definition) :
    addEndpoint config models document drafts e = pure drafts := by
  obtain ⟨url, k, v, item⟩ := e
  cases key
  cases v with
  | object definition =>
    have noMethod : ¬isMethod method = true := fun isMethod =>
      none method definition ⟨rfl, rfl, isMethod⟩
    exact if_neg noMethod
  | scalar s => rfl
  | list items => rfl

/-- A path entry adds its operation, or it is none and changes nothing. -/
theorem addEndpoint_ok {drafts next : Table Draft} {e : Endpoint}
    (success : (addEndpoint config models document drafts e).outcome = .ok next) :
    (∃ method definition, e.Operates method definition ∧
      (addOperation config models document drafts ⟨e.url, method, e.item⟩
        definition).outcome = .ok next) ∨
    ((∃ text, e.key = .text text) ∧ (∀ method definition, ¬e.Operates method definition) ∧
      next = drafts) := by
  obtain ⟨url, key, definition, item⟩ := e
  unfold addEndpoint at success
  split at success
  · rename_i method fields named held
    dsimp only at named held
    subst named held
    split at success
    · rename_i isMethod
      exact Or.inl ⟨method, fields, ⟨rfl, rfl, isMethod⟩, success⟩
    · rename_i noMethod
      cases success
      refine Or.inr ⟨⟨method, rfl⟩, ?_, rfl⟩
      rintro other otherFields ⟨sameKey, -, isMethod⟩
      cases sameKey
      exact noMethod isMethod
  · rename_i text named noObject
    cases success
    refine Or.inr ⟨⟨text, named⟩, ?_, rfl⟩
    rintro method fields ⟨-, held, -⟩
    exact noObject _ held
  · cases success

/-- What holds of the drafts after some path entries, and is kept by each further one, holds of them
after all. -/
theorem addEndpoints_induction {P : List Endpoint → Table Draft → Prop}
    (step : ∀ front e drafts next, P front drafts →
      (addEndpoint config models document drafts e).outcome = .ok next → P (front ++ [e]) next)
    {front rest : List Endpoint} {drafts final : Table Draft} (before : P front drafts)
    (success : (addEndpoints config models document drafts rest).outcome = .ok final) :
    P (front ++ rest) final := by
  induction rest generalizing front drafts with
  | nil =>
    cases success
    rwa [List.append_nil]
  | cons e rest ih =>
    rw [addEndpoints] at success
    obtain ⟨next, added, success⟩ := Logged.outcome_bind_eq_ok.mp success
    have later := ih (step front e drafts next before added) success
    rwa [List.append_assoc, List.singleton_append] at later

/-- What all operations built from path entries have in common holds in all drafts. -/
theorem operations_of_addEndpoints {P : Operation → Prop} {drafts final : Table Draft}
    {endpoints : List Endpoint}
    (built : ∀ e ∈ endpoints, ∀ method definition, e.Operates method definition →
      ∀ serviceClass id operation, Operation.build config models document serviceClass
        ⟨e.url, method, e.item⟩ definition id = .ok operation → P operation)
    (before : ∀ tag draft, drafts.get? tag = some draft → ∀ o ∈ draft.service.operations, P o)
    (success : (addEndpoints config models document drafts endpoints).outcome = .ok final) :
    ∀ tag draft, final.get? tag = some draft → ∀ o ∈ draft.service.operations, P o := by
  induction endpoints generalizing drafts with
  | nil =>
    cases success
    exact before
  | cons e rest ih =>
    rw [addEndpoints] at success
    obtain ⟨next, added, success⟩ := Logged.outcome_bind_eq_ok.mp success
    refine ih (fun other later => built other (List.mem_cons_of_mem e later)) ?_ success
    rcases addEndpoint_ok added with ⟨method, definition, operates, addition⟩ | ⟨-, -, rfl⟩
    · obtain ⟨first, tag, draft, id, operation, -, -, ofTag, -, own, rfl⟩ :=
        addOperation_eq_ok.mp addition
      have holds : P operation :=
        built e List.mem_cons_self method definition operates _ id operation own
      have earlier : ∀ o ∈ draft.service.operations, P o := by
        rw [ofTag, draftOf]
        cases found : drafts.get? tag with
        | none => simp [newService]
        | some known => exact before tag known found
      intro key other present o member
      rw [Table.get?_insert] at present
      split at present
      · cases present
        rcases List.mem_append.mp member with old | new
        · exact earlier o old
        · rw [List.mem_singleton] at new
          exact new ▸ holds
      · exact before key other present o member
    · exact before

/-- The service table is made of the drafts of a document. -/
theorem ofDocument_eq_ok {services : Table Service} :
    (ofDocument config models document).outcome = .ok services ↔
    ∃ (fields paths : Fields) (drafts : Table Draft) (tags : List Value),
      document = .object fields ∧
      (fields.get "paths").orElse (.object []) = .object paths ∧
      (addEndpoints config models document .empty (endpointsOf paths)).outcome = .ok drafts ∧
      ((fields.get "tags").orElse (.list [])).elements = .ok tags ∧
      services = (tags.foldl (describe config) (drafts.map Draft.service)).map
        (withDependencies models) := by
  unfold ofDocument
  constructor
  · intro success
    obtain ⟨fields, object, success⟩ := Logged.outcome_bind_eq_ok.mp success
    obtain ⟨paths, found, success⟩ := Logged.outcome_bind_eq_ok.mp success
    obtain ⟨drafts, added, success⟩ := Logged.outcome_bind_eq_ok.mp success
    obtain ⟨tags, listed, success⟩ := Logged.outcome_bind_eq_ok.mp success
    cases success
    exact ⟨fields, paths, drafts, tags, Value.asFields_eq_ok.mp object,
      Value.asFields_eq_ok.mp found, added, listed, rfl⟩
  · rintro ⟨fields, paths, drafts, tags, object, found, added, listed, rfl⟩
    refine Logged.outcome_bind_eq_ok.mpr ⟨fields, Value.asFields_eq_ok.mpr object, ?_⟩
    refine Logged.outcome_bind_eq_ok.mpr ⟨paths, Value.asFields_eq_ok.mpr found, ?_⟩
    refine Logged.outcome_bind_eq_ok.mpr ⟨drafts, added, ?_⟩
    exact Logged.outcome_bind_eq_ok.mpr ⟨tags, listed, rfl⟩

/-- A tag changes the description of a service only. -/
theorem before_describe {services : Table Service} {tag : Value} {key : String} {s : Service}
    (present : (describe config services tag).get? key = some s) :
    ∃ before description, services.get? key = some before ∧ s = { before with description } := by
  unfold describe at present
  split at present
  · dsimp only at present
    split at present
    · unfold Table.modify at present
      split at present
      · rename_i described found
        rw [Table.get?_insert] at present
        split at present
        · rename_i same
          cases present
          exact ⟨described, _, same ▸ found, rfl⟩
        · exact ⟨s, _, present, rfl⟩
      · exact ⟨s, _, present, rfl⟩
    · exact ⟨s, _, present, rfl⟩
  · exact ⟨s, _, present, rfl⟩

theorem keys_describe (services : Table Service) (tag : Value) :
    (describe config services tag).keys = services.keys := by
  unfold describe
  split
  · dsimp only
    split
    · exact Table.keys_modify services _ _
    · rfl
  · rfl

/-- The descriptions of tags leave the services in place. -/
theorem keys_describeAll (services : Table Service) (tags : List Value) :
    (tags.foldl (describe config) services).keys = services.keys := by
  induction tags generalizing services with
  | nil => rfl
  | cons tag rest ih => rw [List.foldl_cons, ih, keys_describe]

theorem before_describeAll {services : Table Service} {tags : List Value} {key : String}
    {s : Service} (present : (tags.foldl (describe config) services).get? key = some s) :
    ∃ before description, services.get? key = some before ∧ s = { before with description } := by
  induction tags generalizing services with
  | nil => exact ⟨s, _, present, rfl⟩
  | cons tag rest ih =>
    obtain ⟨next, description, found, rfl⟩ := ih present
    obtain ⟨before, _, there, rfl⟩ := before_describe found
    exact ⟨before, description, there, rfl⟩

/-- A service of the table is the one that was filled for its tag, with the description of the tag
and its dependencies. -/
theorem filled_of_ofDocument {services : Table Service}
    (success : (ofDocument config models document).outcome = .ok services) {tag : String}
    {s : Service} (present : services.get? tag = some s) :
    ∃ (fields paths : Fields) (drafts : Table Draft) (draft : Draft) (description : Value),
      document = .object fields ∧ (fields.get "paths").orElse (.object []) = .object paths ∧
      (addEndpoints config models document .empty (endpointsOf paths)).outcome = .ok drafts ∧
      drafts.get? tag = some draft ∧
      s = withDependencies models { draft.service with description } := by
  obtain ⟨fields, paths, drafts, tags, object, given, added, -, rfl⟩ := ofDocument_eq_ok.mp success
  rw [Table.get?_map, Option.map_eq_some_iff] at present
  obtain ⟨described, found, rfl⟩ := present
  obtain ⟨before, description, there, rfl⟩ := before_describeAll found
  rw [Table.get?_map, Option.map_eq_some_iff] at there
  obtain ⟨draft, drafted, rfl⟩ := there
  exact ⟨fields, paths, drafts, draft, description, object, given, added, drafted, rfl⟩

/-- The operation `o` is built from the entry `method` of the path `url` of a document, which
defines it by `definition`. -/
def BuiltFrom (config : Config) (models : Table Model) (document : Value) (paths : Fields)
    (definition : Fields) (o : Operation) : Prop :=
  ∃ url method item serviceClass id, (url, .object item) ∈ paths ∧
    (.text method, .object definition) ∈ item ∧ isMethod method = true ∧
    Operation.build config models document serviceClass ⟨url, method, item⟩ definition id = .ok o

theorem mem_endpointsOf {paths : Fields} {e : Endpoint} :
    e ∈ endpointsOf paths ↔ (e.url, .object e.item) ∈ paths ∧ (e.key, e.definition) ∈ e.item := by
  obtain ⟨url, key, definition, item⟩ := e
  unfold endpointsOf
  rw [List.mem_flatMap]
  constructor
  · rintro ⟨⟨u, v⟩, among, member⟩
    cases v with
    | object fields =>
      obtain ⟨⟨k, d⟩, inside, same⟩ := List.mem_map.mp member
      cases same
      exact ⟨among, inside⟩
    | scalar s => simp at member
    | list items => simp at member
  · rintro ⟨among, inside⟩
    exact ⟨(url, .object item), among, List.mem_map.mpr ⟨(key, definition), inside, rfl⟩⟩

/-- Every operation of the service table is built from an entry of a path. -/
theorem builtFrom_of_ofDocument {fields paths : Fields} {services : Table Service}
    (success : (ofDocument config models (.object fields)).outcome = .ok services)
    (given : (fields.get "paths").orElse (.object []) = .object paths) {s : Service}
    (member : s ∈ services.values) {o : Operation} (running : o ∈ s.operations) :
    ∃ definition, BuiltFrom config models (.object fields) paths definition o := by
  obtain ⟨tag, present⟩ := Table.mem_values.mp member
  obtain ⟨_, _, drafts, draft, _, same, samePaths, added, drafted, rfl⟩ :=
    filled_of_ofDocument success present
  cases same
  rw [given] at samePaths
  cases samePaths
  refine operations_of_addEndpoints (P := fun o => ∃ definition,
    BuiltFrom config models (.object fields) paths definition o) ?_ ?_ added tag draft drafted o ?_
  · intro e among method definition operates serviceClass id operation own
    obtain ⟨atPath, inItem⟩ := mem_endpointsOf.mp among
    rw [operates.key, operates.definition] at inItem
    exact ⟨definition, e.url, method, e.item, serviceClass, id, atPath, inItem, operates.isMethod,
      own⟩
  · intro key other empty
    simp [Table.get?, Table.empty] at empty
  · exact running

end ClientGen.Services
