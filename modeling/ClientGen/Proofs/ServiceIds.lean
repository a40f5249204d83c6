import Mathlib
import ClientGen.Proofs.BuiltOperations
import ClientGen.Proofs.OperationIds
import ClientGen.Proofs.ServiceTable
import ClientGen.Proofs.TagDeletion

/-!
# The ids of the operations of a service

Each service of a document has its own ids. They are made from the bases that the operations with
its tag have in the order of the path entries, whatever operations of other services stand between
them, and every operation is built with its id (`namedBy_of_ofDocument`).
-/
namespace ClientGen

/-- The operation is named by the id, as the configuration asks for it, and so is the class of its
parameters. -/
structure Operation.NamedBy (config : Config) (id : String) (o : Operation) : Prop where
  name : o.name = if config.camelCase then Text.lowerFirst id else id
  paramsClass : ∀ c, o.paramsClass = some c → c = Text.upperFirst id ++ "Params"

theorem Operation.namedBy_build {config : Config} {models : Table Model} {document : Value}
    {serviceClass id : String} {place : Operation.Place} {definition : Fields} {o : Operation}
    (success : Operation.build config models document serviceClass place definition id = .ok o) :
    o.NamedBy config id := by
  obtain ⟨_, _, _, _, _, parts⟩ := Operation.build_ok success
  refine ⟨parts.name, ?_⟩
  intro c given
  rw [parts.paramsClass, Operation.paramsClassFor, Option.ite_none_right_eq_some,
    Option.some.injEq] at given
  exact given.2.symm

namespace Operation

/-- Ids are given from left to right. -/
theorem freshIds_concat (known bases : List String) (base : String) :
    freshIds known (bases ++ [base]) =
      freshIds known bases ++ [freshId (known ++ freshIds known bases) base] := by
  induction bases generalizing known with
  | nil => simp [freshIds]
  | cons first rest ih => simp [freshIds, ih]

end Operation

namespace Services

/-- The base of the id of a path entry, if it is an operation of the service `tag`. -/
def Endpoint.base? (config : Config) (tag : String) (e : Endpoint) : Option String :=
  match e.key, e.definition with
  | .text method, .object definition =>
    if isMethod method ∧ serviceTag? config definition = some tag then
      (Operation.baseId (Fields.get definition "operationId") method e.url).toOption
    else none
  | _, _ => none

/-- The bases of the ids of the operations of the service `tag`, in order. -/
def basesOf (config : Config) (tag : String) (endpoints : List Endpoint) : List String :=
  endpoints.filterMap (Endpoint.base? config tag)

variable {config : Config} {models : Table Model} {document : Value} {tag : String}

theorem base?_eq_some {e : Endpoint} {base : String} :
    e.base? config tag = some base ↔ ∃ method definition, e.Operates method definition ∧
      serviceTag? config definition = some tag ∧
      Operation.baseId (definition.get "operationId") method e.url = .ok base := by
  obtain ⟨url, key, v, item⟩ := e
  constructor
  · intro found
    unfold Endpoint.base? at found
    split at found
    · rename_i method definition named held
      rw [Option.ite_none_right_eq_some] at found
      obtain ⟨⟨isMethod, tagged⟩, read⟩ := found
      refine ⟨method, definition, ⟨named, held, isMethod⟩, tagged, ?_⟩
      cases made : Operation.baseId (Fields.get definition "operationId") method url with
      | error e =>
        rw [made] at read
        cases read
      | ok b =>
        rw [made] at read
        cases read
        rfl
    · cases found
  · rintro ⟨method, definition, ⟨rfl, rfl, isMethod⟩, tagged, made⟩
    dsimp only at made
    simp [Endpoint.base?, isMethod, tagged, made, Except.toOption]

/-- The drafts hold, for each tag, the operations that the path entries give it, with their ids. -/
def Filled (config : Config) (endpoints : List Endpoint) (drafts : Table Draft) : Prop :=
  ∀ tag, (draftOf config drafts tag).ids = Operation.freshIds [] (basesOf config tag endpoints) ∧
    List.Forall₂ (fun id o => o.NamedBy config id) (draftOf config drafts tag).ids
      (draftOf config drafts tag).service.operations

theorem draftOf_insert (drafts : Table Draft) (tag other : String) (draft : Draft) :
    draftOf config (drafts.insert tag draft) other =
      if other = tag then draft else draftOf config drafts other := by
  unfold draftOf
  rw [Table.get?_insert]
  split <;> rfl

theorem filled_empty : Filled config [] .empty :=
  fun _ => ⟨rfl, .nil⟩

/-- A path entry that is no operation of a service leaves its bases as they are. -/
theorem basesOf_concat_of_none {endpoints : List Endpoint} {e : Endpoint}
    (none : e.base? config tag = none) :
    basesOf config tag (endpoints ++ [e]) = basesOf config tag endpoints := by
  simp [basesOf, none]

theorem basesOf_concat {endpoints : List Endpoint} {e : Endpoint} {base : String}
    (found : e.base? config tag = some base) :
    basesOf config tag (endpoints ++ [e]) = basesOf config tag endpoints ++ [base] := by
  simp [basesOf, found]

/-- One path entry adds its operation, with the id that its base gets, to its service alone. -/
theorem Filled.addEndpoint {endpoints : List Endpoint} {drafts next : Table Draft} {e : Endpoint}
    (filled : Filled config endpoints drafts)
    (success : (addEndpoint config models document drafts e).outcome = .ok next) :
    Filled config (endpoints ++ [e]) next := by
  rcases addEndpoint_ok success with ⟨method, definition, operates, added⟩ | ⟨-, passed, rfl⟩
  · obtain ⟨first, tag, draft, id, operation, read, ofTag, ofDraft, named, built, rfl⟩ :=
      addOperation_eq_ok.mp added
    obtain ⟨base, made, rfl⟩ := Operation.uniqueId_eq_ok.mp named
    have tagged : serviceTag? config definition = some tag := by
      rw [serviceTag?, read, ofTag]
      rfl
    intro other
    rw [draftOf_insert]
    split
    · rename_i same
      subst same
      obtain ⟨ids, operations⟩ := filled other
      rw [← ofDraft] at ids operations
      have found : e.base? config other = some base :=
        base?_eq_some.mpr ⟨method, definition, operates, tagged, made⟩
      rw [basesOf_concat found, Operation.freshIds_concat, List.nil_append, ← ids]
      exact ⟨rfl, List.rel_append operations (.cons (Operation.namedBy_build built) .nil)⟩
    · rename_i different
      have none : e.base? config other = none := by
        rw [Option.eq_none_iff_forall_ne_some]
        intro b found
        obtain ⟨_, _, ⟨_, held, _⟩, otherTag, -⟩ := base?_eq_some.mp found
        rw [operates.definition] at held
        cases held
        exact different (Option.some.inj (otherTag.symm.trans tagged))
      rw [basesOf_concat_of_none none]
      exact filled other
  · intro tag
    have none : e.base? config tag = none := by
      rw [Option.eq_none_iff_forall_ne_some]
      intro base found
      obtain ⟨method, definition, operates, -⟩ := base?_eq_some.mp found
      exact passed method definition operates
    rw [basesOf_concat_of_none none]
    exact filled tag

/-- The path entries fill the drafts one after another. -/
theorem Filled.addEndpoints {front rest : List Endpoint} {drafts final : Table Draft}
    (filled : Filled config front drafts)
    (success : (addEndpoints config models document drafts rest).outcome = .ok final) :
    Filled config (front ++ rest) final :=
  addEndpoints_induction (fun _ _ _ _ before added => before.addEndpoint added) filled success

def pathEntries : Value → List Endpoint
  | .object fields =>
    match (Fields.get fields "paths").orElse (.object []) with
    | .object paths => endpointsOf paths
    | _ => []
  | _ => []

/-- The bases of the ids of the operations of the service `tag` of a document, in order. -/
def baseIds (config : Config) (document : Value) (tag : String) : List String :=
  basesOf config tag (pathEntries document)

def operationIds (config : Config) (document : Value) (tag : String) : List String :=
  Operation.freshIds [] (baseIds config document tag)

/-- The operations of a service are built with the ids that their bases get one after another. -/
theorem namedBy_of_ofDocument {services : Table Service}
    (success : (ofDocument config models document).outcome = .ok services) {s : Service}
    (present : services.get? tag = some s) :
    List.Forall₂ (fun id o => o.NamedBy config id) (operationIds config document tag)
      s.operations := by
  obtain ⟨fields, paths, drafts, draft, _, rfl, given, added, drafted, rfl⟩ :=
    filled_of_ofDocument success present
  obtain ⟨ids, operations⟩ := (filled_empty.addEndpoints added) tag
  have ofTag : draftOf config drafts tag = draft := by
    rw [draftOf, drafted]
    rfl
  have entries : pathEntries (.object fields) = endpointsOf paths := by
    rw [pathEntries, given]
  rw [ofTag, List.nil_append] at ids
  rw [ofTag] at operations
  rw [operationIds, baseIds, entries, ← ids]
  exact operations

end Services

end ClientGen
