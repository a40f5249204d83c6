import Mathlib.Data.List.Perm.Basic
import ClientGen.Proofs.Compilation
import ClientGen.Proofs.ServiceIds
import ClientGen.Proofs.TupleTypes

/-!
# Operations grouped by tag

Every operation that the paths of a document declare stands in the service of its first tag, once
and in its place: the services come in the order in which their tags first come up, and the
operations of each in the order of the path entries (`operations_grouped`). Tags that give the same
service name are one tag. What is no object or no method declares no operation.
-/
namespace ClientGen

/-- The items of a list, taken together by their keys, are those of the list. -/
theorem perm_flatMap_filter {α κ : Type} [DecidableEq κ] {keys : List κ} {items : List α}
    {key : α → κ} (distinct : keys.Nodup) (covered : ∀ a ∈ items, key a ∈ keys) :
    (keys.flatMap fun k => items.filter fun a => key a = k).Perm items := by
  induction keys generalizing items with
  | nil =>
    have none : items = [] :=
      List.eq_nil_iff_forall_not_mem.mpr fun a member => List.not_mem_nil (covered a member)
    rw [none]
    exact .refl _
  | cons k rest ih =>
    obtain ⟨fresh, distinct⟩ := List.nodup_cons.mp distinct
    let others := items.filter fun a => ¬key a = k
    have others_covered : ∀ a ∈ others, key a ∈ rest := by
      intro a member
      obtain ⟨among, other⟩ := List.mem_filter.mp member
      exact (List.mem_cons.mp (covered a among)).resolve_left (by simpa using other)
    have same : (rest.flatMap fun l => items.filter fun a => key a = l) =
        rest.flatMap fun l => others.filter fun a => key a = l := by
      refine List.flatMap_congr fun l member => ?_
      rw [List.filter_filter]
      refine List.filter_congr fun a _ => ?_
      have apart : l ≠ k := fun equal => fresh (equal ▸ member)
      by_cases here : key a = l
      · simp [here, apart]
      · simp [here]
    rw [List.flatMap_cons, same]
    have split := List.filter_append_perm (fun a => decide (key a = k)) items
    have rejoined := (ih distinct others_covered).append_left (items.filter fun a => key a = k)
    refine rejoined.trans ?_
    simpa [others] using split

namespace Services

/-- An operation as the paths of a document declare it, with the tag of its service. -/
structure Declared where
  tag : String
  place : Operation.Place
  definition : Fields

/-- The operation that a path entry declares, if it does. -/
def Endpoint.declared? (config : Config) (e : Endpoint) : Option Declared :=
  match e.key, e.definition with
  | .text method, .object definition =>
    if isMethod method then
      (serviceTag? config definition).map fun tag => ⟨tag, ⟨e.url, method, e.item⟩, definition⟩
    else none
  | _, _ => none

/-- The operations that path entries declare, in order. -/
def declaredBy (config : Config) (endpoints : List Endpoint) : List Declared :=
  endpoints.filterMap (Endpoint.declared? config)

def declaredOperations (config : Config) (document : Value) : List Declared :=
  declaredBy config (pathEntries document)

structure Declared.Gives (config : Config) (models : Table Model) (document : Value) (d : Declared)
    (o : Operation) : Prop where
  path : o.path = d.place.url
  method : o.method = Text.upper d.place.method
  built : ∃ serviceClass id,
    Operation.build config models document serviceClass d.place d.definition id = .ok o

structure GroupedByTag (config : Config) (models : Table Model) (document : Value)
    (services : Table Service) : Prop where
  /-- A method of a path that is defined by an object is declared, under its first tag. -/
  declared : ∀ e ∈ pathEntries document, ∀ method definition, e.Operates method definition →
    ∃ first, firstTag (definition.get "tags") = .ok first ∧ e.declared? config =
      some ⟨Naming.tagName first config.defaultTag, ⟨e.url, method, e.item⟩, definition⟩
  /-- The services come in the order in which their tags first come up. -/
  tags : services.keys =
    TypeExpr.distinct ((declaredOperations config document).map Declared.tag)
  /-- A service holds the operations with its tag, in the order of the document. -/
  operations : ∀ tag s, services.get? tag = some s →
    List.Forall₂ (Declared.Gives config models document)
      ((declaredOperations config document).filter fun d => d.tag = tag) s.operations
  nonempty : ∀ s ∈ services.values, s.operations ≠ []
  /-- The services hold each declared operation once, and no other. -/
  once : (services.entries.flatMap fun (tag, s) => s.operations.map fun o =>
      (tag, o.path, o.method)).Perm
    ((declaredOperations config document).map fun d =>
      (d.tag, d.place.url, Text.upper d.place.method))

variable {config : Config} {models : Table Model} {document : Value} {tag : String}

theorem declared?_of_operates {e : Endpoint} {method : String} {definition : Fields}
    (operates : e.Operates method definition) {first : Value}
    (read : firstTag (definition.get "tags") = .ok first) :
    e.declared? config =
      some ⟨Naming.tagName first config.defaultTag, ⟨e.url, method, e.item⟩, definition⟩ := by
  obtain ⟨url, key, v, item⟩ := e
  obtain ⟨rfl, rfl, isMethod⟩ := operates
  simp [Endpoint.declared?, isMethod, serviceTag?, read, Except.toOption]

theorem declared?_of_passed {e : Endpoint}
    (passed : ∀ method definition, ¬e.Operates method definition) : e.declared? config = none := by
  unfold Endpoint.declared?
  split
  · rename_i method definition named held
    exact if_neg fun isMethod => passed method definition ⟨named, held, isMethod⟩
  · rfl

/-- An operation has the path and the method that it is built for. -/
theorem gives_of_build {serviceClass id : String} {d : Declared} {o : Operation}
    (success : Operation.build config models document serviceClass d.place d.definition id =
      .ok o) : d.Gives config models document o := by
  obtain ⟨_, _, _, _, _, parts⟩ := Operation.build_ok success
  exact ⟨parts.path, parts.method, serviceClass, id, success⟩

/-- The drafts hold, for each tag, the operations that the path entries declare under it. -/
structure Gathered (config : Config) (models : Table Model) (document : Value)
    (endpoints : List Endpoint) (drafts : Table Draft) : Prop where
  tagged : ∀ e ∈ endpoints, ∀ method definition, e.Operates method definition →
    ∃ first, firstTag (definition.get "tags") = .ok first
  tags : drafts.keys = TypeExpr.distinct ((declaredBy config endpoints).map Declared.tag)
  operations : ∀ tag, List.Forall₂ (Declared.Gives config models document)
    ((declaredBy config endpoints).filter fun d => d.tag = tag)
    (draftOf config drafts tag).service.operations

theorem gathered_empty : Gathered config models document [] .empty :=
  ⟨by simp, rfl, fun _ => .nil⟩

/-- One path entry adds the operation that it declares to the service of its tag alone. -/
theorem Gathered.addEndpoint {endpoints : List Endpoint} {drafts next : Table Draft} {e : Endpoint}
    (gathered : Gathered config models document endpoints drafts)
    (success : (addEndpoint config models document drafts e).outcome = .ok next) :
    Gathered config models document (endpoints ++ [e]) next := by
  rcases addEndpoint_ok success with ⟨method, definition, operates, added⟩ | ⟨-, passed, rfl⟩
  · obtain ⟨first, tag, draft, id, operation, read, ofTag, ofDraft, -, built, rfl⟩ :=
      addOperation_eq_ok.mp added
    have more : declaredBy config (endpoints ++ [e]) =
        declaredBy config endpoints ++ [⟨tag, ⟨e.url, method, e.item⟩, definition⟩] := by
      rw [declaredBy, List.filterMap_append, List.filterMap_cons_some
        (declared?_of_operates operates read), ← ofTag]
      rfl
    refine ⟨?_, ?_, ?_⟩
    · intro other member m d operatesToo
      rcases List.mem_append.mp member with earlier | here
      · exact gathered.tagged other earlier m d operatesToo
      · rw [List.mem_singleton] at here
        subst here
        have same := operates.definition.symm.trans operatesToo.definition
        cases same
        exact ⟨first, read⟩
    · rw [Table.keys_insert, more, List.map_append, List.map_singleton, TypeExpr.distinct_concat,
        gathered.tags]
      simp only [TypeExpr.mem_distinct]
    · intro other
      rw [draftOf_insert, more, List.filter_append]
      by_cases same : other = tag
      · subst same
        have here : List.filter (fun d : Declared => d.tag = other)
            [⟨other, ⟨e.url, method, e.item⟩, definition⟩] =
              [⟨other, ⟨e.url, method, e.item⟩, definition⟩] := by
          simp
        rw [if_pos rfl, here, ofDraft]
        exact List.rel_append (gathered.operations other) (.cons (gives_of_build built) .nil)
      · have elsewhere : List.filter (fun d : Declared => d.tag = other)
            [⟨tag, ⟨e.url, method, e.item⟩, definition⟩] = [] := by
          simp [Ne.symm same]
        rw [if_neg same, elsewhere, List.append_nil]
        exact gathered.operations other
  · have none : declaredBy config (endpoints ++ [e]) = declaredBy config endpoints := by
      rw [declaredBy, List.filterMap_append, List.filterMap_cons_none (declared?_of_passed passed),
        List.filterMap_nil, List.append_nil]
      rfl
    refine ⟨?_, by rw [none]; exact gathered.tags, by rw [none]; exact gathered.operations⟩
    intro other member method definition operates
    rcases List.mem_append.mp member with earlier | here
    · exact gathered.tagged other earlier method definition operates
    · rw [List.mem_singleton] at here
      exact absurd (here ▸ operates) (passed method definition)

/-- The path and the method of the operations under a tag are those that are declared for them. -/
theorem map_gives {declared : List Declared} {operations : List Operation}
    (gives : List.Forall₂ (Declared.Gives config models document) declared operations)
    (ofTag : ∀ d ∈ declared, d.tag = tag) :
    (operations.map fun o => (tag, o.path, o.method)) =
      declared.map fun d => (d.tag, d.place.url, Text.upper d.place.method) := by
  induction gives with
  | nil => rfl
  | @cons d o _ _ head _ ih =>
    rw [List.map_cons, List.map_cons, head.path, head.method, ofTag d List.mem_cons_self,
      ih fun other later => ofTag other (List.mem_cons_of_mem d later)]

/-- The services of a document are those of drafts that hold the operations which its paths
declare. -/
theorem gathered_of_ofDocument {services : Table Service}
    (success : (ofDocument config models document).outcome = .ok services) :
    ∃ drafts, Gathered config models document (pathEntries document) drafts ∧
      services.keys = drafts.keys ∧ ∀ tag s, services.get? tag = some s →
        s.operations = (draftOf config drafts tag).service.operations := by
  obtain ⟨fields, paths, drafts, tags, rfl, given, added, -, same⟩ := ofDocument_eq_ok.mp success
  have entries : pathEntries (.object fields) = endpointsOf paths := by
    rw [pathEntries, given]
  have gathered : Gathered config models (.object fields) (pathEntries (.object fields)) drafts :=
    entries ▸ addEndpoints_induction (fun _ _ _ _ before added => before.addEndpoint added)
      gathered_empty added
  refine ⟨drafts, gathered, ?_, ?_⟩
  · rw [same, Table.keys_map, keys_describeAll, Table.keys_map]
  · intro tag s present
    obtain ⟨_, _, _, draft, _, ofDocument, sameGiven, sameAdded, drafted, rfl⟩ :=
      filled_of_ofDocument success present
    cases ofDocument
    cases given.symm.trans sameGiven
    cases added.symm.trans sameAdded
    rw [draftOf, drafted]
    rfl

/-- The services of a document hold the operations that its paths declare: each one once, under its
first tag and in its place. -/
theorem operations_grouped {services : Table Service}
    (success : (ofDocument config models document).outcome = .ok services) :
    GroupedByTag config models document services := by
  obtain ⟨drafts, gathered, sameKeys, sameOperations⟩ := gathered_of_ofDocument success
  have order : services.keys =
      TypeExpr.distinct ((declaredOperations config document).map Declared.tag) :=
    sameKeys.trans gathered.tags
  have operations : ∀ tag s, services.get? tag = some s →
      List.Forall₂ (Declared.Gives config models document)
        ((declaredOperations config document).filter fun d => d.tag = tag) s.operations :=
    fun tag s present => sameOperations tag s present ▸ gathered.operations tag
  refine ⟨?_, order, operations, ?_, ?_⟩
  · intro e member method definition operates
    obtain ⟨first, read⟩ := gathered.tagged e member method definition operates
    exact ⟨first, read, declared?_of_operates operates read⟩
  · intro s member none
    obtain ⟨tag, present⟩ := Table.mem_values.mp member
    have used : tag ∈ services.keys := Table.mem_keys_of_get? present
    rw [order, TypeExpr.mem_distinct] at used
    obtain ⟨d, among, ofTag⟩ := List.mem_map.mp used
    obtain ⟨o, running, -⟩ := exists_of_forall₂ (operations tag s present)
      (List.mem_filter.mpr ⟨among, decide_eq_true ofTag⟩)
    rw [none] at running
    cases running
  · have covered : ∀ d ∈ declaredOperations config document, d.tag ∈ services.keys := by
      intro d member
      rw [order, TypeExpr.mem_distinct]
      exact List.mem_map_of_mem member
    have listed : (services.entries.flatMap fun (tag, s) => s.operations.map fun o =>
        (tag, o.path, o.method)) = (services.keys.flatMap fun tag =>
          (declaredOperations config document).filter fun d => d.tag = tag).map fun d =>
            (d.tag, d.place.url, Text.upper d.place.method) := by
      rw [List.map_flatMap, Table.keys, List.flatMap_map]
      refine List.flatMap_congr fun entry member => ?_
      exact map_gives (operations entry.1 entry.2 (Table.get?_eq_some.mpr member))
        fun d among => of_decide_eq_true (List.mem_filter.mp among).2
    rw [listed]
    exact (perm_flatMap_filter services.nodup covered).map _

def taggedOperation (id : String) (tags : List String) : Value :=
  .object [
    (.text "operationId", .text id),
    (.text "tags", .list (tags.map .text)),
    (.text "responses", .object [
      (.text "200", .object [(.text "schema", Api.refTo "Pet")])])]

/-- Paths with entries that are operations, and others that are none. -/
def shopPaths : Fields :=
  [(.text "/pets", .object [
      (.text "parameters", .list []),
      (.text "get", taggedOperation "getPets" ["our-pets", "shop"]),
      (.text "post", taggedOperation "addPet" [])]),
    (.text "/about", .text "A shop for pets"),
    (.text "/pets/all", .object [
      (.text "x-get", taggedOperation "inspect" ["shop"]),
      (.text "get", taggedOperation "getAll" ["our pets"])])]

def shopDocument : Value := .object [(.text "paths", .object shopPaths)]

theorem shop_built : ∃ models services,
    (Models.ofDefinitions {} (.object Api.petDefinitions)).outcome = .ok models ∧
    (ofDocument {} models shopDocument).outcome = .ok services ∧
    services.keys = ["OurPets", "Api"] := by
  obtain ⟨models, modelsBuilt⟩ := Api.petModels_built
  exact ⟨models, _, modelsBuilt, by cbv, by cbv⟩

/-- Two tags that give the same service name are one, and what is no operation is passed over. -/
theorem operations_grouped_shop : ∃ models services,
    (Models.ofDefinitions {} (.object Api.petDefinitions)).outcome = .ok models ∧
    (ofDocument {} models (.object [(.text "paths", .object shopPaths)])).outcome = .ok services ∧
    services.keys = ["OurPets", "Api"] ∧
    GroupedByTag {} models (.object [(.text "paths", .object shopPaths)]) services := by
  obtain ⟨models, services, modelsBuilt, built, keys⟩ := shop_built
  exact ⟨models, services, modelsBuilt, built, keys, operations_grouped built⟩

end Services

end ClientGen
