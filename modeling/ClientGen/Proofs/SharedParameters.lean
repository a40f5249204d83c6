import Mathlib.Data.List.Nodup
import Mathlib.Data.List.Perm.Basic
import ClientGen.Proofs.BuiltOperations
import ClientGen.Proofs.Compilation
import ClientGen.Proofs.ServiceTable

/-!
# Parameters that the operations of a path share

An operation takes the parameters that it declares and those that its path declares for all its
operations, its own first, and sorts them. Sorting moves them but loses none: none takes the place
of another, so that a parameter of the path that the operation declares again is there twice
(`slots_nodup_iff`).
-/
namespace ClientGen

namespace Parameter

/-- What tells the parameters of an operation apart: the name and the location. -/
def slot (p : Parameter) : Value × Value := (p.name, p.location)

/-- The parameter as it is read, before the last one of an operation is marked. -/
def unmarked (p : Parameter) : Parameter := { p with isLast := false }

/-- The parameters that a list of a document declares, after references have been followed; a list
that is missing declares none. -/
def declared (document list : Value) (inContainer : Bool) : Outcome (List Parameter) := do
  (← (list.orElse (.list [])).elements).mapM fun v => ofValue document v inContainer

variable {document : Value} {inContainer : Bool}

@[simp] theorem slot_unmarked (p : Parameter) : p.unmarked.slot = p.slot := rfl

theorem unmarked_of_ofValue {v : Value} {p : Parameter}
    (success : ofValue document v inContainer = .ok p) : p.unmarked = p := by
  obtain ⟨fields, pieces, read⟩ := ofValue_ok success
  rw [unmarked, ← read.isLast]

/-- Parameters that are read bear no mark yet. -/
theorem map_unmarked_of_read {raw : List Value} {read : List Parameter}
    (success : raw.mapM (fun v => ofValue document v inContainer) = .ok read) :
    read.map unmarked = read := by
  have each := forall₂_of_mapM_ok success
  clear success
  induction each with
  | nil => rfl
  | cons head _ ih => rw [List.map_cons, unmarked_of_ofValue head, ih]

theorem requiredFirst_perm (parameters : List Parameter) :
    (requiredFirst parameters).Perm parameters :=
  List.filter_append_perm (fun p : Parameter => p.required) parameters

theorem sortByName_perm {order : Option NameOrder} {parameters sorted : List Parameter}
    (success : sortByName order parameters = .ok sorted) : sorted.Perm parameters := by
  unfold sortByName at success
  split at success
  · cases success
    exact .refl _
  · split at success
    · cases success
      exact List.mergeSort_perm parameters _
    · cases success

/-- Sorting parameters loses none and adds none. -/
theorem sort_perm {setting : String} {parameters sorted : List Parameter}
    (success : sort setting parameters = .ok sorted) : sorted.Perm parameters := by
  unfold sort at success
  obtain ⟨byName, inOrder, success⟩ := bind_eq_ok.mp success
  cases success
  exact (requiredFirst_perm byName).trans (sortByName_perm inOrder)

/-- Among parameters with distinct slots only one has the slot of a member. -/
theorem filter_slot {parameters : List Parameter} (distinct : (parameters.map slot).Nodup)
    {p : Parameter} (member : p ∈ parameters) :
    (parameters.filter fun q => q.slot = p.slot) = [p] := by
  induction parameters with
  | nil => cases member
  | cons first rest ih =>
    rw [List.map_cons, List.nodup_cons] at distinct
    obtain ⟨fresh, distinct⟩ := distinct
    rcases List.mem_cons.mp member with rfl | later
    · have none : (rest.filter fun q => q.slot = p.slot) = [] := by
        apply List.filter_eq_nil_iff.mpr
        intro q among same
        exact fresh (of_decide_eq_true same ▸ List.mem_map_of_mem among)
      simp [none]
    · have other : first.slot ≠ p.slot := fun same => fresh (same ▸ List.mem_map_of_mem later)
      simp [other, ih distinct later]

end Parameter

namespace Operation

open Parameter

variable {config : Config} {models : Table Model} {document : Value} {serviceClass id : String}
  {place : Place} {definition : Fields} {o : Operation}

/-- The parameters of an operation are those that are read, up to their order and the mark. -/
theorem unmarked_perm {raw : List Value} {read sorted : List Parameter} {responses : Fields}
    {collected : Responses} (parts : BuiltWith config models document place definition id raw read
      sorted responses collected o) : (o.parameters.map unmarked).Perm read := by
  have unmoved : o.parameters.map unmarked = sorted.map unmarked := by
    rw [parts.parameters]
    apply map_markLast
    intro p
    rfl
  rw [unmoved, ← map_unmarked_of_read parts.reads]
  exact (sort_perm parts.sorts).map unmarked

/-- The parameters of an operation are those that it declares and, behind them, those that its path
declares, sorted. -/
theorem parameters_sorted
    (success : build config models document serviceClass place definition id = .ok o) :
    ∃ own shared sorted,
      declared document (definition.get "parameters") o.paramsClass.isSome = .ok own ∧
      declared document (place.item.get "parameters") o.paramsClass.isSome = .ok shared ∧
      sort config.sortParams (own ++ shared) = .ok sorted ∧
      o.parameters = markLast (fun p => { p with isLast := true }) sorted ∧
      (o.parameters.map unmarked).Perm (own ++ shared) := by
  obtain ⟨raw, read, sorted, _, _, parts⟩ := build_ok success
  obtain ⟨ownRaw, ownListed, given⟩ := bind_eq_ok.mp parts.given
  obtain ⟨sharedRaw, sharedListed, given⟩ := bind_eq_ok.mp given
  cases given
  have reads := parts.reads
  rw [List.mapM_append] at reads
  obtain ⟨own, ownRead, reads⟩ := bind_eq_ok.mp reads
  obtain ⟨shared, sharedRead, reads⟩ := bind_eq_ok.mp reads
  cases reads
  exact ⟨own, shared, sorted, bind_eq_ok.mpr ⟨ownRaw, ownListed, ownRead⟩,
    bind_eq_ok.mpr ⟨sharedRaw, sharedListed, sharedRead⟩, parts.sorts, parts.parameters,
    unmarked_perm parts⟩

/-- An operation takes all parameters that it declares and, behind them, all that its path declares,
in the order of the sort, and the last one is marked. If neither declares one twice, no two of them
have the same name and location exactly if the operation declares none of its path again; one that
it does declare again is there twice, as it declares it and as its path does. -/
theorem slots_nodup_iff
    (success : build config models document serviceClass place definition id = .ok o) :
    ∃ own shared sorted,
      declared document (definition.get "parameters") o.paramsClass.isSome = .ok own ∧
      declared document (place.item.get "parameters") o.paramsClass.isSome = .ok shared ∧
      sort config.sortParams (own ++ shared) = .ok sorted ∧
      o.parameters = markLast (fun p => { p with isLast := true }) sorted ∧
      (o.parameters.map unmarked).Perm (own ++ shared) ∧
      ((own.map slot).Nodup → (shared.map slot).Nodup →
        ((o.parameters.map slot).Nodup ↔ ∀ p ∈ own, ∀ q ∈ shared, p.slot ≠ q.slot) ∧
        ∀ p ∈ own, ∀ q ∈ shared, p.slot = q.slot →
          ((o.parameters.map unmarked).filter fun r => r.slot = p.slot).Perm [p, q]) := by
  obtain ⟨own, shared, sorted, ownRead, sharedRead, sorts, marked, all⟩ := parameters_sorted success
  refine ⟨own, shared, sorted, ownRead, sharedRead, sorts, marked, all, ?_⟩
  intro ownDistinct sharedDistinct
  constructor
  · have slots : (o.parameters.map slot).Perm ((own ++ shared).map slot) := by
      have marked := all.map slot
      rwa [List.map_map] at marked
    rw [slots.nodup_iff, List.map_append, List.nodup_append]
    simp [ownDistinct, sharedDistinct]
  · intro p ownMember q sharedMember same
    have both := all.filter fun r => r.slot = p.slot
    rw [List.filter_append, filter_slot ownDistinct ownMember, same,
      filter_slot sharedDistinct sharedMember] at both
    rw [same]
    exact both

def queryParameter (name type : String) : Value :=
  .object [(.text "name", .text name), (.text "in", .text "query"), (.text "type", .text type)]

def petBy (name : String) : Fields :=
  [(.text "parameters", .list [queryParameter name "string"]),
    (.text "responses", .object [
      (.text "200", .object [(.text "schema", Api.refTo "Pet")])])]

def limitedPath : Place :=
  ⟨.text "/pet", "get", [(.text "parameters", .list [queryParameter "limit" "integer"])]⟩

def querySlot (name : String) : Value × Value := (.text name, .text "query")

theorem declared_limit {type : String} (primitive : type = "string" ∨ type = "integer")
    (inContainer : Bool) : ∃ parameters,
    declared (.object []) (.list [queryParameter "limit" type]) inContainer = .ok parameters ∧
    parameters.map slot = [querySlot "limit"] := by
  rcases primitive with rfl | rfl
  · exact ⟨_, by cbv, by cbv⟩
  · exact ⟨_, by cbv, by cbv⟩

/-- A parameter beside that of the path leaves all slots of the operation distinct. -/
theorem slots_nodup_petBy_name : ∃ models o,
    (Models.ofDefinitions {} (.object Api.petDefinitions)).outcome = .ok models ∧
    build { minParamsForContainer := 3 } models (.object []) "ApiService" limitedPath
      (petBy "name") "getPet" = .ok o ∧
    (o.parameters.map slot).Nodup := by
  obtain ⟨models, modelsBuilt⟩ := Api.petModels_built
  obtain ⟨o, built⟩ : ∃ o, build { minParamsForContainer := 3 } models (.object []) "ApiService"
      limitedPath (petBy "name") "getPet" = .ok o :=
    ⟨_, by cbv⟩
  obtain ⟨own, shared, sorted, ownRead, sharedRead, -, -, -, slots⟩ := slots_nodup_iff built
  obtain ⟨_, sameOwn, ownSlots⟩ : ∃ parameters,
      declared (.object []) (Fields.get (petBy "name") "parameters") o.paramsClass.isSome =
        .ok parameters ∧ parameters.map slot = [querySlot "name"] :=
    ⟨_, by cbv, by cbv⟩
  obtain ⟨_, sameShared, sharedSlots⟩ := declared_limit (Or.inr rfl) o.paramsClass.isSome
  cases ownRead.symm.trans sameOwn
  cases sharedRead.symm.trans sameShared
  refine ⟨models, o, modelsBuilt, built, ?_⟩
  obtain ⟨distinct, -⟩ := slots (by simp [ownSlots]) (by simp [sharedSlots])
  apply distinct.mpr
  intro p ownMember q sharedMember same
  have first := ownSlots ▸ List.mem_map_of_mem (f := slot) ownMember
  have second := sharedSlots ▸ List.mem_map_of_mem (f := slot) sharedMember
  rw [List.mem_singleton] at first second
  rw [first, second] at same
  exact absurd same (by decide)

/-- Neither the operation nor its path declares a parameter twice, and the operation has one twice:
it declares that of its path again. -/
theorem limit_declared_again : ∃ models o own shared,
    (Models.ofDefinitions {} (.object Api.petDefinitions)).outcome = .ok models ∧
    build { minParamsForContainer := 3 } models (.object []) "ApiService" limitedPath
      (petBy "limit") "getPet" = .ok o ∧
    declared (.object []) (Fields.get (petBy "limit") "parameters") o.paramsClass.isSome =
      .ok own ∧
    declared (.object []) (Fields.get limitedPath.item "parameters") o.paramsClass.isSome =
      .ok shared ∧
    (own.map slot).Nodup ∧ (shared.map slot).Nodup ∧
    o.parameters.map slot = [querySlot "limit", querySlot "limit"] ∧
    ¬(o.parameters.map slot).Nodup := by
  obtain ⟨models, modelsBuilt⟩ := Api.petModels_built
  obtain ⟨o, built, slots⟩ : ∃ o, build { minParamsForContainer := 3 } models (.object [])
      "ApiService" limitedPath (petBy "limit") "getPet" = .ok o ∧
      o.parameters.map slot = [querySlot "limit", querySlot "limit"] :=
    ⟨_, by cbv, by cbv⟩
  obtain ⟨own, ownRead, ownSlots⟩ := declared_limit (Or.inl rfl) o.paramsClass.isSome
  obtain ⟨shared, sharedRead, sharedSlots⟩ := declared_limit (Or.inr rfl) o.paramsClass.isSome
  refine ⟨models, o, own, shared, modelsBuilt, built, ownRead, sharedRead, ?_, ?_, slots, ?_⟩
  · simp [ownSlots]
  · simp [sharedSlots]
  · simp [slots]

end Operation

end ClientGen
