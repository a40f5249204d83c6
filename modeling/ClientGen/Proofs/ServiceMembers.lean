import Mathlib
import ClientGen.Proofs.ServiceIds

/-!
# The members of a service

The class of a service has two methods and a constant for each of its operations, and a type for
the parameters that are taken in one object. All are named after the id of the operation, which no
other operation of the service has. Changing the case of the first letter and adding a word to the
end may give two operations the same name again; `operationNames_nodup_iff` and
`members_apart_iff` tell exactly when.
-/
namespace ClientGen

namespace Naming

/-- An identifier is empty or starts with a letter or digit, even if its pieces are longer. -/
theorem wordFirst_identifierOf (name : List Piece) : WordFirst (identifierOf name) := by
  have kept : ∀ gap, ∀ c ∈ (camelCase isAlnum gap name).head?, isWord c = true := by
    induction name with
    | nil => simp [camelCase]
    | cons piece rest ih =>
      intro gap c first
      rw [camelCase] at first
      split at first
      · rename_i starts
        cases piece with
        | nil => cases starts
        | cons d others =>
          have word : isWord d = true := isWord_of_isAlnum starts
          obtain ⟨u, upper, stays, -⟩ := exists_upperChar word
          split at first
          · rw [Text.upperChars, List.flatMap_cons, upper] at first
            cases first
            exact stays
          · cases first
            exact word
      · exact ih true c first
  intro c first
  rw [identifierOf, String.toList_ofList] at first
  exact kept false c first

end Naming

namespace Operation

open Naming

variable {known : List String} {base : String} {n : Nat}

theorem wordFirst_baseId {given : Value} {method : String} {url : Scalar}
    (made : baseId given method url = .ok base) : WordFirst base := by
  unfold baseId at made
  split at made
  · split at made
    · cases made
      exact wordFirst_identifierOf _
    · cases made
  · obtain ⟨name, -, made⟩ := bind_eq_ok.mp made
    cases made
    exact wordFirst_identifierOf name

theorem wordFirst_numbered (first : WordFirst base) : WordFirst (numbered base n) := by
  intro c found
  rw [toList_numbered, List.head?_append] at found
  cases chars : base.toList.head? with
  | none =>
    rw [chars] at found
    cases found
    decide
  | some d =>
    rw [chars] at found
    cases found
    exact first c chars

theorem wordFirst_freshId (first : WordFirst base) : WordFirst (freshId known base) := by
  by_cases taken : base ∈ known
  · obtain ⟨n, -, found⟩ := firstNew_freshId taken
    exact found ▸ wordFirst_numbered first
  · rwa [freshId_of_new taken]

theorem wordFirst_freshIds {bases : List String} (first : ∀ base ∈ bases, WordFirst base) :
    ∀ id ∈ freshIds known bases, WordFirst id := by
  induction bases generalizing known with
  | nil => simp [freshIds]
  | cons base rest ih =>
    intro id member
    rcases List.mem_cons.mp member with rfl | later
    · exact wordFirst_freshId (first base List.mem_cons_self)
    · exact ih (fun b among => first b (List.mem_cons_of_mem base among)) id later

theorem numbered_ofList (s : List Char) (n : Nat) :
    numbered (String.ofList s) n = String.ofList (s ++ '_' :: (Text.natText n).toList) := by
  rw [← String.toList_inj, toList_numbered, String.toList_ofList, String.toList_ofList]

theorem lowerFirst_repeatedId (first : WordFirst base) (n : Nat) :
    Text.lowerFirst (repeatedId base n) = repeatedId (Text.lowerFirst base) n := by
  unfold repeatedId
  split
  · rfl
  · rcases wordFirst_cases first with rfl | ⟨c, rest, word, rfl⟩
    · have empty : Text.lowerFirst "" = String.ofList [] := rfl
      have none : ("" : String) = String.ofList [] := rfl
      have underscore : Text.lowerChar '_' = ['_'] := by decide
      rw [empty, none, numbered_ofList, List.nil_append, lowerFirst_cons (by decide), underscore,
        List.singleton_append]
    · rw [lowerFirst_cons word, numbered_ofList, numbered_ofList, List.cons_append,
        lowerFirst_cons word, List.append_assoc]

/-- A letter or digit in lower case is no underscore. -/
theorem lowerFirst_plain (alnum : ∀ c ∈ base.toList, isAlnum c = true) :
    '_' ∉ (Text.lowerFirst base).toList := by
  have first : WordFirst base := fun c found =>
    isWord_of_isAlnum (alnum c (List.mem_of_mem_head? found))
  intro member
  rcases wordFirst_cases first with rfl | ⟨c, rest, word, rfl⟩
  · cases member
  · rw [lowerFirst_cons word, String.toList_ofList, List.mem_append] at member
    rw [String.toList_ofList] at alnum
    rcases member with lower | later
    · exact absurd (isAlnum_lowerChar (alnum c List.mem_cons_self) _ lower) (by decide)
    · exact absurd (alnum _ (List.mem_cons_of_mem c later)) (by decide)

/-- All ids so far account for all bases so far. -/
theorem Accounts.append {earlier : List String} (accounts : Accounts earlier known)
    (bases : List String) : Accounts (earlier ++ bases) (known ++ repeatedIds earlier bases) := by
  induction bases generalizing earlier known with
  | nil => simpa [repeatedIds] using accounts
  | cons base rest ih => simpa [repeatedIds] using ih (accounts.concat base)

theorem mem_repeatedIds {bases : List String} {id : String} :
    id ∈ repeatedIds [] bases ↔ ∃ base n, n < bases.count base ∧ id = repeatedId base n := by
  have none : Accounts [] [] := by simp [Accounts]
  simpa using none.append bases id

end Operation

def FirstLettersApart (names : List String) : Prop :=
  ∀ a ∈ names, ∀ b ∈ names, Text.lowerFirst a = Text.lowerFirst b → a = b

namespace Operation

open Naming

/-- Ids that are made from texts are apart in more than their first letters if their bases are. -/
theorem firstLettersApart_freshIds {bases : List String}
    (alnum : ∀ base ∈ bases, ∀ c ∈ base.toList, isAlnum c = true) :
    FirstLettersApart (freshIds [] bases) ↔ FirstLettersApart bases := by
  have plain : ∀ base ∈ [] ++ bases, '_' ∉ String.toList base := fun base among member =>
    absurd (alnum base among _ member) (by decide)
  have first : ∀ base ∈ bases, WordFirst base := fun base among c found =>
    isWord_of_isAlnum (alnum base among c (List.mem_of_mem_head? found))
  rw [freshIds_eq_repeatedIds plain (by simp [Accounts])]
  constructor
  · intro apart a among b amongToo same
    have given : ∀ base ∈ bases, base ∈ repeatedIds [] bases := fun base among =>
      mem_repeatedIds.mpr ⟨base, 0, List.count_pos_iff.mpr among, rfl⟩
    exact apart a (given a among) b (given b amongToo) same
  · intro apart id member other otherMember same
    obtain ⟨a, m, below, rfl⟩ := mem_repeatedIds.mp member
    obtain ⟨b, n, otherBelow, rfl⟩ := mem_repeatedIds.mp otherMember
    have among : a ∈ bases := List.count_pos_iff.mp (by omega)
    have amongToo : b ∈ bases := List.count_pos_iff.mp (by omega)
    rw [lowerFirst_repeatedId (first a among), lowerFirst_repeatedId (first b amongToo)] at same
    obtain ⟨sameBase, rfl⟩ := repeatedId_injective (lowerFirst_plain (alnum a among))
      (lowerFirst_plain (alnum b amongToo)) same
    rw [apart a among b amongToo sameBase]

end Operation

namespace Services

open Naming

variable {config : Config} {models : Table Model} {document : Value} {services : Table Service}
  {tag : String} {s : Service} {o p : Operation}

/-- The operations of a document declare their ids as texts, if at all. -/
def DeclaresTexts (document : Value) : Prop :=
  ∀ e ∈ pathEntries document, ∀ definition, e.definition = .object definition →
    Fields.get definition "operationId" = .null ∨
      ∃ id, Fields.get definition "operationId" = .text id

theorem mem_baseIds {base : String} (member : base ∈ baseIds config document tag) :
    ∃ e ∈ pathEntries document, ∃ method definition, e.definition = .object definition ∧
      Operation.baseId (Fields.get definition "operationId") method e.url = .ok base := by
  obtain ⟨e, among, found⟩ := List.mem_filterMap.mp member
  obtain ⟨method, definition, operates, -, made⟩ := base?_eq_some.mp found
  exact ⟨e, among, method, definition, operates.definition, made⟩

theorem wordFirst_operationIds :
    ∀ id ∈ operationIds config document tag, WordFirst id := by
  refine Operation.wordFirst_freshIds ?_
  intro base member
  obtain ⟨_, _, _, _, _, made⟩ := mem_baseIds member
  exact Operation.wordFirst_baseId made

theorem alnum_baseIds (declares : DeclaresTexts document) :
    ∀ base ∈ baseIds config document tag, ∀ c ∈ base.toList, isAlnum c = true := by
  intro base member
  obtain ⟨e, among, method, definition, held, made⟩ := mem_baseIds member
  rcases declares e among definition held with missing | ⟨id, given⟩
  · unfold Operation.baseId at made
    rw [if_pos missing] at made
    split at made
    · cases made
      exact fun c => isAlnum_of_mem_identifier
    · cases made
  · rw [given, Operation.baseId_text] at made
    cases made
    exact fun c => isAlnum_of_mem_identifier

/-- The names of the operations of a built service are distinct exactly if they keep the case of
their first letters, or no two ids of the service differ in that only; and for ids that are made
from texts this is to say that no two of the declared or derived ids differ in that only. -/
theorem operationNames_nodup_iff
    (success : (ofDocument config models document).outcome = .ok services)
    (present : services.get? tag = some s) :
    ((s.operations.map Operation.name).Nodup ↔
      (config.camelCase = true → FirstLettersApart (operationIds config document tag))) ∧
    (DeclaresTexts document → (FirstLettersApart (operationIds config document tag) ↔
      FirstLettersApart (baseIds config document tag))) := by
  have names : s.operations.map Operation.name = (operationIds config document tag).map
      fun id => if config.camelCase then Text.lowerFirst id else id := by
    have named := namedBy_of_ofDocument success present
    generalize operationIds config document tag = ids at named ⊢
    generalize s.operations = operations at named ⊢
    induction named with
    | nil => rfl
    | cons head _ ih => rw [List.map_cons, List.map_cons, head.name, ih]
  have distinct : (operationIds config document tag).Nodup := (Operation.nodup_freshIds [] _).1
  refine ⟨?_, fun declares => Operation.firstLettersApart_freshIds (alnum_baseIds declares)⟩
  rw [names, List.nodup_map_iff_inj_on distinct]
  cases config.camelCase with
  | true => simp [FirstLettersApart]
  | false => simp

/-- The entry of a path with an operation that gives a pet. -/
def givingPet (id : String) : Value :=
  .object [(.text "get", .object [
    (.text "operationId", .text id),
    (.text "responses", .object [
      (.text "200", .object [(.text "schema", Api.refTo "Pet")])])])]

/-- A document of operations without tags that give a pet, by their ids. -/
def petPaths (ids : List String) : Value :=
  .object [(.text "paths", .object (ids.map fun id => (.text ("/" ++ id), givingPet id)))]

/-- Ids that differ in more than their first letters give distinct names. -/
theorem operationNames_nodup_pets : ∃ models services s,
    (Models.ofDefinitions {} (.object Api.petDefinitions)).outcome = .ok models ∧
    (ofDocument { camelCase := true } models
      (petPaths ["GetPets", "getPet"])).outcome = .ok services ∧
    services.get? defaultTag = some s ∧
    FirstLettersApart (operationIds { camelCase := true }
      (petPaths ["GetPets", "getPet"]) defaultTag) ∧
    (s.operations.map Operation.name).Nodup := by
  obtain ⟨models, modelsBuilt⟩ := Api.petModels_built
  obtain ⟨services, s, built, present⟩ : ∃ services s,
      (ofDocument { camelCase := true } models
        (petPaths ["GetPets", "getPet"])).outcome = .ok services ∧
      services.get? defaultTag = some s :=
    ⟨_, _, by cbv, by cbv⟩
  have ids : operationIds { camelCase := true }
      (petPaths ["GetPets", "getPet"]) defaultTag = ["GetPets", "getPet"] := by
    cbv
  have apart : FirstLettersApart (operationIds { camelCase := true }
      (petPaths ["GetPets", "getPet"]) defaultTag) := by
    rw [ids, FirstLettersApart]
    decide
  exact ⟨models, services, s, modelsBuilt, built, present, apart,
    (operationNames_nodup_iff built present).1.mpr fun _ => apart⟩

/-- Ids that differ in their first letters only are distinct, and the names are not. -/
theorem operationNames_same : ∃ models services s,
    (Models.ofDefinitions {} (.object Api.petDefinitions)).outcome = .ok models ∧
    (ofDocument { camelCase := true } models
      (petPaths ["GetPets", "getPets"])).outcome = .ok services ∧
    services.get? defaultTag = some s ∧
    s.operations.map Operation.name = ["getPets", "getPets"] ∧
    ¬(s.operations.map Operation.name).Nodup := by
  obtain ⟨models, modelsBuilt⟩ := Api.petModels_built
  obtain ⟨services, s, built, present, names⟩ : ∃ services s,
      (ofDocument { camelCase := true } models
        (petPaths ["GetPets", "getPets"])).outcome = .ok services ∧
      services.get? defaultTag = some s ∧
      s.operations.map Operation.name = ["getPets", "getPets"] :=
    ⟨_, _, by cbv, by cbv, by cbv⟩
  refine ⟨models, services, s, modelsBuilt, built, present, names, ?_⟩
  rw [names]
  decide

end Services

namespace Operation

open Naming

variable {config : Config} {id : String} {o p : Operation}

/-- The methods of an operation in the class of its service: the one that gives the whole response,
and the one that gives its content. -/
def methodNames (o : Operation) : List String := [o.name ++ "Response", o.name]

def pathConstantName (o : Operation) : String := Text.upperFirst o.name ++ "Path"

/-- The members of two operations do not clash. Methods belong to the objects of a class, constants
to the class itself and containers to its namespace, so that each kind is by itself. -/
structure MembersApart (o p : Operation) : Prop where
  methods : (o.methodNames ++ p.methodNames).Nodup
  constants : o.pathConstantName ≠ p.pathConstantName
  containers : ∀ c d, o.paramsClass = some c → p.paramsClass = some d → c ≠ d

theorem NamedBy.wordFirst_name (named : o.NamedBy config id) (first : WordFirst id) :
    WordFirst o.name := by
  rw [named.name]
  split
  · exact wordFirst_lowerFirst first
  · exact first

theorem NamedBy.upperFirst_name (named : o.NamedBy config id) (first : WordFirst id) :
    Text.upperFirst o.name = Text.upperFirst id := by
  rw [named.name]
  split
  · exact upperFirst_lowerFirst first
  · rfl

/-- With names that start in lower case nothing more is lost in lower case. -/
theorem NamedBy.lowerFirst_name (named : o.NamedBy config id) (first : WordFirst id)
    (camelCase : config.camelCase = true) : Text.lowerFirst o.name = o.name := by
  rw [named.name, if_pos camelCase, lowerFirst_lowerFirst first]

/-- The methods of operations with different names clash only if a name is another one with the
ending of the first method. -/
theorem nodup_methodNames_iff (differ : o.name ≠ p.name) :
    (o.methodNames ++ p.methodNames).Nodup ↔
      o.name ≠ p.name ++ "Response" ∧ p.name ≠ o.name ++ "Response" := by
  have longer : ∀ s : String, s ++ "Response" ≠ s := by
    intro s same
    have lengths := congrArg String.length same
    simp at lengths
  simp only [methodNames, List.cons_append, List.nil_append, List.nodup_cons, List.mem_cons,
    List.not_mem_nil, or_false, not_or, not_false_eq_true, List.nodup_nil, and_true]
  constructor
  · rintro ⟨⟨-, -, apart⟩, ⟨apartToo, -⟩, -⟩
    exact ⟨apartToo, Ne.symm apart⟩
  · rintro ⟨apart, apartToo⟩
    exact ⟨⟨longer _, fun same => differ ((String.append_left_inj _).mp same), Ne.symm apartToo⟩,
      ⟨apart, differ⟩, longer _⟩

theorem pathConstantName_eq_iff (first : WordFirst o.name) (second : WordFirst p.name) :
    o.pathConstantName = p.pathConstantName ↔
      Text.lowerFirst o.name = Text.lowerFirst p.name := by
  rw [pathConstantName, pathConstantName, String.append_left_inj, lowerFirst_eq_iff first second]

/-- The containers of two operations are the same only if their constants are. -/
theorem NamedBy.containers_apart {other : String} (named : o.NamedBy config id)
    (first : WordFirst id) (namedToo : p.NamedBy config other) (second : WordFirst other)
    (constants : o.pathConstantName ≠ p.pathConstantName) :
    ∀ c d, o.paramsClass = some c → p.paramsClass = some d → c ≠ d := by
  intro c d held heldToo same
  rw [named.paramsClass c held, namedToo.paramsClass d heldToo, String.append_left_inj,
    ← named.upperFirst_name first, ← namedToo.upperFirst_name second] at same
  exact constants (by rw [pathConstantName, pathConstantName, same])

end Operation

namespace Services

open Naming

variable {config : Config} {models : Table Model} {document : Value} {services : Table Service}
  {tag : String} {s : Service} {o p : Operation}

/-- The members of two operations of a service with different names clash exactly if one name is
the other with the ending of a method that gives the whole response, or if the names differ in the
case of their first letter only, which they cannot when they all start in lower case. -/
theorem members_apart_iff (success : (ofDocument config models document).outcome = .ok services)
    (present : services.get? tag = some s) (among : o ∈ s.operations) (amongToo : p ∈ s.operations)
    (differ : o.name ≠ p.name) :
    o.MembersApart p ↔
      o.name ≠ p.name ++ "Response" ∧ p.name ≠ o.name ++ "Response" ∧
      (config.camelCase = false → Text.lowerFirst o.name ≠ Text.lowerFirst p.name) := by
  have named := List.Forall₂.flip (namedBy_of_ofDocument success present)
  obtain ⟨id, given, ofId⟩ := exists_of_forall₂ named among
  obtain ⟨other, givenToo, ofOther⟩ := exists_of_forall₂ named amongToo
  have first : WordFirst id := wordFirst_operationIds id given
  have second : WordFirst other := wordFirst_operationIds other givenToo
  have constants : o.pathConstantName ≠ p.pathConstantName ↔
      (config.camelCase = false → Text.lowerFirst o.name ≠ Text.lowerFirst p.name) := by
    rw [Ne, Operation.pathConstantName_eq_iff (ofId.wordFirst_name first)
      (ofOther.wordFirst_name second)]
    cases camelCase : config.camelCase with
    | true =>
      rw [ofId.lowerFirst_name first camelCase, ofOther.lowerFirst_name second camelCase]
      simp [differ]
    | false => simp
  rw [← and_assoc, ← Operation.nodup_methodNames_iff differ, ← constants]
  -- Nothing is left for the containers: they only meet where the constants do.
  constructor
  · intro apart
    exact ⟨apart.methods, apart.constants⟩
  · rintro ⟨methods, apart⟩
    exact ⟨methods, apart, ofId.containers_apart first ofOther second apart⟩

/-- The members of an operation on pets and one on a pet are apart. -/
theorem members_apart_pets : ∃ models services s o p,
    (Models.ofDefinitions {} (.object Api.petDefinitions)).outcome = .ok models ∧
    (ofDocument {} models (petPaths ["getPets", "getPet"])).outcome = .ok services ∧
    services.get? defaultTag = some s ∧ o ∈ s.operations ∧ p ∈ s.operations ∧
    o.name = "getPets" ∧ p.name = "getPet" ∧ o.MembersApart p := by
  obtain ⟨models, modelsBuilt⟩ := Api.petModels_built
  obtain ⟨services, s, built, present, names⟩ : ∃ services s,
      (ofDocument {} models (petPaths ["getPets", "getPet"])).outcome = .ok services ∧
      services.get? defaultTag = some s ∧
      s.operations.map Operation.name = ["getPets", "getPet"] :=
    ⟨_, _, by cbv, by cbv, by cbv⟩
  obtain ⟨o, rest, operations, name, others⟩ := List.map_eq_cons_iff.mp names
  obtain ⟨p, rfl, otherName⟩ := List.map_eq_singleton_iff.mp others
  have among : o ∈ s.operations := by simp [operations]
  have amongToo : p ∈ s.operations := by simp [operations]
  refine ⟨models, services, s, o, p, modelsBuilt, built, present, among, amongToo, name, otherName,
    (members_apart_iff built present among amongToo ?_).mpr ?_⟩
  · rw [name, otherName]
    decide
  · rw [name, otherName]
    decide

/-- The names of three operations are distinct. The first two have the same constant, and a method
of the first one is called like one of the third. -/
theorem members_clash : ∃ models services s o p q,
    (Models.ofDefinitions {} (.object Api.petDefinitions)).outcome = .ok models ∧
    (ofDocument {} models (petPaths ["getPets", "GetPets",
      "getPetsResponse"])).outcome = .ok services ∧
    services.get? defaultTag = some s ∧ s.operations = [o, p, q] ∧
    o.name ≠ p.name ∧ o.name ≠ q.name ∧
    o.pathConstantName = "GetPetsPath" ∧ p.pathConstantName = "GetPetsPath" ∧
    "getPetsResponse" ∈ o.methodNames ∧ "getPetsResponse" ∈ q.methodNames ∧
    ¬o.MembersApart p ∧ ¬o.MembersApart q := by
  obtain ⟨models, services, s, modelsBuilt, built, present, names⟩ : ∃ models services s,
      (Models.ofDefinitions {} (.object Api.petDefinitions)).outcome = .ok models ∧
      (ofDocument {} models (petPaths ["getPets", "GetPets",
        "getPetsResponse"])).outcome = .ok services ∧
      services.get? defaultTag = some s ∧
      s.operations.map Operation.name = ["getPets", "GetPets", "getPetsResponse"] :=
    ⟨_, _, _, by cbv, by cbv, by cbv, by cbv⟩
  obtain ⟨o, _, operations, name, names⟩ := List.map_eq_cons_iff.mp names
  obtain ⟨p, _, rfl, otherName, names⟩ := List.map_eq_cons_iff.mp names
  obtain ⟨q, rfl, lastName⟩ := List.map_eq_singleton_iff.mp names
  have constant : o.pathConstantName = "GetPetsPath" := by
    rw [Operation.pathConstantName, name]
    decide
  have sameConstant : p.pathConstantName = "GetPetsPath" := by
    rw [Operation.pathConstantName, otherName]
    decide
  have method : "getPetsResponse" ∈ o.methodNames := by
    rw [Operation.methodNames, name]
    decide
  have sameMethod : "getPetsResponse" ∈ q.methodNames := by
    rw [Operation.methodNames, lastName]
    decide
  refine ⟨models, services, s, o, p, q, modelsBuilt, built, present, operations, ?_, ?_, constant,
    sameConstant, method, sameMethod, ?_, ?_⟩
  · rw [name, otherName]
    decide
  · rw [name, lastName]
    decide
  · exact fun apart => apart.constants (constant.trans sameConstant.symm)
  · exact fun apart => List.disjoint_of_nodup_append apart.methods method sameMethod

end Services

end ClientGen
