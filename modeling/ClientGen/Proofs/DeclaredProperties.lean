import Mathlib
import ClientGen.Proofs.Compositions
import ClientGen.Proofs.RenderedValues

/-!
# Declared properties

The properties of an interface are those that its declaring parts declare: the definition itself, or
the branches of a composition that are no references. `Model.declared_properties` says so for the
names, and for what is required of them; what stands beside the branches of a composition declares
nothing.
-/
namespace ClientGen

namespace Fields

theorem sameKey_text {key : Scalar} {name : String} :
    sameKey key (.text name) = true ↔ key = .text name := by
  cases key <;> simp [sameKey, sameKey.numeric?]

theorem text_sameKey {key : Scalar} {name : String} :
    sameKey (.text name) key = true ↔ key = .text name := by
  rw [← sameKey_text]
  cases key <;> simp [sameKey, sameKey.numeric?, eq_comm (a := name)]

/-- Setting an entry adds its key and keeps all texts among the keys. -/
theorem text_mem_keys_insert {fields : Fields} {key : Scalar} {v : Value} {name : String} :
    .text name ∈ (fields.insert key v).map Prod.fst ↔
      .text name ∈ fields.map Prod.fst ∨ key = .text name := by
  induction fields with
  | nil => simp [insert, eq_comm]
  | cons entry rest ih =>
    obtain ⟨k, w⟩ := entry
    unfold insert
    split
    · rename_i same
      simp only [List.map_cons, List.mem_cons]
      constructor
      · exact Or.inl
      · rintro (old | rfl)
        · exact old
        · exact Or.inl (sameKey_text.mp same).symm
    · simp only [List.map_cons, List.mem_cons, ih, or_assoc]

theorem text_mem_keys_insertAll {entries : List (Scalar × Value)} {fields : Fields}
    {name : String} :
    .text name ∈ (entries.foldl (fun fields (k, v) => fields.insert k v) fields).map Prod.fst ↔
      .text name ∈ fields.map Prod.fst ∨ .text name ∈ entries.map Prod.fst := by
  induction entries generalizing fields with
  | nil => simp
  | cons entry rest ih =>
    obtain ⟨k, v⟩ := entry
    rw [List.foldl_cons, ih, text_mem_keys_insert, List.map_cons, List.mem_cons, or_assoc,
      eq_comm (a := k)]

end Fields

/-- A list names the texts among its items. -/
theorem Value.names_list {items : List Value} {name : String} {named : Bool} :
    (Value.list items).names (.text name) = .ok named ↔
      (named = true ↔ .text name ∈ items) := by
  rw [Value.names, Except.ok.injEq, Bool.eq_iff_iff, List.any_eq_true, @Iff.comm (named = true)]
  refine iff_congr ?_ Iff.rfl
  constructor
  · rintro ⟨item, member, same⟩
    split at same
    · rename_i s
      rw [Fields.sameKey_text] at same
      subst s
      exact member
    · cases same
  · intro member
    exact ⟨.text name, member, Fields.sameKey_text.mpr rfl⟩

namespace Model

def declaredNames (schema : Fields) : List Scalar :=
  match entriesOf ((schema.get "properties").orElse (.object [])) with
  | .ok entries => entries.map Prod.fst
  | .error _ => []

def Requires (schema : Fields) (name : String) : Prop :=
  ∃ items, schema.get "required" = .list items ∧ .text name ∈ items

/-- What stands under `required` is no list. -/
def RequiresOddly (schema : Fields) : Prop :=
  (schema.get "required").isSet = true ∧ ∀ items, schema.get "required" ≠ .list items

/-- A property is among what a schema requires, be it a list or not. -/
def Asks (schema : Fields) (name : String) : Prop :=
  ∃ required, ((schema.get "required").orElse (.list [])).elements = .ok required ∧
    .text name ∈ required

theorem Requires.isSet {schema : Fields} {name : String} (requires : Requires schema name) :
    (schema.get "required").isSet = true := by
  obtain ⟨items, given, member⟩ := requires
  rw [given]
  cases items with
  | nil => cases member
  | cons first rest => rfl

theorem Requires.asks {schema : Fields} {name : String} (requires : Requires schema name) :
    Asks schema name := by
  have filled := requires.isSet
  obtain ⟨items, given, member⟩ := requires
  refine ⟨items, ?_, member⟩
  rw [Value.orElse, if_pos filled, given]
  rfl

theorem Asks.requires {schema : Fields} {name : String} (asks : Asks schema name) :
    Requires schema name ∨ RequiresOddly schema := by
  obtain ⟨required, listed, member⟩ := asks
  by_cases given : (schema.get "required").isSet = true
  · rw [Value.orElse, if_pos given] at listed
    by_cases list : ∃ items, schema.get "required" = .list items
    · obtain ⟨items, same⟩ := list
      rw [same] at listed
      cases listed
      exact Or.inl ⟨required, same, member⟩
    · exact Or.inr ⟨given, fun items same => list ⟨items, same⟩⟩
  · rw [Value.orElse, if_neg given] at listed
    cases listed
    cases member

/-- What a definition itself requires is in its list, or it is no list. -/
theorem required_iff_of_names {schema : Fields} {name : String} {named : Bool}
    (asked : (Schema.requiredNames schema).names (.text name) = .ok named) :
    (Requires schema name → named = true) ∧
      (named = true → Requires schema name ∨ RequiresOddly schema) := by
  unfold Schema.requiredNames Value.orElse at asked
  by_cases given : (schema.get "required").isSet = true
  · rw [if_pos given] at asked
    by_cases list : ∃ items, schema.get "required" = .list items
    · obtain ⟨items, same⟩ := list
      rw [same, Value.names_list] at asked
      have requires : Requires schema name ↔ .text name ∈ items := by
        simp [Requires, same]
      rw [requires, asked]
      exact ⟨id, Or.inl⟩
    · constructor
      · rintro ⟨items, same, -⟩
        exact absurd ⟨items, same⟩ list
      · intro _
        exact Or.inr ⟨given, fun items same => list ⟨items, same⟩⟩
  · rw [if_neg given, Value.names_list] at asked
    constructor
    · intro requires
      exact absurd requires.isSet given
    · intro yes
      cases asked.mp yes

def branchesOf (schema : Fields) : List Value :=
  match (schema.get "allOf").elements with
  | .ok branches => branches
  | .error _ => []

/-- The parts of a definition that declare its properties: the branches of a composition that are no
references, or the definition itself. -/
def declaringParts (schema : Fields) : List Fields :=
  if (schema.get "allOf").isSet then (branchesOf schema).filterMap ownPart? else [schema]

/-- The name of a property and whether it is required come from its entry. -/
theorem property_named {path : String} {required v : Value} {key : Scalar} {p : Property}
    (success : property path required key v = .ok p) :
    key = .text p.name ∧ required.names (.text p.name) = .ok p.required := by
  obtain ⟨name, isRequired, t, rfl, asked, -, rfl⟩ := property_eq_ok.mp success
  exact ⟨rfl, asked⟩

section Properties

variable {path : String} {required : Value} {fields : Fields} {properties : List Property}

/-- Each entry becomes a property; sorting them and marking the last one changes nothing else. -/
theorem propertiesOf_ok (success : propertiesOf path required fields = .ok properties) :
    ∃ read, List.Forall₂ (fun e p => property path required e.1 e.2 = .ok p) fields read ∧
      ∀ {α : Type} (f : Property → α), (∀ p : Property, f { p with isLast := true } = f p) →
        ∀ a, a ∈ properties.map f ↔ a ∈ read.map f := by
  unfold propertiesOf at success
  obtain ⟨read, passed, success⟩ := bind_eq_ok.mp success
  cases success
  refine ⟨read, forall₂_of_mapM_ok passed, ?_⟩
  intro α f same a
  rw [map_markLast same]
  simp only [List.mem_map, List.mem_mergeSort]

theorem mem_names_propertiesOf (success : propertiesOf path required fields = .ok properties)
    {name : String} :
    name ∈ properties.map Property.name ↔ .text name ∈ fields.map Prod.fst := by
  obtain ⟨read, paired, same⟩ := propertiesOf_ok success
  rw [same Property.name (fun _ => rfl), List.mem_map, List.mem_map]
  constructor
  · rintro ⟨p, member, rfl⟩
    obtain ⟨e, among, built⟩ := exists_of_forall₂ paired.flip member
    exact ⟨e, among, (property_named built).1⟩
  · rintro ⟨e, among, key⟩
    obtain ⟨p, member, built⟩ := exists_of_forall₂ paired among
    have named := (property_named built).1
    rw [key, Scalar.text.injEq] at named
    exact ⟨p, member, named.symm⟩

theorem required_of_propertiesOf (success : propertiesOf path required fields = .ok properties)
    {p : Property} (member : p ∈ properties) :
    required.names (.text p.name) = .ok p.required := by
  obtain ⟨read, paired, same⟩ := propertiesOf_ok success
  have shown : (p.name, p.required) ∈ properties.map fun p => (p.name, p.required) :=
    List.mem_map_of_mem member
  rw [same (fun p => (p.name, p.required)) (fun _ => rfl)] at shown
  obtain ⟨q, among, equal⟩ := List.mem_map.mp shown
  obtain ⟨e, -, built⟩ := exists_of_forall₂ paired.flip among
  rw [Prod.mk.injEq] at equal
  rw [← equal.1, ← equal.2]
  exact (property_named built).2

end Properties

/-- A definition that is an interface is a composition, or it declares its properties itself. -/
theorem object_ok {path : String} {schema : Fields} {parents : List String}
    {properties : List Property} {additional : Option TypeExpr}
    (read : bodyOf path schema = .ok (.object parents properties additional)) :
    (∃ (branches : List Value) (c : Composition), (schema.get "allOf").isSet = true ∧
      (schema.get "allOf").elements = .ok branches ∧
      ({} : Composition).addAll path 0 branches = .ok c ∧
      propertiesOf path (.list c.required) c.properties = .ok properties) ∨
    ∃ fields : Fields, (schema.get "allOf").isSet = false ∧
      (schema.get "properties").orElse (.object []) = .object fields ∧
      propertiesOf path (Schema.requiredNames schema) fields = .ok properties := by
  cases bodyOf_eq_ok.mp read with
  | interface joins _ written =>
    obtain ⟨branches, listed, joined⟩ := joins.joined
    exact .inl ⟨branches, _, joins.composed, listed, joined, written⟩
  | object describes declared written => exact .inr ⟨_, describes.1, declared, written⟩

theorem declaredNames_eq (schema : Fields) :
    declaredNames schema = (declaredEntries schema).map Prod.fst := by
  unfold declaredNames declaredEntries
  cases entriesOf ((schema.get "properties").orElse (.object [])) <;> rfl

theorem asks_iff {schema : Fields} {name : String} :
    Asks schema name ↔ .text name ∈ requiredValues schema := by
  unfold Asks requiredValues
  cases listed : ((schema.get "required").orElse (.list [])).elements <;> simp

namespace Composition

variable {c last : Composition} {path : String}

/-- What the branches declare together is what they declare one by one. -/
theorem declared_addAll {start : Nat} {branches : List Value}
    (success : c.addAll path start branches = .ok last) {name : String} :
    .text name ∈ last.properties.map Prod.fst ↔ .text name ∈ c.properties.map Prod.fst ∨
      ∃ part ∈ branches.filterMap ownPart?, .text name ∈ declaredNames part := by
  obtain ⟨-, properties, -⟩ := addAll_ok success
  rw [properties, declareAll, Fields.text_mem_keys_insertAll, List.map_flatMap, List.mem_flatMap]
  simp only [declaredNames_eq]

/-- What the branches require together is what they require one by one. -/
theorem required_addAll {start : Nat} {branches : List Value}
    (success : c.addAll path start branches = .ok last) {name : String} :
    .text name ∈ last.required ↔ .text name ∈ c.required ∨
      ∃ part ∈ branches.filterMap ownPart?, Asks part name := by
  obtain ⟨-, -, required⟩ := addAll_ok success
  rw [required, List.mem_append, List.mem_flatMap]
  simp only [asks_iff]

end Composition

/-- The properties of an interface are exactly those that its declaring parts declare. One that the
list of such a part requires is required, and no other is unless such a part requires in another
form than a list. -/
theorem declared_properties {config : Config} {name : Scalar} {schema : Fields} {m : Model}
    (success : ofDefinition config name schema = .ok m) (interface : m.kind = .object) :
    (∀ n, n ∈ m.properties.map Property.name ↔
      ∃ part ∈ declaringParts schema, .text n ∈ declaredNames part) ∧
    ∀ p ∈ m.properties,
      ((∃ part ∈ declaringParts schema, Requires part p.name) → p.required = true) ∧
      (p.required = true →
        ∃ part ∈ declaringParts schema, Requires part p.name ∨ RequiresOddly part) := by
  obtain ⟨text, rfl, -, -, read, -⟩ := ofDefinition_ok success
  obtain ⟨parents, properties, additional, body⟩ :
      ∃ parents properties additional, m.body = .object parents properties additional := by
    unfold kind at interface
    split at interface
    · rename_i parents properties additional body
      exact ⟨parents, properties, additional, body⟩
    all_goals cases interface
  have own : m.properties = properties := by simp [Model.properties, body]
  rw [body] at read
  rw [own]
  rcases object_ok read with ⟨branches, c, composed, branchesOk, joined, written⟩ |
    ⟨fields, plain, declared, written⟩
  · have parts : declaringParts schema = branches.filterMap ownPart? := by
      rw [declaringParts, if_pos composed, branchesOf, branchesOk]
    rw [parts]
    constructor
    · intro n
      rw [mem_names_propertiesOf written, Composition.declared_addAll joined]
      simp
    · intro p member
      have asked := required_of_propertiesOf written member
      rw [Value.names_list, Composition.required_addAll joined] at asked
      rw [asked]
      constructor
      · rintro ⟨part, among, requires⟩
        exact Or.inr ⟨part, among, requires.asks⟩
      · rintro (nothing | ⟨part, among, asks⟩)
        · cases nothing
        · exact ⟨part, among, asks.requires⟩
  · have parts : declaringParts schema = [schema] := by
      rw [declaringParts, if_neg (by simp [plain])]
    have names : declaredNames schema = fields.map Prod.fst := by
      rw [declaredNames, declared, entriesOf]
    rw [parts]
    simp only [List.mem_singleton, exists_eq_left]
    constructor
    · intro n
      rw [mem_names_propertiesOf written, names]
    · intro p member
      exact required_iff_of_names (required_of_propertiesOf written member)

/-- A cat is a pet with a name. That it has lives, and needs its name, stands beside the
branches. -/
def catSchema : Fields :=
  [(.text "allOf", .list [
      .object [(.text "$ref", .text "#/definitions/Pet")],
      .object [(.text "properties", .object [(.text "name", .object [])])],
      .object [
        (.text "properties", .object [(.text "color", .object [])]),
        (.text "required", .list [.text "color"])]]),
    (.text "properties", .object [(.text "lives", .object [])]),
    (.text "required", .list [.text "name"])]

/-- The definition of a cat becomes an interface with two properties. -/
theorem exists_cat : ∃ m, ofDefinition {} (.text "Cat") catSchema = .ok m ∧ m.kind = .object ∧
    m.properties.map (fun p => (p.name, p.required)) = [("color", true), ("name", false)] :=
  ⟨_, by cbv, by cbv, by cbv⟩

/-- The interface of a cat has the properties of the branches, and the one that a branch requires is
required. -/
theorem declared_properties_cat : ∃ m, ofDefinition {} (.text "Cat") catSchema = .ok m ∧
    m.kind = .object ∧
    (∀ n, n ∈ m.properties.map Property.name ↔
      ∃ part ∈ declaringParts catSchema, .text n ∈ declaredNames part) ∧
    ∀ p ∈ m.properties,
      ((∃ part ∈ declaringParts catSchema, Requires part p.name) → p.required = true) ∧
      (p.required = true →
        ∃ part ∈ declaringParts catSchema, Requires part p.name ∨ RequiresOddly part) := by
  obtain ⟨m, built, interface, -⟩ := exists_cat
  exact ⟨m, built, interface, declared_properties built interface⟩

/-- What a composition declares or requires beside its branches is lost. -/
theorem lost_beside_branches : ∃ m, ofDefinition {} (.text "Cat") catSchema = .ok m ∧
    m.kind = .object ∧
    m.properties.map (fun p => (p.name, p.required)) = [("color", true), ("name", false)] ∧
    .text "lives" ∈ declaredNames catSchema ∧ Requires catSchema "name" := by
  obtain ⟨m, built, interface, properties⟩ := exists_cat
  exact ⟨m, built, interface, properties, by decide, [.text "name"], rfl, by simp⟩

end Model

end ClientGen
