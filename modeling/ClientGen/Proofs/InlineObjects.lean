import Mathlib
import ClientGen.Proofs.MergedProperties
import ClientGen.Proofs.OverridingKeywords

/-!
# Inline objects

An object that is written inside a type and the same object as a definition have the same members:
the inline type lists the properties of the model in the order in which they are declared, and then
the other keys exactly if the model has a type for them (`inline_object`). Both are read from the
same entries, the model by `propertiesOf` and the inline type by `Schema.parseRecord`, which agree
on what can be read (`typeAt_object_eq_ok`).
-/
namespace ClientGen

namespace Model

/-- A definition that gives an object directly, and nothing that takes the place of its type. -/
structure GivesObject (schema : Fields) : Prop where
  object : schema.get? "type" = some (.text "object") ∨
    schema.get? "type" = none ∧ schema.has "properties" = true
  direct : ∀ keyword ∈ ["$ref", "x-type", "x-nullable", "allOf", "anyOf", "oneOf"],
    schema.get? keyword = none
  listed : ∀ required, schema.get? "required" = some required → ∃ items, required = .list items

def memberOf (p : Property) : String :=
  p.key ++ (if p.required then ": " else "?: ") ++ p.type.text

def otherKeysOf (t : TypeExpr) : String := "[key: string]: " ++ t.text

/-- The inline object with the given properties, and with a type for other keys if there may be
any. -/
def inlineObject (properties : List Property) (additional : Option TypeExpr) : TypeExpr :=
  .compound
    (Schema.recordText (properties.map memberOf ++ additional.toList.map otherKeysOf))
    (properties.map Property.type ++ additional.toList)

variable {path : String} {schema fields : Fields} {required : Value}

theorem GivesObject.get_eq_null (gives : GivesObject schema) (keyword : String)
    (direct : keyword ∈ ["$ref", "x-type", "x-nullable", "allOf", "anyOf", "oneOf"]) :
    schema.get keyword = .null := by
  rw [Fields.get, gives.direct keyword direct]
  rfl

theorem memberText_eq_ok {member : Member} {t : TypeExpr} {text : String} :
    Schema.memberText member t = .ok text ↔ ∃ name, member.name = .text name ∧
      text = Naming.propertyKey name ++ (if member.required then ": " else "?: ") ++ t.text := by
  unfold Schema.memberText
  rw [bind_eq_ok]
  constructor
  · rintro ⟨key, bare, ⟨⟩⟩
    cases named : member.name with
    | text name =>
      rw [named] at bare
      cases bare
      exact ⟨name, rfl, rfl⟩
    | _ =>
      rw [named] at bare
      cases bare
  · rintro ⟨name, named, rfl⟩
    exact ⟨_, by rw [named]; rfl, rfl⟩

/-- The members of an inline object are read and printed as the properties of a model are. -/
theorem memberTypes_eq_ok {typed : List (String × TypeExpr)} :
    (∃ members, Schema.parseMembers path required fields = .ok members ∧
      Schema.memberTypes members = .ok typed) ↔
    ∃ read, fields.mapM (fun e => property path required e.1 e.2) = .ok read ∧
      typed = read.map fun p => (memberOf p, p.type) := by
  induction fields generalizing typed with
  | nil =>
    rw [Schema.parseMembers, List.mapM_nil]
    constructor
    · rintro ⟨_, ⟨⟩, ⟨⟩⟩
      exact ⟨[], rfl, rfl⟩
    · rintro ⟨_, ⟨⟩, rfl⟩
      exact ⟨[], rfl, rfl⟩
  | cons entry rest ih =>
    obtain ⟨key, v⟩ := entry
    rw [Schema.parseMembers, List.mapM_cons]
    constructor
    · rintro ⟨members, read, printed⟩
      obtain ⟨s, parsed, read⟩ := bind_eq_ok.mp read
      obtain ⟨isRequired, asked, read⟩ := bind_eq_ok.mp read
      obtain ⟨others, later, read⟩ := bind_eq_ok.mp read
      cases read
      rw [Schema.memberTypes] at printed
      obtain ⟨t, own, printed⟩ := bind_eq_ok.mp printed
      obtain ⟨text, written, printed⟩ := bind_eq_ok.mp printed
      obtain ⟨more, tail, printed⟩ := bind_eq_ok.mp printed
      cases printed
      obtain ⟨properties, passed, rfl⟩ := ih.mp ⟨others, later, tail⟩
      obtain ⟨name, rfl, rfl⟩ := memberText_eq_ok.mp written
      have built := property_eq_ok.mpr
        ⟨name, isRequired, t, rfl, asked, bind_eq_ok.mpr ⟨s, parsed, own⟩, rfl⟩
      exact ⟨_ :: properties, bind_eq_ok.mpr ⟨_, built, bind_eq_ok.mpr ⟨_, passed, rfl⟩⟩, rfl⟩
    · rintro ⟨read, passed, rfl⟩
      obtain ⟨p, built, passed⟩ := bind_eq_ok.mp passed
      obtain ⟨others, later, passed⟩ := bind_eq_ok.mp passed
      cases passed
      obtain ⟨name, isRequired, t, rfl, asked, typed, rfl⟩ := property_eq_ok.mp built
      obtain ⟨s, parsed, own⟩ := bind_eq_ok.mp typed
      obtain ⟨members, read, printed⟩ := ih.mpr ⟨others, later, rfl⟩
      refine ⟨(⟨.text name, isRequired⟩, s) :: members, ?_, ?_⟩
      · exact bind_eq_ok.mpr ⟨s, parsed, bind_eq_ok.mpr ⟨_, asked, bind_eq_ok.mpr ⟨_, read, rfl⟩⟩⟩
      · have written : Schema.memberText ⟨.text name, isRequired⟩ t = .ok _ :=
          memberText_eq_ok.mpr ⟨name, rfl, rfl⟩
        rw [Schema.memberTypes]
        exact bind_eq_ok.mpr ⟨t, own, bind_eq_ok.mpr ⟨_, written, bind_eq_ok.mpr ⟨_, printed, rfl⟩⟩⟩

/-- The type of other keys is read in an inline object as it is in a model. -/
theorem additionalType_eq_ok {place : String} {extra : Option TypeExpr} :
    (∃ declared, Schema.parseAdditional (path ++ "/additionalProperties")
        (schema.get "additionalProperties") = .ok declared ∧
      Schema.additionalType (declared.or
        (if (schema.get "additionalProperties").isSet then some (.any ⟨place, .null⟩ none)
        else none)) = .ok extra) ↔
    additionalTypeOf path schema = .ok extra := by
  unfold additionalTypeOf
  generalize schema.get "additionalProperties" = given
  cases given with
  | object inner =>
    simp only [typeAt, Schema.parse, Schema.parseAdditional]
    constructor
    · rintro ⟨declared, read, typed⟩
      obtain ⟨s, parsed, read⟩ := bind_eq_ok.mp read
      cases read
      obtain ⟨t, own, typed⟩ := bind_eq_ok.mp typed
      cases typed
      exact bind_eq_ok.mpr ⟨t, bind_eq_ok.mpr ⟨s, parsed, own⟩, rfl⟩
    · intro read
      obtain ⟨t, typed, read⟩ := bind_eq_ok.mp read
      cases read
      obtain ⟨s, parsed, own⟩ := bind_eq_ok.mp typed
      refine ⟨some s, bind_eq_ok.mpr ⟨s, parsed, rfl⟩, ?_⟩
      rw [Option.some_or, Schema.additionalType]
      exact bind_eq_ok.mpr ⟨t, own, rfl⟩
  | scalar s | list items =>
    simp only [Schema.parseAdditional, Except.ok.injEq, exists_eq_left', Option.none_or]
    split <;> simp [Schema.additionalType, Schema.type]

theorem parseFields_of_givesObject (gives : GivesObject schema) :
    Schema.parseFields path schema =
      Schema.parseRecord path ⟨path, schema.get "description"⟩ schema := by
  have noRef : schema.get "$ref" = .null := gives.get_eq_null "$ref" (by simp)
  have noText : schema.get "x-type" = .null := gives.get_eq_null "x-type" (by simp)
  have noMark : schema.get "x-nullable" = .null := gives.get_eq_null "x-nullable" (by simp)
  have noAny : schema.get "anyOf" = .null := gives.get_eq_null "anyOf" (by simp)
  have noOne : schema.get "oneOf" = .null := gives.get_eq_null "oneOf" (by simp)
  have noAll : schema.get "allOf" = .null := gives.get_eq_null "allOf" (by simp)
  have plain : ¬Schema.Overridden schema := by
    simp [Schema.Overridden, noRef, noText, noMark, Value.isSet]
  rcases gives.object with typed | ⟨untyped, declares⟩
  · exact Schema.parseFields_of_object typed plain
  · have noVariants : Schema.hasVariants schema = false := by
      simp [Schema.hasVariants, noAny, noOne, Value.isSet]
    rw [Schema.parseFields_of_untyped untyped plain, Schema.parseUntyped]
    simp [noVariants, noAll, declares, Value.isSet]

theorem GivesObject.requiredNames (gives : GivesObject schema) :
    ∃ items, Schema.requiredNames schema = .list items := by
  unfold Schema.requiredNames Value.orElse
  split
  · rename_i given
    cases found : schema.get? "required" with
    | none => simp [Fields.get, found, Value.isSet] at given
    | some v =>
      obtain ⟨items, rfl⟩ := gives.listed v found
      exact ⟨items, by rw [Fields.get, found]; rfl⟩
  · exact ⟨[], rfl⟩

/-- The members of an inline object are read from the same entries as the properties of a model. -/
theorem parseProperties_eq_ok {given : Value} {members : List (Member × Schema)} :
    Schema.parseProperties path required given = .ok members ↔
      ∃ fields, given.orElse (.object []) = .object fields ∧
        Schema.parseMembers path required fields = .ok members := by
  cases given with
  | object inner =>
    have own : (Value.object inner).orElse (.object []) = .object inner := by
      cases inner <;> rfl
    rw [Schema.parseProperties, own]
    simp
  | scalar s | list items =>
    rw [Schema.parseProperties.eq_2 _ _ _ (by simp), Value.orElse]
    split <;> simp [Schema.parseMembers, lacksOperation]

theorem compound_eq_inlineObject (properties : List Property) (additional : Option TypeExpr) :
    let parts := (properties.map fun p => (memberOf p, p.type)) ++
      additional.toList.map fun t => ("[key: string]: " ++ t.text, t)
    TypeExpr.compound (Schema.recordText (parts.map Prod.fst)) (parts.map Prod.snd) =
      inlineObject properties additional := by
  simp only [List.map_append, List.map_map]
  cases additional <;> rfl

/-- An inline object is printed exactly if the properties and the type of other keys of a model can
be read, and then lists these. -/
theorem typeAt_object_eq_ok (gives : GivesObject schema) {t : TypeExpr} :
    typeAt path (.object schema) = .ok t ↔ ∃ fields properties additional,
      (schema.get "properties").orElse (.object []) = .object fields ∧
      fields.mapM (fun e => property path (Schema.requiredNames schema) e.1 e.2) =
        .ok properties ∧
      additionalTypeOf path schema = .ok additional ∧ t = inlineObject properties additional := by
  obtain ⟨items, listed⟩ := gives.requiredNames
  simp only [typeAt, Schema.parse, parseFields_of_givesObject gives, Schema.parseRecord, listed]
  constructor
  · intro typed
    obtain ⟨s, read, typed⟩ := bind_eq_ok.mp typed
    obtain ⟨members, entries, read⟩ := bind_eq_ok.mp read
    obtain ⟨declared, free, read⟩ := bind_eq_ok.mp read
    obtain ⟨_, -, read⟩ := bind_eq_ok.mp read
    cases read
    rw [Schema.type] at typed
    obtain ⟨written, printed, typed⟩ := bind_eq_ok.mp typed
    obtain ⟨additional, rest, typed⟩ := bind_eq_ok.mp typed
    cases typed
    obtain ⟨fields, own, parsed⟩ := parseProperties_eq_ok.mp entries
    obtain ⟨properties, passed, rfl⟩ := memberTypes_eq_ok.mp ⟨members, parsed, printed⟩
    exact ⟨fields, properties, additional, own, passed,
      additionalType_eq_ok.mp ⟨declared, free, rest⟩, compound_eq_inlineObject ..⟩
  · rintro ⟨fields, properties, additional, own, passed, free, rfl⟩
    obtain ⟨members, parsed, printed⟩ := memberTypes_eq_ok.mpr ⟨properties, passed, rfl⟩
    obtain ⟨declared, given, rest⟩ := additionalType_eq_ok.mpr free
    have entries := parseProperties_eq_ok.mpr ⟨fields, own, parsed⟩
    refine bind_eq_ok.mpr ⟨_, bind_eq_ok.mpr ⟨members, entries,
      bind_eq_ok.mpr ⟨declared, given, bind_eq_ok.mpr ⟨items, rfl, rfl⟩⟩⟩, ?_⟩
    rw [Schema.type]
    refine bind_eq_ok.mpr ⟨_, printed, bind_eq_ok.mpr ⟨additional, rest, ?_⟩⟩
    exact congrArg Except.ok (compound_eq_inlineObject ..)

theorem GivesObject.describesObject (gives : GivesObject schema) : DescribesObject schema := by
  have noAny : schema.get "anyOf" = .null := gives.get_eq_null "anyOf" (by simp)
  have noOne : schema.get "oneOf" = .null := gives.get_eq_null "oneOf" (by simp)
  have noAll : schema.get "allOf" = .null := gives.get_eq_null "allOf" (by simp)
  refine ⟨by rw [noAll]; rfl, ?_⟩
  rcases gives.object with typed | ⟨untyped, -⟩
  · exact .inr typed
  · exact .inl ⟨untyped, by rw [Schema.hasVariants, noAny, noOne]; rfl⟩

/-- The model of an object is built exactly if its properties and the type of other keys can be
read, and then lists these, the properties sorted. -/
theorem bodyOf_object_eq_ok (gives : GivesObject schema) {body : ModelBody} :
    bodyOf path schema = .ok body ↔ ∃ fields properties additional,
      (schema.get "properties").orElse (.object []) = .object fields ∧
      fields.mapM (fun e => property path (Schema.requiredNames schema) e.1 e.2) =
        .ok properties ∧
      additionalTypeOf path schema = .ok additional ∧
      body = .object [] (markLast asLast (sortedByName properties)) additional := by
  constructor
  · intro read
    obtain ⟨fields, properties, additional, own, written, free, rfl⟩ :=
      interface_ok gives.describesObject read
    obtain ⟨entries, passed, rfl⟩ := propertiesOf_eq_ok.mp written
    exact ⟨fields, entries, additional, own, passed, free, rfl⟩
  · rintro ⟨fields, properties, additional, own, passed, free, rfl⟩
    have written := propertiesOf_eq_ok.mpr ⟨properties, passed, rfl⟩
    exact bodyOf_eq_ok.mpr (.object gives.describesObject own written free)

def unmarked (p : Property) : Property := { p with isLast := false }

/-- Sorting properties as they have been read, and marking the last one, changes their order and
the mark only. -/
theorem perm_map_unmarked {properties : List Property}
    (passed : fields.mapM (fun e => property path required e.1 e.2) = .ok properties) :
    properties.Perm ((markLast asLast (sortedByName properties)).map unmarked) := by
  have bare : properties.map unmarked = properties := by
    conv => rhs; rw [← List.map_id properties]
    refine List.map_congr_left fun p member => ?_
    obtain ⟨e, -, built⟩ := exists_of_forall₂ (forall₂_of_mapM_ok passed).flip member
    obtain ⟨_, _, _, -, -, -, rfl⟩ := property_eq_ok.mp built
    rfl
  have sorted := (List.mergeSort_perm properties fun p q => decide (p.name ≤ q.name)).map unmarked
  rw [bare] at sorted
  rw [@map_markLast _ _ asLast unmarked fun _ => rfl]
  exact sorted.symm

/-- A definition that gives an object has a model exactly if the object has a type inside others.
The model is an interface without parents, and the type lists its properties in the order of their
declaration, and then the other keys exactly if the model has a type for them. -/
theorem inline_object (gives : GivesObject schema) (config : Config) (name place : String) :
    ((∃ m, ofDefinition config (.text name) schema = .ok m) ↔
      ∃ t, typeAt place (.object schema) = .ok t) ∧
    ∀ m t, ofDefinition config (.text name) schema = .ok m →
      typeAt place (.object schema) = .ok t →
      m.kind = .object ∧ m.parents = [] ∧ ∃ members : List Property,
        members.Perm (m.properties.map unmarked) ∧
        (members.map fun p => .text p.name) = (declaredEntries schema).map Prod.fst ∧
        t = inlineObject members m.additionalType? := by
  rw [typeAt_eq_typeAt place (definitionPath name)]
  refine ⟨⟨?_, ?_⟩, ?_⟩
  · rintro ⟨m, built⟩
    obtain ⟨_, same, -, -, read, -⟩ := ofDefinition_ok built
    cases same
    obtain ⟨fields, members, additional, own, passed, free, -⟩ :=
      (bodyOf_object_eq_ok gives).mp read
    exact ⟨_, (typeAt_object_eq_ok gives).mpr ⟨fields, members, additional, own, passed, free, rfl⟩⟩
  · rintro ⟨t, typed⟩
    obtain ⟨fields, members, additional, own, passed, free, -⟩ :=
      (typeAt_object_eq_ok gives).mp typed
    have read := (bodyOf_object_eq_ok gives).mpr
      ⟨fields, members, additional, own, passed, free, rfl⟩
    exact (bodyOf_eq_ok.mp read).exists_ofDefinition config
  · intro m t built typed
    obtain ⟨_, same, -, -, read, -⟩ := ofDefinition_ok built
    cases same
    obtain ⟨fields, members, additional, own, passed, free, body⟩ :=
      (bodyOf_object_eq_ok gives).mp read
    obtain ⟨_, _, _, own', passed', free', rfl⟩ := (typeAt_object_eq_ok gives).mp typed
    rw [own, Value.object.injEq] at own'
    subst own'
    rw [passed, Except.ok.injEq] at passed'
    rw [free, Except.ok.injEq] at free'
    subst passed' free'
    have entries : declaredEntries schema = fields := by rw [declaredEntries, own]; rfl
    simp only [kind, Model.parents, Model.properties, Model.additionalType?, body, entries]
    refine ⟨trivial, trivial, members, perm_map_unmarked passed, ?_, rfl⟩
    rw [keys_of_read (forall₂_of_mapM_ok passed), List.map_map]
    rfl

/-- A person has a name, and perhaps an age, and answers to questions. -/
def personSchema : Fields :=
  [(.text "properties", .object [
      (.text "name", .object [(.text "type", .text "string")]),
      (.text "age", .object [(.text "type", .text "integer")])]),
    (.text "required", .list [.text "name"]),
    (.text "additionalProperties", .object [(.text "type", .text "boolean")])]

/-- The members of a person stand in the order of declaration in the inline type. -/
theorem inline_object_person : GivesObject personSchema ∧ ∃ m t,
    ofDefinition {} (.text "Person") personSchema = .ok m ∧
    typeAt "#" (.object personSchema) = .ok t ∧
    t.text = "\x7bname: string, age?: number, [key: string]: boolean\x7d" ∧
    m.kind = .object ∧ m.parents = [] ∧ ∃ members : List Property,
      members.Perm (m.properties.map unmarked) ∧
      (members.map fun p => .text p.name) = (declaredEntries personSchema).map Prod.fst ∧
      t = inlineObject members m.additionalType? := by
  have gives : GivesObject personSchema :=
    ⟨.inr ⟨by decide, by decide⟩, by decide, fun required found => by
      cases found
      exact ⟨_, rfl⟩⟩
  obtain ⟨t, typed, printed⟩ : ∃ t,
      typeAt "#" (.object personSchema) = .ok t ∧
      t.text = "\x7bname: string, age?: number, [key: string]: boolean\x7d" := by
    obtain ⟨properties, passed, written⟩ : ∃ properties,
        ([(.text "name", .object [(.text "type", .text "string")]),
            (.text "age", .object [(.text "type", .text "integer")])] : Fields).mapM
          (fun e => property "#" (.list [.text "name"]) e.1 e.2) =
            .ok properties ∧
        Schema.recordText (properties.map memberOf ++ [otherKeysOf (.scalar "boolean")]) =
          "\x7bname: string, age?: number, [key: string]: boolean\x7d" :=
      ⟨_, by cbv, by decide⟩
    exact ⟨_, (typeAt_object_eq_ok gives).mpr
      ⟨_, properties, some (.scalar "boolean"), rfl, passed, by cbv, rfl⟩, written⟩
  obtain ⟨builds, agree⟩ := inline_object gives {} "Person" "#"
  obtain ⟨m, built⟩ := builds.mpr ⟨t, typed⟩
  exact ⟨gives, m, t, built, typed, printed, agree m t built typed⟩

end Model

end ClientGen
