import ClientGen.Proofs.Compositions

/-!
# The bodies of models

`Model.Becomes` lists the ways in which a definition becomes the body of a model, with all that is
read on each way. There are no others (`bodyOf_eq_ok`). A property of an interface says what its
entry says (`property_eq_ok`).
-/
namespace ClientGen

/-- What stands in for a value that is not set makes no difference where it is not set itself. -/
theorem Value.isSet_orElse {v fallback : Value} (unset : fallback.isSet = false) :
    (v.orElse fallback).isSet = v.isSet := by
  unfold orElse
  split
  · rfl
  · rename_i missing
    rw [unset]
    simpa using missing

namespace Model

/-- A definition without parts of its own is an interface unless it has another type or variants. -/
def DescribesObject (schema : Fields) : Prop :=
  (schema.get "allOf").isSet = false ∧
    (schema.get? "type" = none ∧ Schema.hasVariants schema = false ∨
      schema.get? "type" = some (.text "object"))

/-- A definition that is no composition describes an object, gives another type, or has variants. -/
theorem describesObject_cases {schema : Fields} (plain : (schema.get "allOf").isSet = false) :
    DescribesObject schema ∨
      (∃ type, schema.get? "type" = some type ∧ type ≠ .text "object") ∨
      (schema.get? "type" = none ∧ Schema.hasVariants schema = true) := by
  cases typed : schema.get? "type" with
  | none =>
    cases varies : Schema.hasVariants schema with
    | false => exact Or.inl ⟨plain, Or.inl ⟨typed, varies⟩⟩
    | true => exact Or.inr (Or.inr ⟨rfl, rfl⟩)
  | some type =>
    by_cases object : type = .text "object"
    · exact Or.inl ⟨plain, Or.inr (by rw [typed, object])⟩
    · exact Or.inr (Or.inl ⟨type, rfl, object⟩)

/-- A composition is an interface if it has parents, or properties and no constants. -/
def Composition.IsInterface (c : Composition) (schema : Fields) : Prop :=
  c.parents ≠ [] ∨
    c.properties ≠ [] ∧ ((schema.get "enum").orElse (.list [])).isSet = false

structure Joins (path : String) (schema : Fields) (c : Composition) : Prop where
  composed : (schema.get "allOf").isSet = true
  joined : ∃ branches, (schema.get "allOf").elements = .ok branches ∧
    ({} : Composition).addAll path 0 branches = .ok c

theorem Joins.unique {path : String} {schema : Fields} {c d : Composition}
    (joins : Joins path schema c) (other : Joins path schema d) : c = d := by
  obtain ⟨branches, listed, joined⟩ := joins.joined
  obtain ⟨others, relisted, rejoined⟩ := other.joined
  rw [listed, Except.ok.injEq] at relisted
  subst relisted
  rw [joined, Except.ok.injEq] at rejoined
  exact rejoined

inductive Becomes (path : String) (schema : Fields) : ModelBody → Prop
  | interface {c : Composition} {properties : List Property} (joins : Joins path schema c)
      (interface : c.IsInterface schema)
      (written : propertiesOf path (.list c.required) c.properties = .ok properties) :
      Becomes path schema (.object c.parents properties c.additional)
  | constants {c : Composition} {values : List Value} (joins : Joins path schema c)
      (noInterface : ¬c.IsInterface schema) (given : (schema.get "enum").isSet = true)
      (listed : (schema.get "enum").elements = .ok values) :
      Becomes path schema (.enum (constantsOf values))
  | text {c : Composition} (joins : Joins path schema c) (noInterface : ¬c.IsInterface schema)
      (noConstants : (schema.get "enum").isSet = false) :
      Becomes path schema (.simple (.scalar "string"))
  | array {t : TypeExpr} (plain : (schema.get "allOf").isSet = false)
      (typed : schema.get? "type" = some (.text "array"))
      (found : typeAt path (.object schema) = .ok t) : Becomes path schema (.array t)
  | union {variants : List Value} {types : List TypeExpr}
      (plain : (schema.get "allOf").isSet = false) (untyped : schema.get? "type" = none)
      (varies : Schema.hasVariants schema = true)
      (listed : (schema.get (Schema.variantKeyword schema).name).elements = .ok variants)
      (typed : variantTypes path (Schema.variantKeyword schema).name 0 variants = .ok types) :
      Becomes path schema (.union (.combine variantSeparator types))
  | object {fields : Fields} {properties : List Property} {additional : Option TypeExpr}
      (describes : DescribesObject schema)
      (declared : (schema.get "properties").orElse (.object []) = .object fields)
      (written : propertiesOf path (Schema.requiredNames schema) fields = .ok properties)
      (free : additionalTypeOf path schema = .ok additional) :
      Becomes path schema (.object [] properties additional)
  | whole {type : Value} {t : TypeExpr} (plain : (schema.get "allOf").isSet = false)
      (typed : schema.get? "type" = some type) (noArray : type ≠ .text "array")
      (noObject : type ≠ .text "object") (found : typeAt path (.object schema) = .ok t) :
      Becomes path schema (.simple t)

variable {path : String} {schema : Fields} {body : ModelBody} {payload : Payload}

theorem Composition.isInterface_iff {c : Composition} :
    (!c.parents.isEmpty ||
      (!c.properties.isEmpty && !((schema.get "enum").orElse (.list [])).isSet)) = true ↔
    c.IsInterface schema := by
  simp [IsInterface]

/-- A composition is read by joining its branches first. -/
theorem composition_of_joins {c : Composition} (joins : Joins path schema c) :
    composition path schema =
      if (!c.parents.isEmpty ||
          (!c.properties.isEmpty && !((schema.get "enum").orElse (.list [])).isSet)) then do
        return (ModelBody.object c.parents (← propertiesOf path (.list c.required) c.properties)
          c.additional).payload
      else if (schema.get "enum").isSet then do
        return (ModelBody.enum (constantsOf (← (schema.get "enum").elements))).payload
      else .ok (ModelBody.simple (.scalar "string")).payload := by
  obtain ⟨branches, listed, joined⟩ := joins.joined
  unfold composition
  rw [listed]
  change (({} : Composition).addAll path 0 branches >>= _) = _
  rw [joined]
  change (if _ then _ else _) = _
  split
  · rfl
  · rw [Value.isSet_orElse rfl]
    split
    · rename_i given
      rw [Value.orElse, if_pos given]
      rfl
    · rfl

theorem composition_eq_ok (composed : (schema.get "allOf").isSet = true) :
    composition path schema = .ok payload ↔
      ∃ body, Becomes path schema body ∧ payload = body.payload := by
  constructor
  · intro read
    obtain ⟨branches, listed, rest⟩ := bind_eq_ok.mp read
    obtain ⟨c, joined, -⟩ := bind_eq_ok.mp rest
    have joins : Joins path schema c := ⟨composed, branches, listed, joined⟩
    rw [composition_of_joins joins] at read
    split at read
    · rename_i interface
      obtain ⟨properties, written, read⟩ := bind_eq_ok.mp read
      cases read
      exact ⟨_, .interface joins (Composition.isInterface_iff.mp interface) written, rfl⟩
    · rename_i noInterface
      rw [Composition.isInterface_iff] at noInterface
      split at read
      · rename_i given
        obtain ⟨values, listed, read⟩ := bind_eq_ok.mp read
        cases read
        exact ⟨_, .constants joins noInterface given listed, rfl⟩
      · rename_i missing
        cases read
        exact ⟨_, .text joins noInterface (by simpa using missing), rfl⟩
  · rintro ⟨body, becomes, rfl⟩
    cases becomes with
    | interface joins interface written =>
      rw [composition_of_joins joins, if_pos (Composition.isInterface_iff.mpr interface), written]
      rfl
    | constants joins noInterface given listed =>
      rw [composition_of_joins joins, if_neg (mt Composition.isInterface_iff.mp noInterface),
        if_pos given, listed]
      rfl
    | text joins noInterface noConstants =>
      rw [composition_of_joins joins, if_neg (mt Composition.isInterface_iff.mp noInterface),
        noConstants]
      rfl
    | array plain | union plain | whole plain =>
      rw [composed] at plain
      cases plain
    | object describes =>
      rw [describes.1] at composed
      cases composed

/-- A definition is read in these ways and in no other, each of which fills what the body of a model
is made of and nothing else. -/
theorem payloadOf_eq_ok :
    payloadOf path schema = .ok payload ↔
      ∃ body, Becomes path schema body ∧ payload = body.payload := by
  cases composed : (schema.get "allOf").isSet with
  | true =>
    rw [← composition_eq_ok composed, payloadOf, if_pos composed]
  | false =>
    unfold payloadOf
    rw [composed]
    dsimp only
    constructor
    · intro read
      split at read
      · cases ‹false = true›
      split at read
      · rename_i typed
        obtain ⟨t, found, read⟩ := bind_eq_ok.mp read
        cases read
        exact ⟨_, .array composed typed found, rfl⟩
      split at read
      · rename_i varies
        obtain ⟨variants, listed, read⟩ := bind_eq_ok.mp read
        obtain ⟨types, typed, read⟩ := bind_eq_ok.mp read
        cases read
        exact ⟨_, .union composed varies.1 varies.2 listed typed, rfl⟩
      split at read
      · rename_i noVariants object
        obtain ⟨fields, declared, read⟩ := bind_eq_ok.mp read
        obtain ⟨properties, written, read⟩ := bind_eq_ok.mp read
        obtain ⟨additional, free, read⟩ := bind_eq_ok.mp read
        cases read
        refine ⟨_, .object ⟨composed, object.imp_left fun untyped => ⟨untyped, ?_⟩⟩
          (Value.asFields_eq_ok.mp declared) written free, rfl⟩
        simpa [untyped] using noVariants
      · rename_i noArray _ other
        obtain ⟨t, found, read⟩ := bind_eq_ok.mp read
        cases read
        rw [not_or] at other
        obtain ⟨type, typed⟩ := Option.ne_none_iff_exists'.mp other.1
        rw [typed, Option.some.injEq] at noArray other
        exact ⟨_, .whole composed typed noArray other.2 found, rfl⟩
    · rintro ⟨body, becomes, rfl⟩
      cases becomes with
      | interface joins | constants joins | text joins =>
        have joined := joins.composed
        rw [composed] at joined
        cases joined
      | array plain typed found =>
        rw [if_neg (by simp), if_pos typed]
        exact bind_eq_ok.mpr ⟨_, found, rfl⟩
      | union plain untyped varies listed typed =>
        rw [if_neg (by simp), if_neg (by simp [untyped]), if_pos ⟨untyped, varies⟩]
        exact bind_eq_ok.mpr ⟨_, listed, bind_eq_ok.mpr ⟨_, typed, rfl⟩⟩
      | object describes declared written free =>
        obtain ⟨noArray, noVariants, object⟩ : schema.get? "type" ≠ some (.text "array") ∧
            ¬(schema.get? "type" = none ∧ Schema.hasVariants schema = true) ∧
            (schema.get? "type" = none ∨ schema.get? "type" = some (.text "object")) := by
          obtain ⟨-, untyped | typed⟩ := describes
          · simp [untyped]
          · simp [typed]
        rw [if_neg (by simp), if_neg noArray, if_neg noVariants, if_pos object]
        exact bind_eq_ok.mpr ⟨_, Value.asFields_eq_ok.mpr declared,
          bind_eq_ok.mpr ⟨_, written, bind_eq_ok.mpr ⟨_, free, rfl⟩⟩⟩
      | whole plain typed noArray noObject found =>
        rw [if_neg (by simp), if_neg (by simpa [typed] using noArray), if_neg (by simp [typed]),
          if_neg (by simpa [typed] using noObject)]
        exact bind_eq_ok.mpr ⟨_, found, rfl⟩

/-- A definition becomes the body of a model in these ways and in no other. -/
theorem bodyOf_eq_ok : bodyOf path schema = .ok body ↔ Becomes path schema body := by
  constructor
  · intro read
    obtain ⟨payload, filled, read⟩ := bind_eq_ok.mp read
    obtain ⟨own, becomes, rfl⟩ := payloadOf_eq_ok.mp filled
    cases read
    exact own.body_payload.symm ▸ becomes
  · intro becomes
    refine bind_eq_ok.mpr ⟨_, payloadOf_eq_ok.mpr ⟨body, becomes, rfl⟩, ?_⟩
    exact congrArg Except.ok body.body_payload

/-- A definition that becomes a body can be read. -/
theorem Becomes.exists_ofDefinition {name : String} (config : Config)
    (becomes : Becomes (definitionPath name) schema body) :
    ∃ m, ofDefinition config (.text name) schema = .ok m := by
  have filled := payloadOf_eq_ok.mpr ⟨body, becomes, rfl⟩
  exact ⟨_, bind_eq_ok.mpr ⟨_, bind_eq_ok.mpr ⟨_, filled, rfl⟩, rfl⟩⟩

/-- A property is read from an entry whose key is a text, and says what the entry says. -/
theorem property_eq_ok {required v : Value} {key : Scalar} {p : Property} :
    property path required key v = .ok p ↔ ∃ name isRequired t, key = .text name ∧
      required.names (.text name) = .ok isRequired ∧
      typeAt (Schema.memberPath path (.text name)) v = .ok t ∧
      p = { name, key := Naming.propertyKey name, required := isRequired,
            description := descriptionOf v, type := t } := by
  unfold property
  constructor
  · intro read
    obtain ⟨written, bare, read⟩ := bind_eq_ok.mp read
    obtain ⟨isRequired, asked, read⟩ := bind_eq_ok.mp read
    obtain ⟨t, typed, read⟩ := bind_eq_ok.mp read
    cases read
    cases key with
    | text name =>
      cases bare
      exact ⟨name, isRequired, t, rfl, asked, typed, rfl⟩
    | _ => cases bare
  · rintro ⟨name, isRequired, t, rfl, asked, typed, rfl⟩
    exact bind_eq_ok.mpr ⟨_, rfl, bind_eq_ok.mpr ⟨_, asked, bind_eq_ok.mpr ⟨_, typed, rfl⟩⟩⟩

end Model

end ClientGen
