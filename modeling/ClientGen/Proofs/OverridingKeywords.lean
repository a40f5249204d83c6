import Mathlib
import ClientGen.Proofs.RenderedValues

/-!
# Keywords that override a type

A schema is read by its overriding keywords first: a reference, a type given word for word, the null
mark. A definition is told apart by its type before that, so where it gives none, or the type
object, these keywords go unread: the model is an interface, or the union of the variants alone.
`Model.named_type_iff` says for which definitions the model names the type of the schema anyway.
-/
namespace ClientGen

/-- Leaving out the entry under a key changes nothing under the others. -/
theorem Fields.get?_without (fields : Fields) (key other : String) :
    (fields.without key).get? other = if other = key then none else fields.get? other := by
  unfold get? without
  rw [Table.lookup_filter_key (· != Scalar.text key)]
  simp [Scalar.text.injEq]

theorem Fields.get_without_self (fields : Fields) (key : String) :
    (fields.without key).get key = .null := by
  rw [get, get?_without, if_pos rfl, Option.getD_none]

theorem Fields.get_without_of_ne {key other : String} (differs : other ≠ key) (fields : Fields) :
    (fields.without key).get other = fields.get other := by
  rw [get, get?_without, if_neg differs, get]

namespace TypeExpr

/-- A text of joined types is as long as their texts, with one separator less than there are. -/
theorem length_joined (separator : String) {types : List TypeExpr} (given : types ≠ []) :
    (joined separator types).length + separator.length =
      (types.map fun t => t.text.length).sum + types.length * separator.length := by
  induction types with
  | nil => exact absurd rfl given
  | cons first rest ih =>
    cases rest with
    | nil => simp [joined]
    | cons second rest =>
      have shorter := ih (List.cons_ne_nil _ _)
      simp only [joined, List.map_cons, String.intercalate_cons_cons, String.length_append,
        List.sum_cons, List.length_cons, Nat.add_mul, Nat.one_mul] at shorter ⊢
      omega

/-- A union that allows null is not printed like the union that is a model of its own: a separator
of the one is two characters shorter, and its null mark has seven. -/
theorem text_nullable_union_ne (types : List TypeExpr) :
    (union types).nullable.text ≠ (combine Model.variantSeparator types).text := by
  intro same
  have long : 7 + (joined " | " types).length = (joined Model.variantSeparator types).length := by
    have mark : "null | ".length = 7 := by decide
    rw [← mark, ← String.length_append]
    exact congrArg String.length same
  by_cases given : types = []
  · subst given
    simp [joined] at long
  · have spaced := length_joined " | " given
    have broken := length_joined Model.variantSeparator given
    have three : " | ".length = 3 := by decide
    have five : Model.variantSeparator.length = 5 := by decide
    rw [three] at spaced
    rw [five] at broken
    omega

end TypeExpr

namespace Schema

def Overridden (schema : Fields) : Prop :=
  schema.get "$ref" ≠ .null ∨ schema.get "x-type" ≠ .null ∨
    (schema.get "x-nullable").isSet = true

/-- The type that takes the place of whatever else a schema says: that of a reference, or one that
is given word for word. -/
def replacement? (schema : Fields) : Outcome (Option TypeExpr) :=
  if schema.get "$ref" ≠ .null then do
    return some (typeOfText ((← Naming.classOfRef? (schema.get "$ref")).getD ""))
  else if schema.get "x-type" ≠ .null then
    .ok (some (typeOfText (Text.replaceAll "List<" "Array<" (schema.get "x-type").display)))
  else .ok none

section Reading

variable {path keyword : String} {schema : Fields}

theorem parseEach_of_no_object {values : List Value} {start : Nat}
    (plain : ∀ fields, Value.object fields ∉ values) :
    parseEach path keyword start values =
      .ok (values.mapIdx fun i _ => .null ⟨placeAt path keyword (start + i), .null⟩) := by
  induction values generalizing start with
  | nil => rw [parseEach, List.mapIdx_nil]
  | cons v rest ih =>
    have first : parse (placeAt path keyword start) v =
        .ok (.null ⟨placeAt path keyword start, .null⟩) := by
      cases v with
      | object fields => exact absurd List.mem_cons_self (plain fields)
      | scalar s => rw [parse]; exact fun fields same => by cases same
      | list items => rw [parse]; exact fun fields same => by cases same
    have others : parseEach path keyword (start + 1) rest =
        .ok (rest.mapIdx fun i _ => .null ⟨placeAt path keyword (start + (i + 1)), .null⟩) := by
      rw [ih fun fields member => plain fields (List.mem_cons_of_mem _ member)]
      simp only [Nat.add_assoc, Nat.add_comm 1]
    rw [parseEach, first, others, List.mapIdx_cons]
    rfl

/-- What is no list is read like the list of what it holds. -/
theorem missingEach_eq {v : Value} (noList : ∀ items, v ≠ .list items) :
    missingEach path keyword v = v.elements >>= parseEach path keyword 0 := by
  unfold missingEach
  cases listed : v.elements with
  | error e => rfl
  | ok items =>
    have plain : ∀ fields, Value.object fields ∉ items := by
      intro fields member
      cases v with
      | list own => exact noList own rfl
      | object entries =>
        cases listed
        simp at member
      | scalar s =>
        cases s with
        | text s =>
          cases listed
          simp at member
        | null | bool _ | int _ | float _ | date _ => cases listed
    have each : parseEach path keyword 0 items =
        .ok (items.mapIdx fun i _ => .null ⟨placeAt path keyword (0 + i), .null⟩) :=
      parseEach_of_no_object plain
    simp only [Nat.zero_add] at each
    exact each.symm

/-- The variants of a schema without a type are read one by one. -/
theorem parseUntyped_of_variants {origin : Origin} (varies : hasVariants schema = true) :
    parseUntyped path origin schema = do
      let variants ← (schema.get (variantKeyword schema).name).elements
      return .union origin (variantKeyword schema)
        (← parseEach path (variantKeyword schema).name 0 variants) := by
  rw [parseUntyped, if_pos varies]
  dsimp only
  split
  · rename_i variants listed
    rw [listed]
    rfl
  · rename_i noList
    rw [missingEach_eq noList]
    simp only [bind_assoc]

/-- The types of schemas that are read one by one are those that a union of its own joins. -/
theorem variantTypes_of_parseEach {values : List Value} {start : Nat} {schemas : List Schema}
    {ts : List TypeExpr} (read : parseEach path keyword start values = .ok schemas)
    (typed : List.Forall₂ (fun s t => s.type = .ok t) schemas ts) :
    Model.variantTypes path keyword start values = .ok ts := by
  induction values generalizing start schemas ts with
  | nil =>
    rw [parseEach] at read
    cases read
    cases typed
    rfl
  | cons v rest ih =>
    rw [parseEach] at read
    obtain ⟨first, head, read⟩ := bind_eq_ok.mp read
    obtain ⟨others, tail, read⟩ := bind_eq_ok.mp read
    cases read
    cases typed with
    | @cons _ t _ us headType tailTypes =>
      have first : typeAt (placeAt path keyword start) v = .ok t :=
        bind_eq_ok.mpr ⟨first, head, headType⟩
      rw [Model.variantTypes]
      exact bind_eq_ok.mpr ⟨t, first, bind_eq_ok.mpr ⟨us, ih tail tailTypes, rfl⟩⟩

/-- The type of a schema that is replaced is what replaces it. -/
theorem typeAt_of_replacement (notNull : schema.get? "type" ≠ some .null)
    (replaced : schema.get "$ref" ≠ .null ∨ schema.get "x-type" ≠ .null) {t : TypeExpr} :
    typeAt path (.object schema) = .ok t ↔ replacement? schema = .ok (some t) := by
  rw [typeAt, parse, parseFields, if_neg notNull, replacement?]
  by_cases ref : schema.get "$ref" ≠ .null
  · rw [if_pos ref, if_pos ref]
    simp only [bind_eq_ok, Except.ok.injEq, exists_eq_left', type, pure, Except.pure,
      Option.some.injEq]
  · have given := replaced.resolve_left ref
    rw [if_neg ref, if_neg ref, if_pos given, if_pos given]
    simp only [bind_eq_ok, Except.ok.injEq, exists_eq_left', type, Option.some.injEq]

theorem replaced_of_replacement? {t : TypeExpr}
    (replacing : replacement? schema = .ok (some t)) :
    schema.get "$ref" ≠ .null ∨ schema.get "x-type" ≠ .null := by
  by_contra neither
  rw [not_or] at neither
  rw [replacement?, if_neg neither.1, if_neg neither.2] at replacing
  cases replacing

/-- Without a type and without anything that overrides it, the other keywords decide. -/
theorem parseFields_of_untyped (untyped : schema.get? "type" = none)
    (plain : ¬Overridden schema) :
    parseFields path schema = parseUntyped path ⟨path, schema.get "description"⟩ schema := by
  have notNull : schema.get? "type" ≠ some .null := by simp [untyped]
  simp only [Overridden, not_or] at plain
  rw [parseFields, if_neg notNull, if_neg plain.1, if_neg plain.2.1, dif_neg plain.2.2]
  split
  · rfl
  all_goals
    rename_i typed
    rw [untyped] at typed
    cases typed

/-- With the type object and without anything that overrides it, the keywords of objects decide. -/
theorem parseFields_of_object (typed : schema.get? "type" = some (.text "object"))
    (plain : ¬Overridden schema) :
    parseFields path schema = parseRecord path ⟨path, schema.get "description"⟩ schema := by
  have notNull : schema.get? "type" ≠ some .null := by simp [typed]
  simp only [Overridden, not_or] at plain
  rw [parseFields, if_neg notNull, if_neg plain.1, if_neg plain.2.1, dif_neg plain.2.2]
  split
  case h_5 s noText same =>
    rw [typed, Option.some.injEq, Value.scalar.injEq] at same
    exact absurd same.symm (noText _)
  all_goals
    rename_i same
    rw [typed] at same
    cases same
  simp

/-- The type of a schema with variants alone is the union of their types. -/
theorem type_of_variants (untyped : schema.get? "type" = none) (plain : ¬Overridden schema)
    (varies : hasVariants schema = true) {s : Schema} (read : parseFields path schema = .ok s)
    {t : TypeExpr} (typed : s.type = .ok t) :
    ∃ variants ts, (schema.get (variantKeyword schema).name).elements = .ok variants ∧
      Model.variantTypes path (variantKeyword schema).name 0 variants = .ok ts ∧
      t = .union ts := by
  rw [parseFields_of_untyped untyped plain, parseUntyped_of_variants varies] at read
  obtain ⟨variants, listed, read⟩ := bind_eq_ok.mp read
  obtain ⟨schemas, each, read⟩ := bind_eq_ok.mp read
  cases read
  cases hasType_of_type typed with
  | union eachType => exact ⟨variants, _, listed, variantTypes_of_parseEach each eachType, rfl⟩

section NullMark

theorem hasVariants_unmarked (schema : Fields) :
    hasVariants (schema.without "x-nullable") = hasVariants schema := by
  rw [hasVariants, hasVariants, Fields.get_without_of_ne (by decide),
    Fields.get_without_of_ne (by decide)]

theorem variantKeyword_unmarked (schema : Fields) :
    variantKeyword (schema.without "x-nullable") = variantKeyword schema := by
  rw [variantKeyword, variantKeyword, Fields.get_without_of_ne (by decide)]

theorem get_variants_unmarked (schema : Fields) (keyword : UnionKeyword) :
    (schema.without "x-nullable").get keyword.name = schema.get keyword.name := by
  apply Fields.get_without_of_ne
  cases keyword <;> decide

variable (noRef : schema.get "$ref" = .null) (noText : schema.get "x-type" = .null)
include noRef noText

theorem not_overridden_unmarked : ¬Overridden (schema.without "x-nullable") := by
  rw [Overridden, Fields.get_without_of_ne (by decide), Fields.get_without_of_ne (by decide),
    Fields.get_without_self]
  simp [noRef, noText, Value.isSet]

/-- The type of a union that is marked to allow null joins the types of its variants, and null. -/
theorem typeAt_of_nullMark (untyped : schema.get? "type" = none)
    (varies : hasVariants schema = true) (marked : (schema.get "x-nullable").isSet = true)
    {t : TypeExpr} (typed : typeAt path (.object schema) = .ok t) :
    ∃ variants ts, (schema.get (variantKeyword schema).name).elements = .ok variants ∧
      Model.variantTypes path (variantKeyword schema).name 0 variants = .ok ts ∧
      t = (TypeExpr.union ts).nullable := by
  have notNull : schema.get? "type" ≠ some .null := by simp [untyped]
  rw [typeAt, parse, parseFields, if_neg notNull, if_neg (not_not.mpr noRef),
    if_neg (not_not.mpr noText), dif_pos marked] at typed
  obtain ⟨s, read, typed⟩ := bind_eq_ok.mp typed
  obtain ⟨inner, unmarked, marking⟩ := bind_eq_ok.mp read
  cases marking
  cases hasType_of_type typed with
  | nullable inside =>
    have stillUntyped : (schema.without "x-nullable").get? "type" = none := by
      rw [Fields.get?_without, if_neg (by decide), untyped]
    obtain ⟨variants, ts, listed, each, rfl⟩ :=
      type_of_variants stillUntyped (not_overridden_unmarked noRef noText)
        ((hasVariants_unmarked schema).trans varies) unmarked inside
    rw [variantKeyword_unmarked] at listed each
    rw [get_variants_unmarked] at listed
    exact ⟨variants, ts, listed, each, rfl⟩

end NullMark

end Reading

end Schema

namespace Model

def namedType? (m : Model) : Option TypeExpr := m.elementType?.or m.aliasType?

theorem DescribesObject.type_ne {schema : Fields} (describes : DescribesObject schema)
    {type : Value} (noObject : type ≠ .text "object") : schema.get? "type" ≠ some type := by
  rcases describes.2 with ⟨untyped, -⟩ | object
  · simp [untyped]
  · simpa [object] using noObject.symm

/-- The null mark alone is lost in the model of a definition that lists variants. -/
theorem text_ne_of_nullMark {path : String} {schema : Fields} {t u : TypeExpr}
    (plain : (schema.get "allOf").isSet = false) (untyped : schema.get? "type" = none)
    (varies : Schema.hasVariants schema = true) (noRef : schema.get "$ref" = .null)
    (noText : schema.get "x-type" = .null) (marked : (schema.get "x-nullable").isSet = true)
    (read : bodyOf path schema = .ok (.union u))
    (typed : typeAt path (.object schema) = .ok t) : u.text ≠ t.text := by
  obtain ⟨variants, ts, listed, each, same⟩ := variants_ok plain untyped varies read
  cases same
  obtain ⟨_, _, listedAgain, eachAgain, rfl⟩ :=
    Schema.typeAt_of_nullMark noRef noText untyped varies marked typed
  rw [listed] at listedAgain
  cases listedAgain
  rw [each] at eachAgain
  cases eachAgain
  exact (TypeExpr.text_nullable_union_ne ts).symm

/-- If a definition that lists variants names the type of its schema, a keyword replaces that. -/
theorem replaced_of_text_eq {path : String} {schema : Fields} {t u : TypeExpr}
    (plain : (schema.get "allOf").isSet = false) (untyped : schema.get? "type" = none)
    (varies : Schema.hasVariants schema = true) (overridden : Schema.Overridden schema)
    (read : bodyOf path schema = .ok (.union u))
    (typed : typeAt path (.object schema) = .ok t) (same : u.text = t.text) :
    schema.get "$ref" ≠ .null ∨ schema.get "x-type" ≠ .null := by
  rcases overridden with ref | text | marked
  · exact Or.inl ref
  · exact Or.inr text
  · by_contra neither
    rw [not_or, not_not, not_not] at neither
    exact text_ne_of_nullMark plain untyped varies neither.1 neither.2 marked read typed same

/-- A definition with keywords that override its type names the type that its schema has inside
another one, exactly if it gives a type other than object, or if it gives none and its variants
together are printed like what a reference or a type given word for word puts in their place. -/
theorem named_type_iff {config : Config} {name : String} {schema : Fields} {m : Model}
    (success : ofDefinition config (.text name) schema = .ok m)
    (plain : (schema.get "allOf").isSet = false) (overridden : Schema.Overridden schema) :
    (∃ t u, typeAt (definitionPath name) (.object schema) = .ok t ∧ m.namedType? = some u ∧
      u.text = t.text) ↔
      (∃ type, schema.get? "type" = some type ∧ type ≠ .text "object") ∨
      (schema.get? "type" = none ∧ Schema.hasVariants schema = true ∧
        ∃ u t, m.aliasType? = some u ∧ Schema.replacement? schema = .ok (some t) ∧
          u.text = t.text) := by
  obtain ⟨text, same, -, -, read, -⟩ := ofDefinition_ok success
  cases same
  rcases describesObject_cases plain with describes | ⟨type, typed, noObject⟩ | ⟨untyped, varies⟩
  · obtain ⟨fields, properties, additional, -, -, -, body⟩ := interface_ok describes read
    have noElement : m.elementType? = none := by rw [elementType?, body]
    have noAlias : m.aliasType? = none := by rw [aliasType?, body]
    constructor
    · rintro ⟨t, u, -, names, -⟩
      rw [namedType?, noElement, noAlias] at names
      cases names
    · rintro (⟨type, typed, noObject⟩ | ⟨-, -, u, t, names, -, -⟩)
      · exact absurd typed (describes.type_ne noObject)
      · rw [noAlias] at names
        cases names
  · obtain ⟨t, own, body⟩ := whole_ok plain typed noObject read
    have names : m.namedType? = some t := by
      rcases body with body | body <;> rw [namedType?, elementType?, aliasType?, body] <;> rfl
    exact ⟨fun _ => Or.inl ⟨type, typed, noObject⟩, fun _ => ⟨t, t, own, names, rfl⟩⟩
  · obtain ⟨variants, ts, -, -, body⟩ := variants_ok plain untyped varies read
    have noElement : m.elementType? = none := by rw [elementType?, body]
    have named : m.aliasType? = some (.combine variantSeparator ts) := by rw [aliasType?, body]
    have notNull : schema.get? "type" ≠ some .null := by simp [untyped]
    rw [namedType?, noElement, Option.none_or]
    constructor
    · rintro ⟨t, u, own, names, same⟩
      refine Or.inr ⟨untyped, varies, u, t, names, ?_, same⟩
      refine (Schema.typeAt_of_replacement notNull ?_).mp own
      rw [named] at names
      cases names
      rw [body] at read
      exact replaced_of_text_eq plain untyped varies overridden read own same
    · rintro (⟨type, given, -⟩ | ⟨-, -, u, t, names, replacing, same⟩)
      · rw [untyped] at given
        cases given
      · have replaced := Schema.replaced_of_replacement? replacing
        exact ⟨t, u, (Schema.typeAt_of_replacement notNull replaced).mpr replacing, names, same⟩

def optionalName : Fields := [(.text "type", .text "string"), (.text "x-nullable", .bool true)]

/-- A definition of text that may be null names that type. -/
theorem named_type_optionalName : ∃ m,
    ofDefinition {} (.text "Name") optionalName = .ok m ∧
    (optionalName.get "allOf").isSet = false ∧ Schema.Overridden optionalName ∧
    m.kind = .simple ∧
    ∃ t u, typeAt (definitionPath "Name") (.object optionalName) = .ok t ∧
      m.namedType? = some u ∧ u.text = t.text ∧ t.text = "null | string" := by
  obtain ⟨m, read, simple⟩ : ∃ m, ofDefinition {} (.text "Name") optionalName = .ok m ∧
      m.kind = .simple := ⟨_, by cbv, by cbv⟩
  obtain ⟨t, own, text⟩ : ∃ t, typeAt (definitionPath "Name") (.object optionalName) = .ok t ∧
      t.text = "null | string" := ⟨_, by cbv, by cbv⟩
  have plain : (optionalName.get "allOf").isSet = false := by decide
  have overridden : Schema.Overridden optionalName := Or.inr (Or.inr (by decide))
  have honoured := (named_type_iff read plain overridden).mpr
    (Or.inl ⟨.text "string", by decide, by decide⟩)
  obtain ⟨_, u, again, names, same⟩ := honoured
  rw [own] at again
  cases again
  exact ⟨m, read, plain, overridden, simple, t, u, own, names, same, text⟩

def otherPet : Fields := [(.text "$ref", .text (definitionPath "Pet"))]

/-- A definition that is only a reference becomes an empty interface, although its schema has the
type of what it refers to. -/
theorem reference_becomes_interface : ∃ m t,
    ofDefinition {} (.text "Animal") otherPet = .ok m ∧
    (otherPet.get "allOf").isSet = false ∧ Schema.Overridden otherPet ∧
    typeAt (definitionPath "Animal") (.object otherPet) = .ok t ∧ t.text = "Pet" ∧
    m.body = .object [] [] none ∧ m.namedType? = none := by
  obtain ⟨m, read, body, names⟩ : ∃ m, ofDefinition {} (.text "Animal") otherPet = .ok m ∧
      m.body = .object [] [] none ∧ m.namedType? = none := ⟨_, by cbv, by cbv, by cbv⟩
  obtain ⟨t, own, text⟩ : ∃ t, typeAt (definitionPath "Animal") (.object otherPet) = .ok t ∧
      t.text = "Pet" := ⟨_, by cbv, by cbv⟩
  exact ⟨m, t, read, by decide, Or.inl (by decide), own, text, body, names⟩

end Model

end ClientGen
