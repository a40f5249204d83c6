import ClientGen.Client.ModelFile
import ClientGen.Proofs.MergedProperties
import ClientGen.Proofs.PrintedTypes

/-!
# Shapes of models

A definition is read into a record that has fields for every kind of model. Which kind it becomes is
decided by its keywords (`Model.kindOf`), and the record has the fields of this kind and no others
(`Payload.Shaped`): an array its type, an enumeration at least one constant of which the last is
marked, a name for another type that type, and only an interface has parents, properties or a type
for other keys. All of it is printed, and the model of the record keeps all of it
(`shape_of_definition`).
-/
namespace ClientGen

namespace Model

/-- The branches of a composition name a parent, or declare a property where no constants are
listed. -/
def ComposesInterface (schema : Fields) : Prop :=
  (branchesOf schema).filterMap parentOf? ≠ [] ∨
    (declaringParts schema).flatMap declaredEntries ≠ [] ∧ (schema.get "enum").isSet = false

instance (schema : Fields) : Decidable (ComposesInterface schema) :=
  inferInstanceAs (Decidable (_ ∨ _ ∧ _))

def kindOf (schema : Fields) : ModelKind :=
  if (schema.get "allOf").isSet then
    if ComposesInterface schema then .object
    else if (schema.get "enum").isSet then .enum
    else .simple
  else
    match schema.get? "type" with
    | none => if Schema.hasVariants schema then .union else .object
    | some type =>
      if type = .text "array" then .array
      else if type = .text "object" then .object
      else .simple

def constantLine (className : String) (c : EnumConstant) : String :=
  "  export const " ++ c.name ++ ": " ++ className ++ " = " ++ Client.constantLiteral c ++ ";"

end Model

namespace Payload

/-- A payload has what its kind is written from, and nothing else. -/
structure Shaped (p : Payload) : Prop where
  element : p.elementType.isSome = true ↔ p.kind = .array
  named : p.aliasType.isSome = true ↔ p.kind = .simple ∨ p.kind = .union
  constants : p.constants ≠ [] ↔ p.kind = .enum
  marked : ∀ (index : Nat) (c : EnumConstant), p.constants[index]? = some c →
    (c.isLast = true ↔ index + 1 = p.constants.length)
  members : p.parents ≠ [] ∨ p.properties ≠ [] ∨ p.additionalType.isSome = true →
    p.kind = .object

/-- All that a payload has stands in the declaration of a class, and no missing type does. -/
structure WrittenOut (config : Config) (className : String) (p : Payload) (text : String) :
    Prop where
  parents : p.parents ≠ [] →
    (" extends " ++ ", ".intercalate p.parents).toList <:+: text.toList
  properties : ∀ q ∈ p.properties, ∃ line, Client.propertyText q = .ok line ∧
    line.toList <:+: text.toList
  additional : ∀ t ∈ p.additionalType,
    ("  [key: string]: " ++ t.text ++ ";\n").toList <:+: text.toList
  constants : p.constants ≠ [] →
    ("export type " ++ className ++ " = " ++
      " | ".intercalate (p.constants.map Client.constantLiteral) ++ ";\n").toList <+: text.toList
  spelled : config.enumModule = true → ∀ c ∈ p.constants,
    (Model.constantLine className c).toList <:+: text.toList
  type : ∀ t, p.elementType = some t ∨ p.aliasType = some t →
    text = "export type " ++ className ++ " = " ++ t.text ++ ";\n"
  given : p.kind = .array ∨ p.kind = .simple ∨ p.kind = .union →
    ∃ t, (p.elementType = some t ∨ p.aliasType = some t) ∧
      text = "export type " ++ className ++ " = " ++ t.text ++ ";\n"

end Payload

namespace Model

section Constants

/-- The last one of the constants of an enumeration is marked, and no other. -/
theorem marked_constantsOf (values : List Value) {index : Nat} {c : EnumConstant}
    (there : (constantsOf values)[index]? = some c) :
    c.isLast = true ↔ index + 1 = (constantsOf values).length := by
  unfold constantsOf at there ⊢
  rw [length_markLast]
  rw [getElem?_markLast] at there
  split at there
  · rename_i last
    obtain ⟨d, -, rfl⟩ := Option.map_eq_some_iff.mp there
    exact iff_of_true rfl last
  · rename_i notLast
    rw [List.getElem?_map, Option.map_eq_some_iff] at there
    obtain ⟨v, -, rfl⟩ := there
    exact iff_of_false Bool.false_ne_true notLast

theorem constantsOf_ne_nil {values : List Value} : constantsOf values ≠ [] ↔ values ≠ [] := by
  rw [ne_eq, ne_eq, ← List.length_eq_zero_iff, constantsOf, length_markLast, List.length_map,
    List.length_eq_zero_iff]

/-- As the last constant alone is marked, a separator stands between each two. -/
theorem constantList_constantsOf (separator : String) (write : EnumConstant → String)
    (values : List Value) : Client.constantList separator write (constantsOf values) =
      separator.intercalate ((constantsOf values).map write) := by
  unfold Client.constantList
  induction values with
  | nil => rfl
  | cons v rest ih =>
    cases rest with
    | nil =>
      change String.join [write _ ++ ""] = separator.intercalate [write _]
      rw [String.intercalate_singleton, String.append_empty, String.join_cons, String.join_nil,
        String.append_empty]
    | cons w others =>
      have step : constantsOf (v :: w :: others) =
        ⟨Naming.constantName v, constantText v, false⟩ :: constantsOf (w :: others) := rfl
      obtain ⟨c, later, tail⟩ := List.exists_cons_of_ne_nil
        (constantsOf_ne_nil.mpr (List.cons_ne_nil w others))
      rw [step, List.map_cons, String.join_cons, ih, tail]
      exact (String.intercalate_cons_cons ..).symm

/-- Each constant is spelled out in the namespace of an enumeration. -/
theorem infix_enumNamespace {className : String} {constants : List EnumConstant}
    {c : EnumConstant} (member : c ∈ constants) :
    (constantLine className c).toList <:+: (Client.enumNamespace className constants).toList := by
  change _ <:+: ("export namespace " ++ className ++ " \x7b\n" ++
    Client.unlines (constants.map (constantLine className)) ++ _ ++ _ ++ _ ++ _ ++ _).toList
  refine (Text.infix_append_of_left List.infix_rfl "\n").trans
    ((Client.infix_unlines (List.mem_map_of_mem member)).trans ?_)
  repeat first
    | with_reducible exact Text.infix_append_self _ _
    | with_reducible refine Text.infix_append_of_left ?_ _

end Constants

section Bodies

variable {path : String} {schema : Fields} {body : ModelBody} {c : Composition}

theorem Joins.isInterface_iff (joins : Joins path schema c) :
    c.IsInterface schema ↔ ComposesInterface schema := by
  obtain ⟨parents, properties, -⟩ := joins.effects
  rw [Composition.IsInterface, ComposesInterface, parents, properties, ne_eq, ne_eq, ne_eq,
    Fields.declareAll_eq_nil, Value.isSet_orElse rfl]
  simp

/-- The kind is the one that the keywords of the definition decide. -/
theorem Becomes.kind_payload (becomes : Becomes path schema body) :
    body.payload.kind = kindOf schema := by
  unfold kindOf
  cases becomes with
  | interface joins own written =>
    rw [if_pos joins.composed, if_pos (joins.isInterface_iff.mp own)]
    rfl
  | constants joins noInterface given listed =>
    rw [if_pos joins.composed, if_neg (mt joins.isInterface_iff.mpr noInterface), if_pos given]
    rfl
  | text joins noInterface noConstants =>
    rw [if_pos joins.composed, if_neg (mt joins.isInterface_iff.mpr noInterface),
      if_neg (by simp [noConstants])]
    rfl
  | array plain typed found => simp [plain, typed, ModelBody.payload]
  | union plain untyped varies listed typed => simp [plain, untyped, varies, ModelBody.payload]
  | object describes declared written free =>
    obtain ⟨plain, untyped | typed⟩ := describes
    · simp [plain, untyped, ModelBody.payload]
    · simp [plain, typed, ModelBody.payload]
  | whole plain typed noArray noObject found =>
    simp [plain, typed, noArray, noObject, ModelBody.payload]

/-- An enumeration has the constants of the values that its definition lists, at least one. -/
theorem Becomes.exists_constantsOf {constants : List EnumConstant}
    (becomes : Becomes path schema (.enum constants)) :
    ∃ values, values ≠ [] ∧ constants = constantsOf values := by
  cases becomes with
  | constants joins noInterface given listed =>
    exact ⟨_, Schema.ne_nil_of_elements given listed, rfl⟩

/-- What is filled in is what the kind is written from. -/
theorem Becomes.shaped_payload (becomes : Becomes path schema body) : body.payload.Shaped := by
  cases body with
  | enum constants =>
    obtain ⟨values, filled, rfl⟩ := becomes.exists_constantsOf
    refine ⟨?_, ?_, ?_, ?_, ?_⟩
    · simp [ModelBody.payload]
    · simp [ModelBody.payload]
    · exact iff_of_true (constantsOf_ne_nil.mpr filled) rfl
    · exact fun _ _ there => marked_constantsOf values there
    · simp [ModelBody.payload]
  | object parents properties additional | array t | simple t | union t =>
    constructor <;> simp [ModelBody.payload]

end Bodies

section Declarations

open Payload

variable {setting : Config} {className text : String}

/-- What an interface has stands in its declaration. -/
theorem writtenOut_object {parents : List String} {properties : List Property}
    {additional : Option TypeExpr}
    (declared : Client.declarationOf setting className
      (ModelBody.object parents properties additional).payload = .ok text) :
    WrittenOut setting className (ModelBody.object parents properties additional).payload text := by
  obtain ⟨lines, written, declared⟩ := bind_eq_ok.mp declared
  have parts : text = String.join ["export interface ", className, Client.extendsText parents,
      " \x7b\n", String.join lines, Client.additionalText additional, "\x7d\n"] := by
    cases declared
    simp only [String.join_cons, String.join_nil, String.append_assoc, String.append_empty,
      ModelBody.payload]
  refine ⟨fun extended => ?_, fun p member => ?_, fun t free => ?_,
    fun filled => absurd rfl filled, fun _ c member => ?_, fun t own => ?_, fun typed => ?_⟩
  · have line : Client.extendsText parents = " extends " ++ ", ".intercalate parents :=
      if_neg (mt List.isEmpty_iff.mp extended)
    rw [parts]
    change (" extends " ++ ", ".intercalate parents).toList <:+: _
    rw [← line]
    exact Text.infix_join (by simp)
  · obtain ⟨line, among, own⟩ := exists_of_forall₂ (forall₂_of_mapM_ok written) member
    rw [parts]
    exact ⟨line, own, (Text.infix_join among).trans (Text.infix_join (by simp))⟩
  · cases free
    rw [parts]
    exact @Text.infix_join (Client.additionalText (some t)) _ (by simp)
  · cases member
  · rcases own with own | own <;> cases own
  · rcases typed with typed | typed | typed <;> cases typed

/-- What an enumeration has stands in its declaration. -/
theorem writtenOut_enum {values : List Value}
    (declared : Client.declarationOf setting className
      (ModelBody.enum (constantsOf values)).payload = .ok text) :
    WrittenOut setting className (ModelBody.enum (constantsOf values)).payload text := by
  cases declared
  refine ⟨fun extended => absurd rfl extended, fun p member => ?_, fun t free => ?_,
    fun _ => ?_, fun spelled c member => ?_, fun t named => ?_, fun typed => ?_⟩
  · cases member
  · cases free
  · change _ <+: (Client.aliasText className
      (Client.constantList " | " Client.constantLiteral (constantsOf values)) ++ _).toList
    rw [constantList_constantsOf]
    change (Client.aliasText className _).toList <+: _
    rw [String.toList_append]
    exact List.prefix_append ..
  · rw [if_pos spelled]
    exact (infix_enumNamespace member).trans (Text.infix_append_self _ _)
  · rcases named with named | named <;> cases named
  · rcases typed with typed | typed | typed <;> cases typed

/-- The declaration of a name for a type is that type. -/
theorem writtenOut_type {body : ModelBody} {type : TypeExpr}
    (names : body = .array type ∨ body = .simple type ∨ body = .union type)
    (declared : Client.declarationOf setting className body.payload = .ok text) :
    WrittenOut setting className body.payload text := by
  have printed : text = "export type " ++ className ++ " = " ++ type.text ++ ";\n" := by
    rcases names with rfl | rfl | rfl <;> cases declared <;> rfl
  have own : ∀ t, body.payload.elementType = some t ∨ body.payload.aliasType = some t ↔
      t = type := by
    intro t
    rcases names with rfl | rfl | rfl <;> simp [ModelBody.payload, eq_comm]
  have bare : body.payload.parents = [] ∧ body.payload.properties = [] ∧
      body.payload.additionalType = none ∧ body.payload.constants = [] := by
    rcases names with rfl | rfl | rfl <;> exact ⟨rfl, rfl, rfl, rfl⟩
  obtain ⟨noParents, noProperties, noOthers, noConstants⟩ := bare
  refine ⟨fun extended => absurd noParents extended, fun p member => ?_, fun t free => ?_,
    fun filled => absurd noConstants filled, fun _ c member => ?_, fun t named => ?_,
    fun _ => ⟨type, (own type).mpr rfl, printed⟩⟩
  · rw [noProperties] at member
    cases member
  · rw [noOthers] at free
    cases free
  · rw [noConstants] at member
    cases member
  · rwa [(own t).mp named]

/-- What is read from a definition stands in the declaration. -/
theorem Becomes.writtenOut {path : String} {schema : Fields} {body : ModelBody}
    (becomes : Becomes path schema body)
    (declared : Client.declarationOf setting className body.payload = .ok text) :
    WrittenOut setting className body.payload text := by
  cases body with
  | object parents properties additional => exact writtenOut_object declared
  | enum constants =>
    obtain ⟨values, -, rfl⟩ := becomes.exists_constantsOf
    exact writtenOut_enum declared
  | array type => exact writtenOut_type (.inl rfl) declared
  | simple type => exact writtenOut_type (.inr (.inl rfl)) declared
  | union type => exact writtenOut_type (.inr (.inr rfl)) declared

end Declarations

variable {config : Config} {name : Scalar} {schema : Fields} {d : Descriptor}

/-- What is read from a definition is what one of the ways to read it fills in. -/
theorem becomes_of_descriptorOf (success : descriptorOf config name schema = .ok d) :
    ∃ path body, Becomes path schema body ∧ d.toPayload = body.payload := by
  unfold descriptorOf at success
  split at success
  · obtain ⟨payload, read, success⟩ := bind_eq_ok.mp success
    cases success
    exact ⟨_, payloadOf_eq_ok.mp read⟩
  · cases success

/-- The kind that a definition is read as is decided by its keywords. The record that it is read
into has a type, a list of constants, or members exactly as its kind asks for. All that it has is
printed, and nothing else, and the model made of it has all of it. -/
theorem shape_of_definition (success : descriptorOf config name schema = .ok d) :
    d.kind = kindOf schema ∧ d.Shaped ∧ d.model.payload = d.toPayload ∧
    ∀ setting text, Client.declarationOf setting d.className d.toPayload = .ok text →
      Payload.WrittenOut setting d.className d.toPayload text := by
  obtain ⟨path, body, becomes, filled⟩ := becomes_of_descriptorOf success
  have kept : d.model.payload = d.toPayload := by
    change d.toPayload.body.payload = d.toPayload
    rw [filled, ModelBody.body_payload]
  rw [filled] at kept ⊢
  exact ⟨becomes.kind_payload, becomes.shaped_payload, kept,
    fun _ _ declared => becomes.writtenOut declared⟩

/-- A species has a name by one of its branches, but lists its values. -/
def speciesSchema : Fields :=
  [(.text "allOf", .list [.object [(.text "properties", .object [(.text "name", .object [])])]]),
    (.text "enum", .list [.text "cat", .text "dog"])]

/-- A species is an enumeration without properties, and both of its values are printed. -/
theorem shape_of_definition_species : ∃ d,
    descriptorOf {} (.text "Species") speciesSchema = .ok d ∧ d.kind = .enum ∧
    d.kind = kindOf speciesSchema ∧ d.Shaped ∧ d.model.payload = d.toPayload ∧
    Payload.WrittenOut { enumModule := false } d.className d.toPayload
      "export type Species = 'cat' | 'dog';\n" := by
  obtain ⟨d, read, enumerates, declared⟩ :
      ∃ d, descriptorOf {} (.text "Species") speciesSchema = .ok d ∧ d.kind = .enum ∧
        Client.declarationOf { enumModule := false } d.className d.toPayload =
          .ok "export type Species = 'cat' | 'dog';\n" :=
    ⟨_, by cbv, by cbv, by rfl⟩
  obtain ⟨kind, shaped, kept, written⟩ := shape_of_definition read
  exact ⟨d, read, enumerates, kind, shaped, kept, written _ _ declared⟩

end Model

end ClientGen
