import Mathlib
import ClientGen.Model.Link
import ClientGen.Proofs.BuiltOperations
import ClientGen.Proofs.PrintedTypes
import ClientGen.Proofs.ServiceTable

/-!
# The kind of a structured result

An operation with one success returns the type of its schema. If the schema is an array, a tuple of
bounded length or an inline object, the text of the type shows that, and the result is read as
JSON, unless the single name behind the type is that of an enumeration or of a name for a
primitive type: then the result takes the kind of that model.
-/
namespace ClientGen

/-- The schema describes an array, a tuple of bounded length or an inline object. -/
inductive Schema.Structured : Schema → Prop
  | array {o : Origin} {items : Schema} : Structured (.array o items)
  | tuple {o : Origin} {items : List Schema} {minItems maxItems : Value}
      {additional : Option Schema} (bounded : maxItems.isSet = true) :
      Structured (.tuple o items minItems maxItems additional)
  | record {o : Origin} {members : List (Member × Schema)} {required : List Value}
      {additional : Option Schema} : Structured (.record o members required additional)

def ResultKind.IsJson (kind : ResultKind) : Prop :=
  (kind = .object ∨ kind = .primitiveArray ∨ kind = .unknown) ∧ kind.responseType = "json"

/-- A model that lends its kind to the types whose single name it is: an enumeration, or a name for
a type that is known by its text. -/
def Model.LendsKind (m : Model) : Prop :=
  m.kind = .enum ∨ ∃ t, m.aliasType? = some t ∧ ResultKind.ofText? t.text ≠ none

namespace ResultKind

/-- The texts that give a kind. -/
theorem ofText?_eq_none_iff {text : String} : ofText? text = none ↔
    ∀ word ∈ ["null", "void", "string", "number", "boolean", "Blob"], text ≠ word := by
  constructor
  · rintro unknown word member rfl
    have known : ∀ word ∈ ["null", "void", "string", "number", "boolean", "Blob"],
        ofText? word ≠ none := by decide
    exact known text member unknown
  · intro differs
    unfold ofText?
    simp only [differs "null" (by simp), differs "void" (by simp), differs "string" (by simp),
      differs "number" (by simp), differs "boolean" (by simp), differs "Blob" (by simp), or_self,
      if_false]

theorem ofText?_eq_none {text : String} (other : ∀ word ∈ ["null", "void", "string", "number",
    "boolean", "Blob"], text.toList.head? ≠ word.toList.head?) : ofText? text = none :=
  ofText?_eq_none_iff.mpr fun word member same =>
    other word member (congrArg (fun s => s.toList.head?) same)

/-- No type that is known by its text is read as JSON. -/
theorem not_isJson_of_ofText? {text : String} {kind : ResultKind}
    (known : ofText? text = some kind) : ¬kind.IsJson := by
  unfold ofText? at known
  repeat' split at known
  all_goals cases known
  all_goals simp [IsJson]

theorem classify_none {t : TypeExpr} (unknown : ofText? t.text = none) :
    IsJson ((ofText? (actualType none t).text).getD (ofModel none t)) := by
  have text : actualType none t = t := rfl
  rw [text, unknown, Option.getD_none, ofModel]
  cases showsArray t
  · exact ⟨by simp, rfl⟩
  · exact ⟨by simp, rfl⟩

/-- A model behind a type that is not known by its text lends its kind, or the type is read as
JSON. -/
theorem classify_some {m : Model} {t : TypeExpr} (unknown : ofText? t.text = none) :
    IsJson ((ofText? (actualType (some m) t).text).getD (ofModel (some m) t)) ↔
      ¬m.LendsKind := by
  obtain ⟨name, className, stem, description, body⟩ := m
  cases body with
  | object parents properties additional =>
    simp [actualType, Model.aliasType?, unknown, ofModel, Model.kind, Model.LendsKind, IsJson,
      responseType]
  | enum constants =>
    simp [actualType, Model.aliasType?, unknown, ofModel, Model.kind, Model.LendsKind, IsJson]
  | array element =>
    simp [actualType, Model.aliasType?, unknown, ofModel, Model.kind, Model.LendsKind, IsJson,
      responseType]
  | simple type =>
    cases known : ofText? type.text with
    | none =>
      simp [actualType, Model.aliasType?, known, ofModel, Model.kind, Model.LendsKind, IsJson,
        responseType]
    | some kind =>
      have plain := not_isJson_of_ofText? known
      simp [actualType, Model.aliasType?, known, plain, Model.kind, Model.LendsKind]
  | union type =>
    cases known : ofText? type.text with
    | none =>
      simp [actualType, Model.aliasType?, known, ofModel, Model.kind, Model.LendsKind, IsJson,
        responseType]
    | some kind =>
      have plain := not_isJson_of_ofText? known
      simp [actualType, Model.aliasType?, known, plain, Model.kind, Model.LendsKind]

/-- A type that is not known by its text is read as JSON, unless a model lends it its kind. -/
theorem classify_isJson_iff {models : Table Model} {t : TypeExpr}
    (unknown : ofText? t.text = none) :
    (classify models t).IsJson ↔
      ∀ m, models.get? (Naming.key t.bareName) = some m → ¬m.LendsKind := by
  unfold classify
  cases models.get? (Naming.key t.bareName) with
  | none =>
    have json := classify_none unknown
    simpa using json
  | some m => simpa using classify_some unknown

end ResultKind

namespace Schema

/-- The text of a tuple starts with a bracket, or it is empty. -/
theorem head?_tupleTexts {types : List TypeExpr} {least most : Int} :
    (" | ".intercalate (tupleTexts types least most)).toList.head? ∈
      [none, some 'A', some '[', some '\x7b'] := by
  have tuples : ∀ text ∈ tupleTexts types least most, ∃ rest, text.toList = '[' :: rest := by
    intro text member
    obtain ⟨i, -, rfl⟩ := List.mem_map.mp (TypeExpr.mem_distinct.mp member)
    rw [tupleText, String.toList_append, String.toList_append]
    exact ⟨_, rfl⟩
  rw [String.toList_intercalate]
  cases texts : tupleTexts types least most with
  | nil => simp [List.intercalate]
  | cons first others =>
    obtain ⟨rest, starts⟩ := tuples first (by simp [texts])
    cases others with
    | nil => simp [List.intercalate, starts]
    | cons second others => simp [List.intercalate, starts]

/-- The text of an array, a tuple or an inline object starts with its bracket. -/
theorem Structured.ofText?_type {s : Schema} (structured : s.Structured) {t : TypeExpr}
    (typed : s.type = .ok t) : ResultKind.ofText? t.text = none := by
  have bracket {text : String}
      (starts : text.toList.head? ∈ [none, some 'A', some '[', some '\x7b']) :
      ResultKind.ofText? text = none := by
    apply ResultKind.ofText?_eq_none
    intro word member same
    rw [same] at starts
    simp only [List.mem_cons, List.not_mem_nil, or_false] at member
    rcases member with rfl | rfl | rfl | rfl | rfl | rfl <;> simp at starts
  have built := hasType_of_type typed
  cases structured with
  | array =>
    cases built with
    | array =>
      apply bracket
      simp [TypeExpr.arrayOf, TypeExpr.compound]
  | tuple given =>
    cases built with
    | unbounded missing =>
      rw [missing] at given
      cases given
    | bounded =>
      apply bracket
      exact head?_tupleTexts
  | record =>
    cases built with
    | record =>
      apply bracket
      simp [recordText, TypeExpr.compound]

end Schema

namespace Responses

def Succeeds (document : Value) (code : Scalar) (raw : Value) : Prop :=
  ∃ fields : Fields, Reference.follow document raw = .ok (.object fields) ∧
    fields.get "schema" ≠ .null ∧ isSuccess code.display = .ok true

/-- Among the responses the one under `code` is the only success, and its schema is `schema`. -/
def OnlySuccess (document : Value) (responses : Fields) (code : Scalar) (schema : Value) : Prop :=
  ∃ (before after : Fields) (raw : Value) (fields : Fields),
    responses = before ++ (code, raw) :: after ∧
    Reference.follow document raw = .ok (.object fields) ∧ fields.get "schema" = schema ∧
    schema ≠ .null ∧ isSuccess code.display = .ok true ∧
    ∀ other ∈ before ++ after, ¬Succeeds document other.1 other.2

variable {document : Value} {r next : Responses} {code : Scalar} {raw : Value}

theorem resultTypes_add_of_not (other : ¬Succeeds document code raw)
    (success : r.add document code raw = .ok next) : next.resultTypes = r.resultTypes := by
  unfold add at success
  obtain ⟨followed, found, success⟩ := bind_eq_ok.mp success
  split at success
  · rename_i fields
    split at success
    · cases success
      rfl
    · rename_i carries
      unfold addContent at success
      obtain ⟨type, -, success⟩ := bind_eq_ok.mp success
      obtain ⟨means, read, success⟩ := bind_eq_ok.mp success
      cases means with
      | true => exact absurd ⟨fields, found, carries, read⟩ other
      | false =>
        cases success
        rfl
  · cases success
    rfl

theorem resultTypes_add {fields : Fields}
    (found : Reference.follow document raw = .ok (.object fields))
    (carries : fields.get "schema" ≠ .null) (means : isSuccess code.display = .ok true)
    (success : r.add document code raw = .ok next) :
    ∃ t, typeAt ("#/responses/" ++ code.display ++ "/schema") (fields.get "schema") = .ok t ∧
      next.resultTypes = r.resultTypes ++ [t] := by
  unfold add at success
  obtain ⟨_, same, success⟩ := bind_eq_ok.mp success
  rw [found] at same
  cases same
  dsimp only at success
  rw [if_neg carries] at success
  unfold addContent at success
  obtain ⟨t, typed, success⟩ := bind_eq_ok.mp success
  obtain ⟨_, same, success⟩ := bind_eq_ok.mp success
  rw [means] at same
  cases same
  cases success
  exact ⟨t, typed, rfl⟩

/-- The code and the schema of a response that carries content and means success. -/
def success? (document : Value) (entry : Scalar × Value) : Option (String × Value) :=
  match Reference.follow document entry.2, isSuccess entry.1.display with
  | .ok (.object fields), .ok true =>
    if Fields.get fields "schema" = .null then none
    else some (entry.1.display, Fields.get fields "schema")
  | _, _ => none

/-- The codes and the schemas of the responses that carry content and mean success. -/
def successes (document : Value) (responses : Fields) : List (String × Value) :=
  responses.filterMap (success? document)

theorem success?_eq_some {e : String × Value} :
    success? document (code, raw) = some e ↔
      ∃ fields : Fields, Reference.follow document raw = .ok (.object fields) ∧
        fields.get "schema" ≠ .null ∧ isSuccess code.display = .ok true ∧
        e = (code.display, fields.get "schema") := by
  unfold success?
  constructor
  · intro found
    split at found
    · rename_i fields followed means
      rw [Option.ite_none_left_eq_some, Option.some.injEq] at found
      obtain ⟨carries, rfl⟩ := found
      exact ⟨fields, followed, carries, means, rfl⟩
    · cases found
  · rintro ⟨fields, followed, carries, means, rfl⟩
    dsimp only
    rw [followed, means]
    exact if_neg carries

theorem success?_eq_none : success? document (code, raw) = none ↔ ¬Succeeds document code raw := by
  rw [Option.eq_none_iff_forall_ne_some]
  constructor
  · rintro none ⟨fields, followed, carries, means⟩
    exact none _ (success?_eq_some.mpr ⟨fields, followed, carries, means, rfl⟩)
  · intro other e found
    obtain ⟨fields, followed, carries, means, rfl⟩ := success?_eq_some.mp found
    exact other ⟨fields, followed, carries, means⟩

/-- The types of the result are those of the schemas of the successes, in order. -/
theorem resultTypes_addAll {responses : Fields}
    (success : r.addAll document responses = .ok next) :
    ∃ types, next.resultTypes = r.resultTypes ++ types ∧
      List.Forall₂ (fun e t => typeAt ("#/responses/" ++ e.1 ++ "/schema") e.2 = .ok t)
        (successes document responses) types := by
  induction responses generalizing r with
  | nil =>
    cases success
    exact ⟨[], (List.append_nil _).symm, .nil⟩
  | cons entry rest ih =>
    obtain ⟨code, raw⟩ := entry
    rw [addAll] at success
    obtain ⟨middle, first, success⟩ := bind_eq_ok.mp success
    obtain ⟨types, later, typed⟩ := ih success
    unfold successes
    cases found : success? document (code, raw) with
    | none =>
      rw [resultTypes_add_of_not (success?_eq_none.mp found) first] at later
      rw [List.filterMap_cons_none found]
      exact ⟨types, later, typed⟩
    | some e =>
      obtain ⟨fields, followed, carries, means, rfl⟩ := success?_eq_some.mp found
      obtain ⟨t, own, added⟩ := resultTypes_add followed carries means first
      rw [added, List.append_assoc] at later
      rw [List.filterMap_cons_some found]
      exact ⟨t :: types, later, .cons own typed⟩

theorem successes_of_onlySuccess {responses : Fields} {schema : Value}
    (only : OnlySuccess document responses code schema) :
    successes document responses = [(code.display, schema)] := by
  obtain ⟨before, after, raw, fields, rfl, followed, rfl, carries, means, others⟩ := only
  have here : success? document (code, raw) = some (code.display, fields.get "schema") :=
    success?_eq_some.mpr ⟨fields, followed, carries, means, rfl⟩
  have nothing (entries : Fields) (among : ∀ e ∈ entries, e ∈ before ++ after) :
      entries.filterMap (success? document) = [] :=
    List.filterMap_eq_nil_iff.mpr fun e member => success?_eq_none.mpr (others e (among e member))
  rw [successes, List.filterMap_append, nothing before fun e => List.mem_append_left _,
    List.nil_append, List.filterMap_cons_some here, nothing after fun e => List.mem_append_right _]

/-- The result is the type of the only success. -/
theorem resultType_of_onlySuccess {responses : Fields} {schema : Value}
    (only : OnlySuccess document responses code schema)
    (success : ({} : Responses).addAll document responses = .ok next) :
    ∃ t, typeAt ("#/responses/" ++ code.display ++ "/schema") schema = .ok t ∧
      next.resultType = t := by
  obtain ⟨types, collected, typed⟩ := resultTypes_addAll success
  rw [successes_of_onlySuccess only] at typed
  obtain ⟨t, _, own, nothing, rfl⟩ := List.forall₂_cons_left_iff.mp typed
  cases nothing
  exact ⟨t, own, by rw [resultType, collected]; rfl⟩

end Responses

/-- The kind of the result of an operation is that of the type of its responses. -/
theorem Operation.resultKind_build {config : Config} {models : Table Model} {document : Value}
    {serviceClass id : String} {place : Operation.Place} {definition : Fields} {o : Operation}
    (success : Operation.build config models document serviceClass place definition id = .ok o) :
    ∃ (fields : Fields) (responses : Responses),
      (definition.get "responses").orElse (.object []) = .object fields ∧
      ({} : Responses).addAll document fields = .ok responses ∧
      o.resultKind = .classify models responses.resultType := by
  obtain ⟨_, _, _, fields, responses, parts⟩ := Operation.build_ok success
  exact ⟨fields, responses, parts.listed, parts.collects,
    by rw [parts.resultKind, parts.resultType]⟩

/-- An operation of a document whose only success is an array, a bounded tuple or an inline object
returns JSON exactly if no model lends its kind to the single name behind the type. -/
theorem structured_result_isJson_iff {config : Config} {models : Table Model} {document : Value}
    {services : Table Service}
    (success : (Services.ofDocument config models document).outcome = .ok services) {s : Service}
    (member : s ∈ services.values) {o : Operation} (running : o ∈ s.operations) :
    ∃ fields paths definition : Fields, document = .object fields ∧
      (fields.get "paths").orElse (.object []) = .object paths ∧
      Services.BuiltFrom config models document paths definition o ∧
      ∀ (responses : Fields) (code : Scalar) (schema : Value) (parsed : Schema),
        (definition.get "responses").orElse (.object []) = .object responses →
        Responses.OnlySuccess document responses code schema →
        Schema.parse ("#/responses/" ++ code.display ++ "/schema") schema = .ok parsed →
        parsed.Structured →
        ∃ t, parsed.type = .ok t ∧
          (o.resultKind.IsJson ↔
            ∀ m, models.get? (Naming.key t.bareName) = some m → ¬m.LendsKind) := by
  obtain ⟨fields, paths, _, _, rfl, given, -, -, -⟩ := Services.ofDocument_eq_ok.mp success
  obtain ⟨definition, built⟩ := Services.builtFrom_of_ofDocument success given member running
  refine ⟨fields, paths, definition, rfl, given, built, ?_⟩
  intro responses code schema parsed listed only read structured
  obtain ⟨_, _, _, _, _, -, -, -, own⟩ := built
  obtain ⟨_, results, sameList, added, kind⟩ := Operation.resultKind_build own
  rw [listed] at sameList
  cases sameList
  obtain ⟨t, typed, result⟩ := Responses.resultType_of_onlySuccess only added
  obtain ⟨_, sameSchema, typed⟩ := bind_eq_ok.mp typed
  rw [read] at sameSchema
  cases sameSchema
  refine ⟨t, typed, ?_⟩
  rw [kind, result]
  exact ResultKind.classify_isJson_iff (structured.ofText?_type typed)

/-- Definitions of the names of colors, which are constants. -/
def colorDefinitions : Fields :=
  [(.text "Color", .object [
    (.text "allOf", .list [.object [(.text "type", .text "string")]]),
    (.text "enum", .list [.text "red", .text "blue"])])]

def colorsSchema : Value :=
  .object [(.text "type", .text "array"),
    (.text "items", .object [(.text "$ref", .text (Model.definitionPath "Color"))])]

def colorsOperation : Fields :=
  [(.text "operationId", .text "colors"),
    (.text "responses", .object [(.text "200", .object [(.text "schema", colorsSchema)])])]

def colorPaths : Fields :=
  [(.text "/colors", .object [(.text "get", .object colorsOperation)])]

def colorDocument : Value :=
  .object [(.text "definitions", .object colorDefinitions), (.text "paths", .object colorPaths)]

theorem colors_built : ∃ models services s o,
    (Models.ofDefinitions {} (.object colorDefinitions)).outcome = .ok models ∧
    (Services.ofDocument {} models colorDocument).outcome = .ok services ∧
    s ∈ services.values ∧ o ∈ s.operations ∧ o.resultKind = .enum := by
  obtain ⟨models, services, modelsBuilt, servicesBuilt, kinds⟩ : ∃ models services,
      (Models.ofDefinitions {} (.object colorDefinitions)).outcome = .ok models ∧
      (Services.ofDocument {} models colorDocument).outcome = .ok services ∧
      services.values.map (fun s => s.operations.map Operation.resultKind) = [[.enum]] := by
    exact ⟨_, _, by cbv, by cbv, by cbv⟩
  obtain ⟨s, one, ofService⟩ := List.map_eq_singleton_iff.mp kinds
  obtain ⟨o, alone, kind⟩ := List.map_eq_singleton_iff.mp ofService
  exact ⟨models, services, s, o, modelsBuilt, servicesBuilt, by simp [one], by simp [alone], kind⟩

theorem colors_onlySuccess :
    Responses.OnlySuccess colorDocument [(.text "200", .object [(.text "schema", colorsSchema)])]
      (.text "200") colorsSchema := by
  refine ⟨[], [], .object [(.text "schema", colorsSchema)], _, rfl, by cbv, rfl, ?_, by cbv, ?_⟩
  · intro missing
    cases missing
  · simp

/-- The result of the operation on colors depends on the model of colors alone. -/
theorem colors_isJson_iff : ∃ models services s o,
    (Services.ofDocument {} models colorDocument).outcome = .ok services ∧
    s ∈ services.values ∧ o ∈ s.operations ∧
    ∃ fields paths definition : Fields, colorDocument = .object fields ∧
      (fields.get "paths").orElse (.object []) = .object paths ∧
      Services.BuiltFrom {} models colorDocument paths definition o ∧
      ∀ (responses : Fields) (code : Scalar) (schema : Value) (parsed : Schema),
        (definition.get "responses").orElse (.object []) = .object responses →
        Responses.OnlySuccess colorDocument responses code schema →
        Schema.parse ("#/responses/" ++ code.display ++ "/schema") schema = .ok parsed →
        parsed.Structured →
        ∃ t, parsed.type = .ok t ∧
          (o.resultKind.IsJson ↔
            ∀ m, models.get? (Naming.key t.bareName) = some m → ¬m.LendsKind) := by
  obtain ⟨models, services, s, o, -, built, member, running, -⟩ := colors_built
  exact ⟨models, services, s, o, built, member, running,
    structured_result_isJson_iff built member running⟩

/-- A list of colors is the only success of an operation, and it is read as the text of one. -/
theorem colors_read_as_text : ∃ models services s o parsed,
    (Models.ofDefinitions {} (.object colorDefinitions)).outcome = .ok models ∧
    (Services.ofDocument {} models colorDocument).outcome = .ok services ∧
    s ∈ services.values ∧ o ∈ s.operations ∧
    Services.BuiltFrom {} models colorDocument colorPaths colorsOperation o ∧
    Responses.OnlySuccess colorDocument [(.text "200", .object [(.text "schema", colorsSchema)])]
      (.text "200") colorsSchema ∧
    Schema.parse "#/responses/200/schema" colorsSchema = .ok parsed ∧ parsed.Structured ∧
    o.resultKind = .enum ∧ o.resultKind.responseType = "text" := by
  obtain ⟨models, services, s, o, modelsBuilt, servicesBuilt, member, running, kind⟩ := colors_built
  obtain ⟨definition, url, method, item, serviceClass, id, inPaths, inItem, isMethod, own⟩ :=
    Services.builtFrom_of_ofDocument servicesBuilt rfl member running
  have onePath := List.mem_singleton.mp inPaths
  cases onePath
  have oneOperation := List.mem_singleton.mp inItem
  cases oneOperation
  obtain ⟨origin, items, read⟩ : ∃ origin items,
      Schema.parse "#/responses/200/schema" colorsSchema = .ok (.array origin items) :=
    ⟨_, _, by cbv⟩
  exact ⟨models, services, s, o, _, modelsBuilt, servicesBuilt, member, running,
    ⟨_, _, _, _, _, inPaths, inItem, isMethod, own⟩, colors_onlySuccess, read, .array, kind,
    by rw [kind]; rfl⟩

end ClientGen
