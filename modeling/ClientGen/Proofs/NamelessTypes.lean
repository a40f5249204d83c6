import ClientGen.Proofs.AliasKinds

/-!
# Types without a single name

A compound of no constituents or of several has no single name behind it, and the word object stands
in for one. When a result is classified that word is looked up like any other name, so a definition
that is called like it can lend its kind to all such types. `Models.classify_nameless_iff` says for
which definitions it does not: then every such type has the kind that it has without any model.
-/
namespace ClientGen

namespace TypeExpr

/-- A compound of no constituents, or of several. -/
def Nameless (t : TypeExpr) : Prop :=
  ∃ names, t.constituents = some names ∧ names.length ≠ 1

/-- The word that stands in for the name of a type without one. -/
theorem Nameless.bareName_eq {t : TypeExpr} (nameless : t.Nameless) : t.bareName = "object" := by
  obtain ⟨names, compound, several⟩ := nameless
  unfold bareName nameBy
  rw [compound]
  match names with
  | [] => rfl
  | [name] => exact absurd rfl several
  | first :: second :: rest => rfl

end TypeExpr

/-- A model with this body leaves the kind of a type that it is looked up for as it is without any
model: the type is known by its text, or there is no array to be seen and the model gives no kind.
-/
def ModelBody.LeavesKind (t : TypeExpr) : ModelBody → Prop
  | .object _ _ _ | .enum _ => ResultKind.ofText? t.text ≠ none
  | .array _ => ResultKind.ofText? t.text = none → ResultKind.showsArray t = false
  | .simple u | .union u =>
    ResultKind.ofText? u.text = ResultKind.ofText? t.text ∧
      (ResultKind.ofText? t.text = none → ResultKind.showsArray t = false)

@[simp] theorem ModelBody.leavesKind_withParents {t : TypeExpr} {parents : List String}
    {body : ModelBody} : (body.withParents parents).LeavesKind t ↔ body.LeavesKind t := by
  cases body <;> rfl

namespace ResultKind

/-- The kind of a type without any model. -/
theorem classify_empty (t : TypeExpr) :
    classify .empty t = (ofText? t.text).getD (ofModel none t) :=
  classify_of_no_alias rfl

/-- The kind of the text of an alias is the kind of a type without any model if both texts give the
same kind, and an unknown one shows no array. -/
theorem getD_ofText?_eq_classify_empty_iff {text : String} {t : TypeExpr} :
    (ofText? text).getD .unknown = classify .empty t ↔
      ofText? text = ofText? t.text ∧ (ofText? t.text = none → showsArray t = false) := by
  rw [classify_empty]
  cases known : ofText? t.text with
  | none =>
    cases found : ofText? text with
    | none => simp [ofModel]
    | some kind =>
      have differs : kind ≠ ofModel none t := by
        rintro rfl
        exact ofText?_ne_ofModel text none t found
      simpa using differs
  | some kind =>
    have sure : kind ≠ .unknown := by
      rintro rfl
      exact ofText?_ne_unknown t.text known
    cases ofText? text with
    | none => simpa using sure.symm
    | some found => simp

/-- A type has the kind that it has without any model if the model behind it leaves it. -/
theorem classify_eq_classify_empty_iff {models : Table Model} {t : TypeExpr} {m : Model}
    (behind : models.get? (Naming.key t.bareName) = some m) :
    classify models t = classify .empty t ↔ m.body.LeavesKind t := by
  unfold ModelBody.LeavesKind
  cases body : m.body with
  | simple u | union u =>
    rw [classify_of_alias behind (by rw [Model.aliasType?, body]),
      getD_ofText?_eq_classify_empty_iff]
  | object parents properties additional | enum constants | array element =>
    have noAlias : m.aliasType? = none := by rw [Model.aliasType?, body]
    rw [classify_of_no_alias (by rw [behind, Option.bind_some, noAlias]), behind, classify_empty,
      getD_ofText?_eq_iff]
    cases shown : showsArray t <;> simp [ofModel, Model.kind, body, shown]

end ResultKind

namespace Models

variable {config : Config} {definitions : Fields} {models : Table Model}

/-- Without a definition behind a key there is no model under it. -/
theorem get?_of_definitionOf_eq_none
    (success : (ofDefinitions config (.object definitions)).outcome = .ok models) {key : String}
    (missing : definitionOf key definitions = none) : models.get? key = none := by
  rw [Option.eq_none_iff_forall_ne_some]
  intro m present
  obtain ⟨name, schema, _, _, behind, -⟩ := readFrom_ofDefinitions success present
  rw [missing] at behind
  cases behind

/-- The model under a key is read from the definition behind it. -/
theorem exists_of_definitionOf
    (success : (ofDefinitions config (.object definitions)).outcome = .ok models)
    {key name : String}
    {schema : Fields} (behind : definitionOf key definitions = some (name, schema)) :
    ∃ m body parents, models.get? key = some m ∧
      Model.bodyOf (Model.definitionPath name) schema = .ok body ∧
      m.body = body.withParents parents := by
  obtain ⟨member, rfl⟩ := definitionOf_mem behind
  obtain ⟨m, present⟩ := exists_get?_ofDefinitions success member
  obtain ⟨_, _, body, parents, same, -, -, read, written, -⟩ :=
    readFrom_ofDefinitions success present
  rw [behind] at same
  cases same
  exact ⟨m, body, parents, present, read, written⟩

/-- A type without a single name has the kind that it has without any model, exactly if the last
definition that is called object, in whatever spelling, leaves that kind to it. -/
theorem classify_nameless_iff
    (success : (ofDefinitions config (.object definitions)).outcome = .ok models) {t : TypeExpr}
    (nameless : t.Nameless) :
    ResultKind.classify models t = ResultKind.classify .empty t ↔
      ∀ name schema body, definitionOf "object" definitions = some (name, schema) →
        Model.bodyOf (Model.definitionPath name) schema = .ok body → body.LeavesKind t := by
  have looked : Naming.key t.bareName = "object" := by
    rw [nameless.bareName_eq]
    cbv
  cases behind : definitionOf "object" definitions with
  | none =>
    have missing := get?_of_definitionOf_eq_none success behind
    have noAlias : (models.get? (Naming.key t.bareName)).bind Model.aliasType? = none := by
      rw [looked, missing, Option.bind_none]
    rw [ResultKind.classify_of_no_alias noAlias, looked, missing, ResultKind.classify_empty]
    simp
  | some definition =>
    obtain ⟨name, schema⟩ := definition
    obtain ⟨m, body, parents, present, read, written⟩ := exists_of_definitionOf success behind
    rw [ResultKind.classify_eq_classify_empty_iff (looked.symm ▸ present), written,
      ModelBody.leavesKind_withParents]
    constructor
    · rintro leaves _ _ other same again
      cases same
      rw [read] at again
      cases again
      exact leaves
    · intro each
      exact each name schema body rfl read

def catOrDog : TypeExpr := .union [.scalar "Cat", .scalar "Dog"]

theorem nameless_catOrDog : catOrDog.Nameless := ⟨["Cat", "Dog"], by decide, by decide⟩

def objectDefinition (type : String) : Fields :=
  [(.text "Object", .object [(.text "type", .text type)])]

/-- A name for lists that is called object leaves a union its kind. -/
theorem classify_nameless_list : ∃ models,
    (ofDefinitions {} (.object (objectDefinition "array"))).outcome = .ok models ∧
    (∃ m, models.get? "object" = some m ∧ m.kind = .array) ∧ catOrDog.Nameless ∧
    ResultKind.classify models catOrDog = ResultKind.classify .empty catOrDog := by
  obtain ⟨models, built, m, present, isArray⟩ : ∃ models,
      (ofDefinitions {} (.object (objectDefinition "array"))).outcome = .ok models ∧
      ∃ m, models.get? "object" = some m ∧ m.kind = .array :=
    ⟨_, by cbv, _, by cbv, by cbv⟩
  refine ⟨models, built, ⟨m, present, isArray⟩, nameless_catOrDog, ?_⟩
  refine (classify_nameless_iff built nameless_catOrDog).mpr ?_
  intro name schema body behind read
  cases List.mem_singleton.mp (definitionOf_mem behind).1
  obtain ⟨element, list⟩ : ∃ element,
      Model.bodyOf (Model.definitionPath "Object") [(.text "type", .text "array")] =
        .ok (.array element) :=
    ⟨_, by cbv⟩
  rw [list] at read
  cases read
  intro _
  decide

/-- A name for text that is called object has a union read as text. -/
theorem catOrDog_read_as_text : ∃ models,
    (ofDefinitions {} (.object (objectDefinition "string"))).outcome = .ok models ∧
    catOrDog.Nameless ∧ ResultKind.classify models catOrDog = .string ∧
    ResultKind.classify .empty catOrDog = .unknown := by
  obtain ⟨models, built, m, present, names⟩ : ∃ models,
      (ofDefinitions {} (.object (objectDefinition "string"))).outcome = .ok models ∧
      ∃ m, models.get? "object" = some m ∧ m.aliasType? = some (.scalar "string") :=
    ⟨_, by cbv, _, by cbv, by cbv⟩
  have looked : Naming.key catOrDog.bareName = "object" := by cbv
  refine ⟨models, built, nameless_catOrDog, ?_, ?_⟩
  · rw [ResultKind.classify_of_alias (looked.symm ▸ present) names]
    rfl
  · rw [ResultKind.classify_empty]
    decide

end Models

end ClientGen
