import ClientGen.Proofs.ClosedModels
import ClientGen.Proofs.ResultKinds

/-!
# The kind of an alias

A model that is a name for another type is looked through once when a result is classified: only the
text of the alias type decides then (`classify_of_alias`), and the model behind that type is not
asked. So an alias has the kind of its alias type exactly if that model adds nothing to the text
(`ResultKind.DecidedByText`). No alias gets the kind of an enumeration or of an interface.
-/
namespace ClientGen

/-- The models that name a type are those of the kinds simple and union. -/
theorem Model.kind_eq_simple_or_union {m : Model} :
    m.kind = .simple ∨ m.kind = .union ↔ ∃ t, m.aliasType? = some t := by
  obtain ⟨name, className, stem, description, body⟩ := m
  cases body <;> simp [Model.kind, Model.aliasType?]

namespace ResultKind

/-- The kinds that a text gives. -/
theorem ofText?_eq_some {text : String} {kind : ResultKind} (known : ofText? text = some kind) :
    kind ∈ [ResultKind.void, .string, .number, .boolean, .file] := by
  unfold ofText? at known
  repeat' split at known
  all_goals cases known
  all_goals decide

/-- The kinds that a model, or the lack of one, gives. -/
theorem ofModel_mem (model : Option Model) (t : TypeExpr) :
    ofModel model t ∈ [ResultKind.enum, .object, .unknown, .primitiveArray] := by
  unfold ofModel
  repeat' split
  all_goals decide

/-- No kind is given by a text as well as by a model. -/
theorem ofText?_ne_ofModel (text : String) (model : Option Model) (t : TypeExpr) :
    ofText? text ≠ some (ofModel model t) := by
  intro known
  have byText := ofText?_eq_some known
  have byModel := ofModel_mem model t
  revert byText byModel
  cases ofModel model t <;> decide

theorem ofText?_ne_unknown (text : String) : ofText? text ≠ some .unknown := by
  intro known
  have byText := ofText?_eq_some known
  revert byText
  decide

/-- Two texts give the same kind, unknown ones included, if they are known in the same way. -/
theorem getD_ofText?_inj {text other : String} :
    (ofText? text).getD .unknown = (ofText? other).getD .unknown ↔
      ofText? text = ofText? other := by
  have first := ofText?_ne_unknown text
  have second := ofText?_ne_unknown other
  cases read : ofText? text with
  | none =>
    cases readOther : ofText? other with
    | none => simp
    | some kind =>
      rw [readOther] at second
      have differs : ResultKind.unknown ≠ kind := fun same => second (same ▸ rfl)
      simpa using differs
  | some kind =>
    cases readOther : ofText? other with
    | none =>
      rw [read] at first
      have differs : kind ≠ ResultKind.unknown := fun same => first (same ▸ rfl)
      simpa using differs
    | some otherKind => simp

section Classify

variable {models : Table Model} {t : TypeExpr}

/-- With an alias behind a type, the text of the alias type gives the kind. -/
theorem classify_of_alias {m : Model} {u : TypeExpr}
    (behind : models.get? (Naming.key t.bareName) = some m) (names : m.aliasType? = some u) :
    classify models t = (ofText? u.text).getD .unknown := by
  have actual : actualType (some m) t = u := by
    rw [actualType, Option.bind_some, names, Option.getD_some]
  have noKind : ofModel (some m) t = .unknown := by
    rcases Model.kind_eq_simple_or_union.mpr ⟨u, names⟩ with simple | union
    · simp only [ofModel, simple]
    · simp only [ofModel, union]
  unfold classify
  dsimp only
  rw [behind, actual, noKind]

/-- Without an alias behind a type, its own text gives the kind, or else the model behind it. -/
theorem classify_of_no_alias
    (noAlias : (models.get? (Naming.key t.bareName)).bind Model.aliasType? = none) :
    classify models t =
      (ofText? t.text).getD (ofModel (models.get? (Naming.key t.bareName)) t) := by
  unfold classify actualType
  dsimp only
  rw [noAlias, Option.getD_none]

/-- The text of the type alone decides its kind: an alias behind the type is one of a type with a
text of the same kind, and no other model behind it gives a kind to a type that is not known by its
text. -/
def DecidedByText (models : Table Model) (t : TypeExpr) : Prop :=
  match models.get? (Naming.key t.bareName) with
  | none => ofText? t.text = none → showsArray t = false
  | some m =>
    match m.body with
    | .simple u | .union u => ofText? u.text = ofText? t.text
    | .object _ _ _ | .enum _ => ofText? t.text ≠ none
    | .array _ => True

/-- It matters which kind an unknown text is given only if the text is unknown. -/
theorem getD_ofText?_eq_iff {text : String} {a b : ResultKind} :
    (ofText? text).getD a = (ofText? text).getD b ↔ (ofText? text = none → a = b) := by
  cases ofText? text with
  | none => simp
  | some kind => simp

theorem classify_eq_ofText?_iff :
    (ofText? t.text).getD .unknown = classify models t ↔ DecidedByText models t := by
  unfold DecidedByText
  cases behind : models.get? (Naming.key t.bareName) with
  | none =>
    rw [classify_of_no_alias (by rw [behind, Option.bind_none]), behind, getD_ofText?_eq_iff]
    simp [ofModel]
  | some m =>
    dsimp only
    cases body : m.body with
    | simple u | union u =>
      rw [classify_of_alias behind (by rw [Model.aliasType?, body]), getD_ofText?_inj, eq_comm]
    | object parents properties additional | enum constants | array element =>
      have noAlias : m.aliasType? = none := by rw [Model.aliasType?, body]
      rw [classify_of_no_alias (by rw [behind, Option.bind_some, noAlias]), behind,
        getD_ofText?_eq_iff]
      simp [ofModel, Model.kind, body]

end Classify

end ResultKind

namespace Models

/-- A model of the table of a document is behind the type that is called like it. -/
theorem get?_bareName {config : Config} {definitions : Value} {models : Table Model}
    (success : (ofDefinitions config definitions).outcome = .ok models) {m : Model}
    (member : m ∈ models.values) :
    models.get? (Naming.key (TypeExpr.scalar m.className).bareName) = some m := by
  obtain ⟨key, present⟩ := Table.mem_values.mp member
  obtain ⟨fields, -, -, rfl, -⟩ := ofDefinitions_eq_ok.mp success
  have read := readFrom_ofDefinitions success present
  have bare : (TypeExpr.scalar m.className).bareName = m.className := read.strip_className
  rw [bare, read.filed, present]

/-- An alias has the kind of the text of its alias type. That is the kind of its alias type exactly
if the model behind the alias type adds nothing to the text. -/
theorem classify_alias_iff {config : Config} {definitions : Value} {models : Table Model}
    (success : (ofDefinitions config definitions).outcome = .ok models) {m : Model}
    (member : m ∈ models.values) (isAlias : m.kind = .simple ∨ m.kind = .union) :
    ∃ t, m.aliasType? = some t ∧
      ResultKind.classify models (.scalar m.className) =
        (ResultKind.ofText? t.text).getD .unknown ∧
      (ResultKind.classify models (.scalar m.className) = ResultKind.classify models t ↔
        ResultKind.DecidedByText models t) := by
  obtain ⟨t, named⟩ := Model.kind_eq_simple_or_union.mp isAlias
  have kind := ResultKind.classify_of_alias (get?_bareName success member) named
  exact ⟨t, named, kind, by rw [kind, ResultKind.classify_eq_ofText?_iff]⟩

/-- Definitions of the names of colors, of a name for them, and of a name for text. -/
def shadeDefinitions : Fields :=
  colorDefinitions ++ [
    (.text "Shade", .object [(.text "oneOf", .list [
      .object [(.text "$ref", .text (Model.definitionPath "Color"))]])]),
    (.text "Title", .object [(.text "type", .text "string")])]

theorem shades_built : ∃ models color shade title,
    (ofDefinitions {} (.object shadeDefinitions)).outcome = .ok models ∧
    models.get? "string" = none ∧
    models.get? "color" = some color ∧ color.kind = .enum ∧
    shade ∈ models.values ∧ shade.className = "Shade" ∧
    shade.body = .union ⟨"Color", some ["Color"]⟩ ∧
    title ∈ models.values ∧ title.className = "Title" ∧
      title.body = .simple (.scalar "string") := by
  obtain ⟨models, color, shade, title, built, noText, isColor, colorKind, isShade, rest⟩ :
      ∃ models color shade title,
        (ofDefinitions {} (.object shadeDefinitions)).outcome = .ok models ∧
        models.get? "string" = none ∧
        models.get? "color" = some color ∧ color.kind = .enum ∧
        models.get? "shade" = some shade ∧
        shade.className = "Shade" ∧ shade.body = .union ⟨"Color", some ["Color"]⟩ ∧
        models.get? "title" = some title ∧
        title.className = "Title" ∧ title.body = .simple (.scalar "string") :=
    ⟨_, _, _, _, by cbv, by cbv, by cbv, by cbv, by cbv, by cbv, by cbv, by cbv, by cbv, by cbv⟩
  obtain ⟨shadeName, shadeBody, isTitle, titleName, titleBody⟩ := rest
  exact ⟨models, color, shade, title, built, noText, isColor, colorKind,
    Table.mem_values.mpr ⟨_, isShade⟩, shadeName, shadeBody,
    Table.mem_values.mpr ⟨_, isTitle⟩, titleName, titleBody⟩

/-- A name for text has the kind of text, since no model is called like that. -/
theorem classify_alias_title : ∃ models title t,
    (ofDefinitions {} (.object shadeDefinitions)).outcome = .ok models ∧
    title ∈ models.values ∧ title.className = "Title" ∧ title.kind = .simple ∧
    title.aliasType? = some t ∧
    ResultKind.classify models (.scalar title.className) = .string ∧
    ResultKind.classify models t = .string := by
  obtain ⟨models, _, _, title, built, noText, -, -, -, -, -, isTitle, named, body⟩ := shades_built
  have simple : title.kind = .simple := by rw [Model.kind, body]
  obtain ⟨t, target, kind, same⟩ := classify_alias_iff built isTitle (Or.inl simple)
  rw [Model.aliasType?, body] at target
  cases target
  have text : ResultKind.classify models (.scalar title.className) = .string := by
    rw [kind]
    rfl
  have decided : ResultKind.DecidedByText models (.scalar "string") := by
    have bare : Naming.key (TypeExpr.scalar "string").bareName = "string" := by cbv
    rw [ResultKind.DecidedByText, bare, noText]
    intro unknown
    cases unknown
  refine ⟨models, title, _, built, isTitle, named, simple, by rw [Model.aliasType?, body], text, ?_⟩
  rw [← same.mpr decided, text]

/-- A name for a model of constants is not decoded as one of the constants, although its alias type
is. -/
theorem shade_not_decoded_as_color : ∃ models shade t,
    (ofDefinitions {} (.object shadeDefinitions)).outcome = .ok models ∧
    shade ∈ models.values ∧ shade.className = "Shade" ∧ shade.kind = .union ∧
    shade.aliasType? = some t ∧
    ResultKind.classify models (.scalar shade.className) = .unknown ∧
    ResultKind.classify models t = .enum := by
  obtain ⟨models, color, shade, _, built, -, isColor, colorKind, isShade, named, body, -⟩ :=
    shades_built
  have target : shade.aliasType? = some ⟨"Color", some ["Color"]⟩ := by rw [Model.aliasType?, body]
  have bare : Naming.key (TypeExpr.mk "Color" (some ["Color"])).bareName = "color" := by cbv
  refine ⟨models, shade, _, built, isShade, named, by rw [Model.kind, body], target, ?_, ?_⟩
  · rw [ResultKind.classify_of_alias (get?_bareName built isShade) target]
    rfl
  · have noAlias : (models.get? "color").bind Model.aliasType? = none := by
      rw [isColor, Option.bind_some, ← Option.not_isSome_iff_eq_none, Option.isSome_iff_exists,
        ← Model.kind_eq_simple_or_union, colorKind]
      decide
    rw [ResultKind.classify_of_no_alias (bare ▸ noAlias), bare, isColor, ResultKind.ofModel,
      colorKind]
    rfl

end Models

end ClientGen
