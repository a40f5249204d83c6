import ClientGen.Proofs.Pruning
import ClientGen.Proofs.RenderedValues

/-!
# References and imports

A model that prints a reference to a definition knows the model of the definition: it is the model
itself, or one of its dependencies, which its file imports. The exceptions are names that a
reference does not lead to, names that give no class name, aliases of scalars, whose dependencies
are not collected, and tuples of a negative length, whose constituents leave places out. Of
definitions whose class names differ in case only the last one stands for all of them.
-/
namespace ClientGen

/-- The type of the schema `s` is written in the model of the definition `name`. -/
def Model.Shows (name : String) (schema : Fields) (s : Schema) : Prop :=
  ∃ place v, Model.Renders (Model.definitionPath name) schema place v ∧
    Schema.parse place v = .ok s

/-- A reference is printed as a class name. -/
theorem Schema.type_ref {o : Origin} {name className : String}
    (read : Naming.classOfRef (Model.definitionPath name) = className) (given : className ≠ "") :
    (Schema.ref o (.text (Model.definitionPath name))).type = .ok (.scalar className) := by
  have set : (Value.text (Model.definitionPath name)).isSet = true := by
    rw [Value.isSet, bne_iff_ne]
    intro empty
    have starts := congrArg (fun s => s.toList.head?) empty
    simp [Model.definitionPath] at starts
  rw [Schema.type, Naming.classOfRef?, if_pos set]
  simp only [Value.asText, bind, Except.bind, pure, Except.pure, read, Option.getD_some, typeOfText,
    given, if_false]

namespace Api

variable {config : Config} {document : Value} {fields definitions : Fields} {models : Table Model}
  {services : Table Service} {finished : Table Model} {api : Api}

/-- What a model knows is the model itself, or the file of the model imports it. -/
theorem self_or_imported (stages : Stages config document fields models services finished api)
    {key other : String} {m d : Model} (retained : api.models.get? key = some m)
    (present : api.models.get? other = some d) (knows : m.Knows d) :
    d = m ∨ d.className ∈ m.dependencies ∧ d ∈ Client.importedModels api.models m.dependencies := by
  have closed := Models.closed_ofDefinitions stages.modelsBuilt
  have filed {k : String} {n : Model} (found : api.models.get? k = some n) :
      Naming.key n.className = k := by
    obtain ⟨built, kept, finishes⟩ := stages.kept_of_model found
    rw [finishes]
    exact closed.keyed k built (TagFilter.reaches_of_get?_models closed.keyed kept).1
  rcases knows with same | depends
  · left
    have sameKey : other = key := by rw [← filed present, ← filed retained, same]
    rw [sameKey, retained] at present
    cases present
    rfl
  · right
    obtain ⟨named, distinct⟩ := dependencies_named stages (Table.mem_values.mpr ⟨key, retained⟩)
    have imported := imported_of_named distinct fun name used =>
      named name (List.mem_append_left _ used)
    obtain ⟨n, among, found, -⟩ := exists_of_forall₂ imported.each depends
    rw [filed present, present] at found
    cases found
    exact ⟨depends, among⟩

/-- A model that prints a reference to a definition names the class of the definition. -/
theorem names_of_printed {name : String} {schema : Fields} {s : Schema}
    (shown : Model.Shows name schema s) {body : ModelBody}
    (read : Model.bodyOf (Model.definitionPath name) schema = .ok body) {o : Origin}
    {target : String}
    (printed : Relation.ReflTransGen Schema.Prints s (.ref o (.text (Model.definitionPath target))))
    (counts : ∀ inner, Relation.ReflTransGen Schema.Prints s inner → inner.Counts)
    (leads : Naming.classOfRef (Model.definitionPath target) = Naming.className target)
    (given : Naming.className target ≠ "") :
    ∃ t ∈ body.types, (Naming.className target).toList <:+: t.text.toList ∧
      t.Names (Naming.className target) := by
  obtain ⟨place, v, renders, parsed⟩ := shown
  obtain ⟨whole, typed, t, member, within⟩ := renders.written read
  have wholeType : s.type = .ok whole := by
    obtain ⟨_, same, typed⟩ := bind_eq_ok.mp typed
    rw [parsed] at same
    cases same
    exact typed
  obtain ⟨own, ownType, inner⟩ := Schema.inside_of_printed printed wholeType
  rw [Schema.type_ref leads given] at ownType
  cases ownType
  have ownName : (TypeExpr.scalar (Naming.className target)).Names (Naming.className target) :=
    TypeExpr.names_scalar.mpr (Naming.strip_className target)
  refine ⟨t, member, inner.written.trans within.written, ?_⟩
  exact within.names trivial _ (inner.names counts _ ownName)

/-- A retained model that prints a reference to a definition is the model of the last definition
with the same key, or it imports that model, which is retained as well. -/
theorem printed_reference_imported (success : (compile config document).outcome = .ok api)
    (object : document = .object fields) (defined : definitionsOf fields = .object definitions)
    {key : String} {m : Model} (retained : api.models.get? key = some m) {name : String}
    {schema : Fields} (behind : Models.definitionOf key definitions = some (name, schema))
    {s : Schema} (shown : Model.Shows name schema s) {o : Origin} {target : String}
    {targetSchema : Fields} (member : (.text target, .object targetSchema) ∈ definitions)
    (printed : Relation.ReflTransGen Schema.Prints s (.ref o (.text (Model.definitionPath target))))
    (leads : Naming.classOfRef (Model.definitionPath target) = Naming.className target)
    (given : Naming.className target ≠ "")
    (compound : ∀ t, m.body = .simple t → t.isCompound = true)
    (counts : ∀ inner, Relation.ReflTransGen Schema.Prints s inner → inner.Counts) :
    (∃ t ∈ m.body.types, (Naming.className target).toList <:+: t.text.toList) ∧
    ∃ d last lastSchema, api.models.get? (Naming.key (Naming.className target)) = some d ∧
      Models.definitionOf (Naming.key (Naming.className target)) definitions =
        some (last, lastSchema) ∧ d.className = Naming.className last ∧
      (d = m ∨
        d.className ∈ m.dependencies ∧ d ∈ Client.importedModels api.models m.dependencies) := by
  obtain ⟨_, models, services, finished, stages⟩ := compile_eq_ok.mp success
  have sameObject := stages.object
  rw [object] at sameObject
  cases sameObject
  have built := stages.modelsBuilt
  rw [defined] at built
  have closed := Models.closed_ofDefinitions built
  obtain ⟨bare, kept, finishes⟩ := stages.kept_of_model retained
  have here := (TagFilter.reaches_of_get?_models closed.keyed kept).1
  have sameBody : m.body = bare.body := by rw [finishes]
  obtain ⟨_, _, body, parents, sameDefinition, -, -, read, written, -⟩ :=
    Models.readFrom_ofDefinitions built here
  rw [behind] at sameDefinition
  cases sameDefinition
  have sameTypes : bare.body.types = body.types := by rw [written, ModelBody.types_withParents]
  obtain ⟨t, among, inText, named⟩ := names_of_printed shown read printed counts leads given
  rw [← sameTypes] at among
  refine ⟨⟨t, sameBody ▸ among, inText⟩, ?_⟩
  -- the dependencies of the model lead to the key of the definition, behind which there is a model
  obtain ⟨dependency, collected, sameKey⟩ :=
    TypeExpr.exists_dependencyName named (Naming.strip_className target)
  obtain ⟨d, there⟩ := Models.exists_get?_ofDefinitions built member
  have looked : t ∈ Models.typesOf bare :=
    Models.mem_typesOf among fun u simple => compound u (sameBody.trans simple)
  have knows : bare.Knows d :=
    closed.named key bare here t looked dependency collected d (sameKey ▸ there)
  obtain ⟨final, present, finishesTarget⟩ :=
    stages.model_of_kept (TagFilter.kept_of_knows closed kept there knows)
  obtain ⟨last, lastSchema, _, _, lastBehind, -, lastNamed, -, -, -⟩ :=
    Models.readFrom_ofDefinitions built there
  have finalNamed : final.className = d.className := by rw [finishesTarget]
  have finalKnows : m.Knows final := by
    rw [finishes, finishesTarget]
    exact knows
  exact ⟨final, last, lastSchema, present, lastBehind, finalNamed.trans lastNamed,
    self_or_imported stages retained present finalKnows⟩

/-- The pets import the owners that their array of owners refers to. -/
theorem printed_reference_imported_owners : ∃ api m s o,
    (compile {} petDocument).outcome = .ok api ∧ definitionsOf petFields = .object petDefinitions ∧
    api.models.get? "pet" = some m ∧
    Models.definitionOf "pet" petDefinitions = some ("Pet", petSchema) ∧
    Model.Shows "Pet" petSchema s ∧
    (.text "Owner", .object [(.text "type", .text "object")]) ∈ petDefinitions ∧
    Relation.ReflTransGen Schema.Prints s (.ref o (.text (Model.definitionPath "Owner"))) ∧
    (∀ inner, Relation.ReflTransGen Schema.Prints s inner → inner.Counts) ∧
    ∃ d last lastSchema, api.models.get? (Naming.key (Naming.className "Owner")) = some d ∧
      Models.definitionOf (Naming.key (Naming.className "Owner")) petDefinitions =
        some (last, lastSchema) ∧ d.className = Naming.className last ∧
      (d = m ∨
        d.className ∈ m.dependencies ∧ d ∈ Client.importedModels api.models m.dependencies) := by
  obtain ⟨api, m, success, retained, parents, properties, additional, body⟩ :
      ∃ api m, (compile {} petDocument).outcome = .ok api ∧ api.models.get? "pet" = some m ∧
        ∃ parents properties additional, m.body = .object parents properties additional := by
    exact ⟨_, _, by cbv, by cbv, _, _, _, by cbv⟩
  have described : Model.DescribesObject petSchema := ⟨rfl, Or.inl ⟨rfl, rfl⟩⟩
  have shown : Model.Shows "Pet" petSchema (.array ⟨_, .null⟩ (.ref ⟨_, .null⟩ _)) :=
    ⟨_, _, .property described rfl (List.mem_singleton_self _), by cbv⟩
  have owners : (.text "Owner", .object [(.text "type", .text "object")]) ∈ petDefinitions := by
    simp [petDefinitions]
  have counts (o p : Origin) (v : Value) : ∀ inner,
      Relation.ReflTransGen Schema.Prints (.array o (.ref p v)) inner → inner.Counts := by
    intro inner printed
    rcases Relation.ReflTransGen.cases_head printed with rfl | ⟨_, ⟨⟩, below⟩
    · trivial
    · rcases Relation.ReflTransGen.cases_head below with rfl | ⟨_, ⟨⟩, -⟩
      trivial
  have filed : Naming.key (Naming.className "Pet") = "pet" := by decide
  have behind : Models.definitionOf "pet" petDefinitions = some ("Pet", petSchema) := by
    simp [petDefinitions, Models.definitionOf, Models.entryFor_eq_some.mpr ⟨rfl, rfl, filed⟩]
  have leads := Naming.classOfRef_definitionPath (show '/' ∉ "Owner".toList by decide)
  have given : Naming.className "Owner" ≠ "" := by decide
  have noAlias : ∀ t, m.body = .simple t → t.isCompound = true := by
    intro t simple
    rw [body] at simple
    cases simple
  have defined : definitionsOf petFields = .object petDefinitions := rfl
  have imported := (printed_reference_imported success rfl defined retained behind shown owners
    (.single .items) leads given noAlias (counts _ _ _)).2
  exact ⟨api, m, _, _, success, defined, retained, behind, shown, owners, .single .items,
    counts _ _ _, imported⟩

/-- The model under `key` prints a reference to the definition `target`, but the class name that is
printed is neither its own nor that of a dependency. -/
def Unimported (api : Api) (definitions : Fields) (key target : String) : Prop :=
  ∃ m name schema s o targetSchema t, api.models.get? key = some m ∧
    Models.definitionOf key definitions = some (name, schema) ∧ Model.Shows name schema s ∧
    (.text target, .object targetSchema) ∈ definitions ∧
    Relation.ReflTransGen Schema.Prints s (.ref o (.text (Model.definitionPath target))) ∧
    (Schema.ref o (.text (Model.definitionPath target))).type = .ok t ∧
    t.text ≠ m.className ∧ t.text ∉ m.dependencies

def objectSchema : Fields := [(.text "type", .text "object")]

/-- The schema of an object that has an entry for another one. -/
def partSchema : Fields := [(.text "b", .object [])]

def arraySchema (items : Value) : Fields :=
  [(.text "type", .text "array"), (.text "items", items)]

def aliasSchema : Fields :=
  [(.text "type", .text "string"), (.text "$ref", .text (Model.definitionPath "Pet"))]

/-- Pairs of which one may be left out, and also the last place of a single one. -/
def pairSchema : Fields :=
  [(.text "type", .text "array"), (.text "items", .list [refTo "Pet", refTo "x"]),
    (.text "minItems", .int (-1)), (.text "maxItems", .int 1)]

/-- Definitions whose models print classes that they do not depend on. -/
def oddDefinitions : Fields :=
  [(.text "Pet", .object objectSchema),
    (.text "Alias", .object aliasSchema),
    (.text "日本", .object objectSchema),
    (.text "Lands", .object (arraySchema (refTo "日本"))),
    (.text "x", .object partSchema),
    (.text "x/b", .object objectSchema),
    (.text "Parts", .object (arraySchema (refTo "x/b"))),
    (.text "Pair", .object pairSchema),
    (.text "Vet", .object objectSchema),
    (.text "VET", .object objectSchema),
    (.text "Vets", .object (arraySchema (refTo "Vet")))]

def oddDocument : Value :=
  .object [(.text "swagger", .text supportedVersion), (.text "definitions", .object oddDefinitions)]

theorem shows_array (name target : String) :
    Model.Shows name (arraySchema (refTo target))
      (.array ⟨Model.definitionPath name, .null⟩
        (.ref ⟨Model.definitionPath name ++ "/items", .null⟩
          (.text (Model.definitionPath target)))) :=
  ⟨_, _, .whole rfl rfl (by decide), by cbv⟩

/-- The definitions all give models, which know few others. -/
theorem compile_oddDocument : ∃ api,
    (compile { ignoreUnusedModels := false } oddDocument).outcome = .ok api ∧
    (api.models.map fun m => (m.className, m.dependencies)).entries =
      [("pet", "Pet", []), ("alias", "Alias", []), ("", "", []), ("lands", "Lands", []),
        ("x", "X", []), ("xb", "XB", []), ("parts", "Parts", []), ("pair", "Pair", ["Pet"]),
        ("vet", "VET", []), ("vets", "Vets", ["VET"])] := by
  obtain ⟨models, built, entries⟩ : ∃ models,
      (Models.ofDefinitions { ignoreUnusedModels := false } (.object oddDefinitions)).outcome =
        .ok models ∧
      (models.map fun m => (m.className, m.dependencies)).entries =
        [("pet", "Pet", []), ("alias", "Alias", []), ("", "", []), ("lands", "Lands", []),
          ("x", "X", []), ("xb", "XB", []), ("parts", "Parts", []), ("pair", "Pair", ["Pet"]),
          ("vet", "VET", []), ("vets", "Vets", ["VET"])] := by
    exact ⟨_, Models.ofDefinitions_eq_ok.mpr ⟨_, _, _, rfl, by cbv, by cbv, rfl⟩, by cbv⟩
  have running : (Services.ofDocument { ignoreUnusedModels := false } models oddDocument).outcome =
      .ok .empty :=
    Services.ofDocument_eq_ok.mpr ⟨_, [], .empty, [], rfl, rfl, rfl, rfl, rfl⟩
  refine ⟨⟨_, _, ""⟩, compile_eq_ok.mpr ⟨_, models, .empty, models, rfl, rfl, ⟨_, by cbv⟩, built,
    running, rfl, rfl, rfl, rfl⟩, ?_⟩
  rw [← entries]
  simp [Table.map, Table.mapEntries]

/-- An alias of a scalar, a name without word characters, a name with a slash, a tuple of a
negative length and a name that another definition takes over: each prints a reference that its
model does not know. -/
theorem references_without_import : ∃ api,
    (compile { ignoreUnusedModels := false } oddDocument).outcome = .ok api ∧
    Unimported api oddDefinitions "alias" "Pet" ∧ Unimported api oddDefinitions "lands" "日本" ∧
    Unimported api oddDefinitions "parts" "x/b" ∧ Unimported api oddDefinitions "pair" "x" ∧
    Unimported api oddDefinitions "vets" "Vet" := by
  obtain ⟨api, success, entries⟩ := compile_oddDocument
  have present (key className : String) (dependencies : List String)
      (member : (key, className, dependencies) ∈
        (api.models.map fun m => (m.className, m.dependencies)).entries) :
      ∃ m, api.models.get? key = some m ∧ m.className = className ∧
        m.dependencies = dependencies := by
    rw [← Table.get?_eq_some, Table.get?_map, Option.map_eq_some_iff] at member
    obtain ⟨m, found, values⟩ := member
    exact ⟨m, found, congrArg Prod.fst values, congrArg Prod.snd values⟩
  rw [entries] at present
  refine ⟨api, success, ?_, ?_, ?_, ?_, ?_⟩
  · obtain ⟨m, found, named, none⟩ := present "alias" "Alias" [] (by simp)
    have shown : Model.Shows "Alias" aliasSchema
        (.ref ⟨_, .null⟩ (.text (Model.definitionPath "Pet"))) :=
      ⟨_, _, .whole rfl rfl (by decide), by cbv⟩
    refine ⟨m, "Alias", aliasSchema, _, _, objectSchema, .scalar "Pet", found, ?_, shown,
      by simp [oddDefinitions], .refl, by cbv, ?_, ?_⟩
    · rfl
    · rw [named]
      decide
    · simp [none]
  · obtain ⟨m, found, named, none⟩ := present "lands" "Lands" [] (by simp)
    refine ⟨m, "Lands", _, _, _, objectSchema, .nullType, found, ?_, shows_array "Lands" "日本",
      by simp [oddDefinitions], .single .items, by cbv, ?_, ?_⟩
    · rfl
    · rw [named]
      decide
    · simp [none]
  · obtain ⟨m, found, named, none⟩ := present "parts" "Parts" [] (by simp)
    refine ⟨m, "Parts", _, _, _, objectSchema, .scalar "B", found, ?_, shows_array "Parts" "x/b",
      by simp [oddDefinitions], .single .items, by cbv, ?_, ?_⟩
    · rfl
    · rw [named]
      decide
    · simp [none]
  · obtain ⟨m, found, named, pet⟩ := present "pair" "Pair" ["Pet"] (by simp)
    have shown : Model.Shows "Pair" pairSchema
        (.tuple ⟨_, .null⟩ [.ref ⟨_, .null⟩ (.text (Model.definitionPath "Pet")),
          .ref ⟨_, .null⟩ (.text (Model.definitionPath "x"))] (.int (-1)) (.int 1) none) :=
      ⟨_, _, .whole rfl rfl (by decide), by cbv⟩
    -- the two first of three places are those of the length minus one
    have printed (o p : Origin) (pet : Schema) :
        Schema.Prints (.tuple o [pet, .ref p (.text (Model.definitionPath "x"))] (.int (-1))
          (.int 1) none) (.ref p (.text (Model.definitionPath "x"))) :=
      @Schema.Prints.place _ _ _ _ _ (-1) 1 (-1) _ rfl rfl rfl (by decide) (by decide)
        (List.mem_cons_of_mem _ (List.mem_singleton_self _))
    refine ⟨m, "Pair", pairSchema, _, _, partSchema, .scalar "X", found, ?_, shown,
      by simp [oddDefinitions], .single (printed _ _ _), by cbv, ?_, ?_⟩
    · rfl
    · rw [named]
      decide
    · rw [pet]
      decide
  · obtain ⟨m, found, named, vet⟩ := present "vets" "Vets" ["VET"] (by simp)
    refine ⟨m, "Vets", _, _, _, objectSchema, .scalar "Vet", found, ?_, shows_array "Vets" "Vet",
      by simp [oddDefinitions], .single .items, by cbv, ?_, ?_⟩
    · rfl
    · rw [named]
      decide
    · rw [vet]
      decide

end Api

end ClientGen
