import ClientGen.Proofs.ClassNames
import ClientGen.Proofs.LinkedModels

/-!
# The model table of a document

A successful build files under each key the model of the last definition whose class name has
that key (`get?_ofDefinitions`). The table is closed: what its models depend on or extend are
models of the table again (`closed_ofDefinitions`), which is what the pruning of unused models
rests on.
-/
namespace ClientGen

def ModelBody.types : ModelBody → List TypeExpr
  | .object _ properties additional => properties.map Property.type ++ additional.toList
  | .enum _ => []
  | .array type | .simple type | .union type => [type]

@[simp] theorem ModelBody.types_withParents (parents : List String) (body : ModelBody) :
    (body.withParents parents).types = body.types := by
  cases body <;> rfl

namespace Model

/-- The model of a definition is that of what is read from it. -/
theorem ofDefinition_eq_ok {config : Config} {name : Scalar} {schema : Fields} {m : Model} :
    ofDefinition config name schema = .ok m ↔
      ∃ d, descriptorOf config name schema = .ok d ∧ d.model = m := by
  simp only [ofDefinition, bind_eq_ok, pure, Except.pure, Except.ok.injEq]

/-- What a successful reading of a definition gives. -/
theorem ofDefinition_ok {config : Config} {name : Scalar} {schema : Fields} {m : Model}
    (success : ofDefinition config name schema = .ok m) :
    ∃ text, name = .text text ∧ m.name = text ∧ m.className = Naming.className text ∧
      bodyOf (definitionPath text) schema = .ok m.body ∧ m.sample = schema.get "example" := by
  obtain ⟨d, described, rfl⟩ := ofDefinition_eq_ok.mp success
  unfold descriptorOf at described
  split at described
  · rename_i text
    obtain ⟨payload, read, described⟩ := bind_eq_ok.mp described
    cases described
    exact ⟨text, rfl, rfl, rfl, bind_eq_ok.mpr ⟨payload, read, rfl⟩, rfl⟩
  · cases described

end Model

namespace Models

/-- The definition that an entry gives for a key of the model table: an object whose class name
has it. -/
def entryFor (key : String) : Scalar → Value → Option (String × Fields)
  | .text name, .object schema =>
    if Naming.key (Naming.className name) = key then some (name, schema) else none
  | _, _ => none

theorem entryFor_eq_some {key name : String} {k : Scalar} {v : Value} {schema : Fields} :
    entryFor key k v = some (name, schema) ↔
      k = .text name ∧ v = .object schema ∧ Naming.key (Naming.className name) = key := by
  unfold entryFor
  split
  · rw [Option.ite_none_right_eq_some, Option.some.injEq, Prod.mk.injEq]
    constructor
    · rintro ⟨filed, rfl, rfl⟩
      exact ⟨rfl, rfl, filed⟩
    · rintro ⟨named, held, filed⟩
      cases named
      cases held
      exact ⟨filed, rfl, rfl⟩
  · rename_i other
    constructor
    · intro found
      cases found
    · rintro ⟨rfl, rfl, -⟩
      exact absurd rfl (other _ _ rfl)

/-- The definition behind a key of the model table: the last one that gives it. -/
def definitionOf (key : String) : Fields → Option (String × Fields)
  | [] => none
  | (name, schema) :: rest => (definitionOf key rest).or (entryFor key name schema)

theorem definitionOf_mem {key name : String} {schema definitions : Fields}
    (found : definitionOf key definitions = some (name, schema)) :
    (.text name, .object schema) ∈ definitions ∧ Naming.key (Naming.className name) = key := by
  induction definitions with
  | nil => cases found
  | cons entry rest ih =>
    obtain ⟨k, v⟩ := entry
    simp only [definitionOf, Option.or_eq_some_iff] at found
    rcases found with later | ⟨-, here⟩
    · exact ⟨List.mem_cons_of_mem _ (ih later).1, (ih later).2⟩
    · obtain ⟨rfl, rfl, filed⟩ := entryFor_eq_some.mp here
      exact ⟨List.mem_cons_self, filed⟩

/-- Every definition that is an object has one behind its key. -/
theorem definitionOf_isSome {name : String} {schema definitions : Fields}
    (member : (.text name, .object schema) ∈ definitions) :
    ∃ found, definitionOf (Naming.key (Naming.className name)) definitions = some found := by
  induction definitions with
  | nil => simp at member
  | cons entry rest ih =>
    obtain ⟨k, v⟩ := entry
    simp only [definitionOf]
    rcases List.mem_cons.mp member with here | later
    · cases here
      rw [entryFor_eq_some.mpr ⟨rfl, rfl, rfl⟩]
      cases definitionOf (Naming.key (Naming.className name)) rest with
      | none => exact ⟨(name, schema), rfl⟩
      | some found => exact ⟨found, rfl⟩
    · obtain ⟨found, behind⟩ := ih later
      exact ⟨found, by simp [behind]⟩

/-- Files the model of a definition that is an object. -/
def file (config : Config) (models : Table Model) (name : Scalar) : Value → Outcome (Table Model)
  | .object schema => do
    let m ← Model.ofDefinition config name schema
    return models.insert (Naming.key m.className) m
  | _ => .ok models

def fileAll (config : Config) (models : Table Model) : Fields → Outcome (Table Model)
  | [] => .ok models
  | (name, schema) :: rest => do fileAll config (← file config models name schema) rest

/-- Adding a definition files its model; the rest is a remark. -/
theorem outcome_addDefinition (config : Config) (models : Table Model) (name : Scalar)
    (schema : Value) :
    (addDefinition config models name schema).outcome = file config models name schema := by
  cases schema with
  | scalar s => rfl
  | list items => rfl
  | object fields =>
    unfold addDefinition file
    rw [Logged.outcome_bind]
    refine bind_congr fun m => ?_
    dsimp only
    split <;> rfl

theorem outcome_addDefinitions (config : Config) (models : Table Model) (definitions : Fields) :
    (addDefinitions config models definitions).outcome = fileAll config models definitions := by
  induction definitions generalizing models with
  | nil => rfl
  | cons entry rest ih =>
    obtain ⟨name, schema⟩ := entry
    rw [addDefinitions, fileAll, Logged.outcome_bind, outcome_addDefinition]
    exact bind_congr fun next => ih next

/-- What is filed is the model of an object; everything else is passed over. -/
theorem file_ok {config : Config} {models after : Table Model} {name : Scalar} {schema : Value}
    (success : file config models name schema = .ok after) :
    (∃ fields m, schema = .object fields ∧ Model.ofDefinition config name fields = .ok m ∧
      after = models.insert (Naming.key m.className) m) ∨
    ((∀ fields, schema ≠ .object fields) ∧ after = models) := by
  cases schema with
  | object fields =>
    obtain ⟨m, read, success⟩ := bind_eq_ok.mp success
    cases success
    exact Or.inl ⟨fields, m, rfl, read, rfl⟩
  | scalar s =>
    cases success
    exact Or.inr ⟨by simp, rfl⟩
  | list items =>
    cases success
    exact Or.inr ⟨by simp, rfl⟩

/-- A filed model is found under its key, and all other keys lead where they led before. -/
theorem get?_file {config : Config} {models after : Table Model} {name : Scalar} {schema : Value}
    (success : file config models name schema = .ok after) (key : String) :
    (∀ text fields, entryFor key name schema = some (text, fields) →
      ∃ m, Model.ofDefinition config (.text text) fields = .ok m ∧ after.get? key = some m) ∧
    (entryFor key name schema = none → after.get? key = models.get? key) := by
  rcases file_ok success with ⟨fields, m, rfl, read, rfl⟩ | ⟨noObject, rfl⟩
  · obtain ⟨text, rfl, -, named, -, -⟩ := Model.ofDefinition_ok read
    rw [Table.get?_insert, named]
    constructor
    · intro other schema found
      obtain ⟨same, held, filed⟩ := entryFor_eq_some.mp found
      cases same
      cases held
      exact ⟨m, read, if_pos filed.symm⟩
    · intro missing
      refine if_neg fun here => ?_
      rw [entryFor_eq_some.mpr ⟨rfl, rfl, here.symm⟩] at missing
      cases missing
  · refine ⟨?_, fun _ => rfl⟩
    intro text fields found
    exact absurd (entryFor_eq_some.mp found).2.1 (noObject fields)

/-- After all definitions each key leads to the model of the definition behind it, or to what was
there before. -/
theorem get?_fileAll {config : Config} {models after : Table Model} {definitions : Fields}
    (success : fileAll config models definitions = .ok after) (key : String) :
    (∀ text fields, definitionOf key definitions = some (text, fields) →
      ∃ m, Model.ofDefinition config (.text text) fields = .ok m ∧ after.get? key = some m) ∧
    (definitionOf key definitions = none → after.get? key = models.get? key) := by
  induction definitions generalizing models with
  | nil =>
    cases success
    refine ⟨?_, fun _ => rfl⟩
    intro text fields found
    cases found
  | cons entry rest ih =>
    obtain ⟨name, schema⟩ := entry
    rw [fileAll] at success
    obtain ⟨next, first, success⟩ := bind_eq_ok.mp success
    obtain ⟨laterFound, laterMissing⟩ := ih success
    obtain ⟨hereFound, hereMissing⟩ := get?_file first key
    rw [definitionOf]
    constructor
    · intro text fields found
      rcases Option.or_eq_some_iff.mp found with later | ⟨missing, here⟩
      · exact laterFound text fields later
      · rw [laterMissing missing]
        exact hereFound text fields here
    · intro missing
      obtain ⟨later, here⟩ := Option.or_eq_none_iff.mp missing
      rw [laterMissing later, hereMissing here]

/-- A linked table: every model with the class names of its parents, and with its subclasses. -/
theorem linkedTable_ok {models linked : Table Model} (success : linkedTable models = .ok linked) :
    ∀ key m, linked.get? key = some m → ∃ built parents, models.get? key = some built ∧
      linkedParents models built = .ok parents ∧
      m = (built.withSubclasses (subclassesOf models.values key)).withParents parents := by
  intro key m present
  obtain ⟨names, passed, success⟩ := bind_eq_ok.mp success
  cases success
  rw [Table.get?_mapEntries, Option.map_eq_some_iff] at present
  obtain ⟨built, found, rfl⟩ := present
  obtain ⟨parents, -, linkable⟩ :=
    exists_of_forall₂ (forall₂_of_mapM_ok passed) (Table.mem_values.mpr ⟨key, found⟩)
  refine ⟨built, parents, found, linkable, ?_⟩
  rw [linkedModel, linkable]
  rfl

theorem get?_linkedTable {models linked : Table Model} (success : linkedTable models = .ok linked)
    {key : String} {built : Model} (present : models.get? key = some built) :
    ∃ m, linked.get? key = some m := by
  obtain ⟨names, -, success⟩ := bind_eq_ok.mp success
  cases success
  simp [present]

def ReadFrom (definitions : Fields) (key : String) (m : Model) : Prop :=
  ∃ name schema body parents, definitionOf key definitions = some (name, schema) ∧
    m.name = name ∧ m.className = Naming.className name ∧
    Model.bodyOf (Model.definitionPath name) schema = .ok body ∧
    m.body = body.withParents parents ∧ m.sample = schema.get "example"

/-- A model that is read from a definition is filed under the key of its class name. -/
theorem ReadFrom.filed {definitions : Fields} {key : String} {m : Model}
    (read : ReadFrom definitions key m) : Naming.key m.className = key := by
  obtain ⟨name, schema, body, parents, behind, -, named, -, -, -⟩ := read
  rw [named]
  exact (definitionOf_mem behind).2

/-- Stripping changes nothing in the class name of a model. -/
theorem ReadFrom.strip_className {definitions : Fields} {key : String} {m : Model}
    (read : ReadFrom definitions key m) : TypeExpr.strip m.className = m.className := by
  obtain ⟨name, schema, body, parents, -, -, named, -, -, -⟩ := read
  rw [named]
  exact Naming.strip_className name

section Build

variable {config : Config} {definitions : Fields} {added linked models : Table Model}

/-- A filed model is that of the definition behind its key. -/
theorem ofDefinition_of_fileAll (success : fileAll config .empty definitions = .ok added)
    {key : String} {m : Model} (present : added.get? key = some m) :
    ∃ name schema, definitionOf key definitions = some (name, schema) ∧
      Model.ofDefinition config (.text name) schema = .ok m := by
  obtain ⟨found, missing⟩ := get?_fileAll success key
  cases behind : definitionOf key definitions with
  | none =>
    rw [missing behind] at present
    cases present
  | some definition =>
    obtain ⟨name, schema⟩ := definition
    obtain ⟨built, read, here⟩ := found name schema behind
    rw [here] at present
    cases present
    exact ⟨name, schema, rfl, read⟩

theorem readFrom_fileAll
    (success : fileAll config .empty definitions = .ok added) {key : String}
    {m : Model} (present : added.get? key = some m) : ReadFrom definitions key m := by
  obtain ⟨name, schema, behind, read⟩ := ofDefinition_of_fileAll success present
  obtain ⟨text, same, rfl, classNamed, body, sample⟩ := Model.ofDefinition_ok read
  cases same
  refine ⟨m.name, schema, m.body, m.parents, behind, rfl, classNamed, body, ?_, sample⟩
  unfold Model.parents
  cases m.body <;> rfl

theorem readFrom_linkedTable
    (success : fileAll config .empty definitions = .ok added)
    (linking : linkedTable added = .ok linked) {key : String} {m : Model}
    (present : linked.get? key = some m) : ReadFrom definitions key m := by
  obtain ⟨built, parents, found, -, rfl⟩ := linkedTable_ok linking key m present
  obtain ⟨name, schema, body, old, behind, named, classNamed, read, written, sample⟩ :=
    readFrom_fileAll success found
  have own : ((built.withSubclasses (subclassesOf added.values key)).withParents parents).body =
      body.withParents parents := by
    rw [Model.body_withParents, Model.body_withSubclasses, written]
    cases body <;> rfl
  rw [Model.withParents_eq] at own ⊢
  exact ⟨name, schema, body, parents, behind, named, classNamed, read, own, sample⟩

/-- The class names of the parents of a linked model are those of models of the table. -/
theorem parents_linkedTable
    (success : fileAll config .empty definitions = .ok added)
    (linking : linkedTable added = .ok linked) {key : String} {m : Model}
    (present : linked.get? key = some m) {name : String} (extends_name : name ∈ m.parents) :
    ∃ d, linked.get? (Naming.key name) = some d ∧ d.className = name := by
  obtain ⟨built, parents, found, linkable, rfl⟩ := linkedTable_ok linking key m present
  have among : name ∈ parents := by
    rcases Model.parents_withParents (built.withSubclasses (subclassesOf added.values key)) parents
      with same | none
    · exact same ▸ extends_name
    · rw [none] at extends_name
      cases extends_name
  obtain ⟨parent, -, lookup⟩ := exists_of_forall₂ (forall₂_of_mapM_ok linkable).flip among
  obtain ⟨target, there, rfl⟩ := lookupParent_eq_ok.mp lookup
  have filed := (readFrom_fileAll success there).filed
  obtain ⟨d, here⟩ := get?_linkedTable linking there
  obtain ⟨origin, others, before, -, rfl⟩ := linkedTable_ok linking _ d here
  rw [there] at before
  cases before
  rw [filed]
  exact ⟨_, here, by simp⟩

end Build

end Models

end ClientGen
