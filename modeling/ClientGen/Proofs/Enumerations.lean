import ClientGen.Proofs.FilePaths
import ClientGen.Proofs.ModelShapes

/-!
# Enumerations

An enumeration comes from a composition that lists values, and has one constant for each of them
(`Model.Enumerates`), from the table that is built (`Models.exists_enumerates`) up to the compiled
document (`Api.exists_enumerates`). It is declared as the union of the literals of its constants,
and with a namespace that spells out each constant and lists them all (`Model.declaration_of_enum`).
-/
namespace ClientGen

namespace Model

structure Enumerates (definitions : Fields) (m : Model) (values : List Value) : Prop where
  defined : ∃ (name : String) (schema : Fields), (.text name, .object schema) ∈ definitions ∧
    m.className = Naming.className name ∧ (schema.get "allOf").isSet = true ∧
    (schema.get "enum").isSet = true ∧ (schema.get "enum").elements = .ok values
  body : m.body = .enum (constantsOf values)

variable {definitions : Fields} {m : Model} {values : List Value}

theorem Enumerates.constants (enumerates : Enumerates definitions m values) :
    m.constants = constantsOf values := by
  rw [Model.constants, enumerates.body]

theorem Enumerates.ne_nil (enumerates : Enumerates definitions m values) : values ≠ [] := by
  obtain ⟨name, schema, -, -, -, given, listed⟩ := enumerates.defined
  exact Schema.ne_nil_of_elements given listed

/-- Of a single definition the values are those that it lists. -/
theorem Enumerates.eq_of_singleton {name : String} {schema : Fields} {listed : List Value}
    (enumerates : m.Enumerates [(.text name, .object schema)] values)
    (given : (schema.get "enum").elements = .ok listed) : values = listed := by
  obtain ⟨_, _, among, -, -, -, found⟩ := enumerates.defined
  obtain ⟨-, same⟩ := Prod.mk.inj (List.mem_singleton.mp among)
  cases same
  cases given.symm.trans found
  rfl

def textsSchema (texts : List String) : Fields :=
  [(.text "allOf", .list [.object [(.text "type", .text "string")]]),
    (.text "enum", .list (texts.map .text))]

/-- The names of the constants are made of the values. -/
theorem map_name_constantsOf (values : List Value) :
    (constantsOf values).map EnumConstant.name = values.map Naming.constantName := by
  rw [constantsOf, map_markLast, List.map_map]
  · rfl
  · exact fun _ => rfl

theorem map_value_constantsOf (values : List Value) :
    (constantsOf values).map EnumConstant.value = values.map constantText := by
  rw [constantsOf, map_markLast, List.map_map]
  · rfl
  · exact fun _ => rfl

def listing (constants : List EnumConstant) : String :=
  ",\n".intercalate (constants.map fun c => "      " ++ c.name) ++ "\n"

/-- As the last constant alone is marked, a comma stands between each two names. -/
theorem listing_constantsOf (present : values ≠ []) :
    String.join ((constantsOf values).map fun c =>
      "      " ++ c.name ++ (if c.isLast then "" else ",") ++ "\n") =
        listing (constantsOf values) := by
  have broken : ",\n" = "," ++ "\n" := by decide
  induction values with
  | nil => exact absurd rfl present
  | cons v rest ih =>
    cases rest with
    | nil =>
      change String.join ["      " ++ Naming.constantName v ++ "" ++ "\n"] = _
      rw [String.append_empty, String.join_cons, String.join_nil, String.append_empty]
      exact congrArg (· ++ "\n") String.intercalate_singleton.symm
    | cons w others =>
      have step : constantsOf (v :: w :: others) =
        ⟨Naming.constantName v, constantText v, false⟩ :: constantsOf (w :: others) := rfl
      obtain ⟨c, later, tail⟩ := List.exists_cons_of_ne_nil
        (constantsOf_ne_nil.mpr (List.cons_ne_nil w others))
      rw [step, List.map_cons, String.join_cons, ih (List.cons_ne_nil w others), tail]
      simp only [listing, List.map_cons, String.intercalate_cons_cons, broken, String.append_assoc,
        Bool.false_eq_true, if_false]

/-- The namespace of an enumeration: the lines of the constants in order, and the list of all. -/
def namespaceText (className : String) (constants : List EnumConstant) : String :=
  "export namespace " ++ className ++ " \x7b\n" ++
    Client.unlines (constants.map (constantLine className)) ++
    "  export function values(): " ++ className ++ "[] \x7b\n    return [\n" ++
    listing constants ++ "    ];\n  \x7d\n\x7d\n"

theorem enumNamespace_constantsOf (className : String) (present : values ≠ []) :
    Client.enumNamespace className (constantsOf values) =
      namespaceText className (constantsOf values) := by
  unfold Client.enumNamespace namespaceText constantLine
  rw [listing_constantsOf present]

/-- An enumeration is declared as the union of the literals of its constants, and if that is asked
for, with its namespace. -/
theorem declaration_of_enum {config : Config} (enumerates : Enumerates definitions m values) :
    Client.declaration config m = .ok (Client.aliasText m.className
        (" | ".intercalate (m.constants.map Client.constantLiteral)) ++
      if config.enumModule then namespaceText m.className m.constants else "") := by
  rw [Client.declaration_eq, enumerates.body, enumerates.constants]
  dsimp only
  rw [constantList_constantsOf, enumNamespace_constantsOf m.className enumerates.ne_nil]

end Model

namespace Models

variable {config : Config} {definitions : Fields} {models : Table Model} {key : String} {m : Model}

theorem ReadFrom.exists_enumerates (read : ReadFrom definitions key m)
    (enumeration : m.kind = .enum) : ∃ values, m.Enumerates definitions values := by
  obtain ⟨name, schema, body, parents, behind, -, named, made, written, -⟩ := read
  have becomes := Model.bodyOf_eq_ok.mp made
  rw [Model.kind, written] at enumeration
  cases becomes with
  | constants joins noInterface given listed =>
    exact ⟨_, ⟨⟨name, schema, (definitionOf_mem behind).1, named, joins.composed, given, listed⟩,
      written⟩⟩
  | interface | text | array | union | object | whole => cases enumeration

/-- Every enumeration of a table of models enumerates the values of its definition. -/
theorem exists_enumerates
    (success : (ofDefinitions config (.object definitions)).outcome = .ok models)
    (present : models.get? key = some m) (enumeration : m.kind = .enum) :
    ∃ values, m.Enumerates definitions values :=
  ReadFrom.exists_enumerates (readFrom_ofDefinitions success present) enumeration

end Models

/-- Every enumeration of a compiled document enumerates the values of its definition. -/
theorem Api.exists_enumerates {config : Config} {document : Value} {api : Api} {m : Model}
    (compiled : (compile config document).outcome = .ok api) (member : m ∈ api.models.values)
    (enumeration : m.kind = .enum) :
    ∃ fields definitions values, document = .object fields ∧
      definitionsOf fields = .object definitions ∧ m.Enumerates definitions values := by
  obtain ⟨fields, models, services, finished, stages⟩ := compile_eq_ok.mp compiled
  obtain ⟨key, present⟩ := Table.mem_values.mp member
  obtain ⟨built, kept, finishes⟩ := stages.kept_of_model present
  have modelsBuilt := stages.modelsBuilt
  obtain ⟨definitions, _, _, object, -, -, -⟩ := Models.ofDefinitions_eq_ok.mp modelsBuilt
  have keyed := (Models.closed_ofDefinitions modelsBuilt).keyed
  have there := (TagFilter.reaches_of_get?_models keyed kept).1
  rw [object] at modelsBuilt
  have sameBody : m.body = built.body := by rw [finishes]
  have sameClass : m.className = built.className := by rw [finishes]
  obtain ⟨values, enumerates⟩ := Models.exists_enumerates modelsBuilt there
    (by rw [Model.kind, ← sameBody]; exact enumeration)
  refine ⟨fields, definitions, values, stages.object, object, ?_, sameBody.trans enumerates.body⟩
  rw [sameClass]
  exact enumerates.defined

end ClientGen
