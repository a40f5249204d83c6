import Mathlib
import ClientGen.Proofs.Imports
import ClientGen.Proofs.ResultKinds
import ClientGen.Proofs.SharedParameters

/-!
# The imports of a service

A service imports the models that it refers to: those in the results and in the parameters of its
operations, and apart from them those in the responses that tell about errors. The type of a result
and the imports are made in separate passes over the responses. They agree as long as no code is
there twice, which the table of the responses would hold once only, and no reference stands in a
tuple of a negative length (`Services.references_imported`).
-/
namespace ClientGen

namespace Schema

/-- The part is printed, and no negative length makes the whole lose what the part names. -/
def Keeps (whole part : Schema) : Prop := whole.Prints part ∧ whole.Counts

/-- The value at a place of a document prints a reference as the class `name`, but not in a tuple of
a negative length. -/
def KeepsClass (path : String) (v : Value) (name : String) : Prop :=
  ∃ s o target, Schema.parse path v = .ok s ∧
    Relation.ReflTransGen Keeps s (.ref o target) ∧ Naming.classOfRef? target = .ok (some name)

/-- A kept schema has a type of its own, which is written inside the whole and named by it. -/
theorem inside_of_kept {s part : Schema} (kept : Relation.ReflTransGen Keeps s part)
    {t : TypeExpr} (typed : s.type = .ok t) : ∃ u, part.type = .ok u ∧ Inside u t True := by
  induction kept with
  | refl => exact ⟨t, typed, List.infix_rfl, fun _ _ named => named⟩
  | tail _ last ih =>
    obtain ⟨v, middle, outer⟩ := ih
    obtain ⟨u, own, inner⟩ := last.1.inside middle
    refine ⟨u, own, inner.written.trans outer.written, ?_⟩
    intro _ name named
    exact outer.names trivial name (inner.names last.2 name named)

variable {path name : String} {v : Value} {t : TypeExpr}

/-- The class of a kept reference is written in the type and named by it. -/
theorem KeepsClass.inside (keeps : KeepsClass path v name) (given : name ≠ "")
    (typed : typeAt path v = .ok t) : Inside (.scalar name) t True := by
  obtain ⟨s, o, target, parsed, kept, leads⟩ := keeps
  obtain ⟨_, same, typed⟩ := bind_eq_ok.mp typed
  rw [parsed] at same
  cases same
  obtain ⟨u, own, inside⟩ := inside_of_kept kept typed
  rw [Schema.type, leads] at own
  cases own
  have text : typeOfText ((some name).getD "") = .scalar name := if_neg given
  rwa [text] at inside

/-- The value at a place of a document prints the class `name`, and there is a model for it. -/
structure RefersTo (models : Table Model) (path : String) (v : Value) (name : String) (d : Model) :
    Prop where
  keeps : KeepsClass path v name
  given : name ≠ ""
  found : models.get? (Naming.key name) = some d

variable {models : Table Model} {d : Model}

theorem RefersTo.written (refers : RefersTo models path v name d) (typed : typeAt path v = .ok t) :
    name.toList <:+: t.text.toList :=
  (refers.keeps.inside refers.given typed).written

/-- The dependencies of types are complete: a model that one of their values refers to is among
them. -/
theorem RefersTo.imported (refers : RefersTo models path v name d) (typed : typeAt path v = .ok t)
    (keyed : Keyed models) {types : List TypeExpr} (member : t ∈ types) :
    d.className ∈ Services.dependenciesOf models types := by
  have plain : TypeExpr.strip name = name := by
    obtain ⟨_, _, _, -, -, leads⟩ := refers.keeps
    exact strip_of_classOfRef? leads
  have named : t.Names name :=
    (refers.keeps.inside refers.given typed).names trivial name (TypeExpr.names_scalar.mpr plain)
  obtain ⟨dependency, collected, sameKey⟩ := TypeExpr.exists_dependencyName named plain
  have among : dependency ∈ (types.map Dependencies.Candidate.type).flatMap
      Dependencies.Candidate.names :=
    List.mem_flatMap.mpr ⟨.type t, List.mem_map_of_mem member, collected⟩
  exact (Dependencies.collected_of_candidates keyed none _).complete dependency among d
    (sameKey ▸ refers.found) (by simp [Dependencies.ownerKey])

end Schema

namespace Responses

variable {document : Value} {r next : Responses} {code : Scalar} {raw : Value} {fields : Fields}

/-- A response with content is put into the table under its code. -/
theorem table_add (followed : Reference.follow document raw = .ok (.object fields))
    (carries : fields.get "schema" ≠ .null) (success : r.add document code raw = .ok next) :
    ∃ t, typeAt ("#/responses/" ++ code.display ++ "/schema") (fields.get "schema") = .ok t ∧
      next.table =
        r.table.insert code.display ⟨code.display, t, fields.get "description"⟩ := by
  unfold add at success
  obtain ⟨_, same, success⟩ := bind_eq_ok.mp success
  rw [followed] at same
  cases same
  dsimp only at success
  rw [if_neg carries] at success
  unfold addContent at success
  obtain ⟨t, typed, success⟩ := bind_eq_ok.mp success
  obtain ⟨means, -, success⟩ := bind_eq_ok.mp success
  refine ⟨t, typed, ?_⟩
  cases means <;> cases success <;> rfl

/-- A response leaves what the table holds under other codes. -/
theorem get?_add_of_ne {key : String} (other : key ≠ code.display)
    (success : r.add document code raw = .ok next) : next.table.get? key = r.table.get? key := by
  by_cases content : ∃ fields : Fields, Reference.follow document raw = .ok (.object fields) ∧
      fields.get "schema" ≠ .null
  · obtain ⟨fields, followed, carries⟩ := content
    obtain ⟨t, -, stored⟩ := table_add followed carries success
    rw [stored, Table.get?_insert, if_neg other]
  · unfold add at success
    obtain ⟨v, followed, success⟩ := bind_eq_ok.mp success
    split at success
    · rename_i fields
      split at success
      · cases success
        rfl
      · rename_i carries
        exact absurd ⟨fields, followed, carries⟩ content
    · cases success
      rfl

theorem get?_addAll_of_not_mem {responses : Fields} {key : String}
    (absent : key ∉ responses.map fun e => e.1.display)
    (success : r.addAll document responses = .ok next) :
    next.table.get? key = r.table.get? key := by
  induction responses generalizing r with
  | nil =>
    cases success
    rfl
  | cons entry rest ih =>
    obtain ⟨other, value⟩ := entry
    rw [List.map_cons, List.mem_cons, not_or] at absent
    rw [addAll] at success
    obtain ⟨middle, first, success⟩ := bind_eq_ok.mp success
    rw [ih absent.2 success, get?_add_of_ne absent.1 first]

/-- If no two codes have the same text, the table holds every response with content. -/
theorem get?_addAll {responses : Fields} (apart : (responses.map fun e => e.1.display).Nodup)
    (member : (code, raw) ∈ responses)
    (followed : Reference.follow document raw = .ok (.object fields))
    (carries : fields.get "schema" ≠ .null)
    (success : r.addAll document responses = .ok next) :
    ∃ t, typeAt ("#/responses/" ++ code.display ++ "/schema") (fields.get "schema") = .ok t ∧
      next.table.get? code.display = some ⟨code.display, t, fields.get "description"⟩ := by
  induction responses generalizing r with
  | nil => cases member
  | cons entry rest ih =>
    obtain ⟨other, value⟩ := entry
    rw [List.map_cons, List.nodup_cons] at apart
    rw [addAll] at success
    obtain ⟨middle, first, others⟩ := bind_eq_ok.mp success
    rcases List.mem_cons.mp member with here | later
    · cases here
      obtain ⟨t, typed, stored⟩ := table_add followed carries first
      refine ⟨t, typed, ?_⟩
      rw [get?_addAll_of_not_mem apart.1 others, stored, Table.get?_insert, if_pos rfl]
    · exact ih apart.2 later others

/-- The type of the result is written around the types of the successes. -/
theorem inside_resultType {t : TypeExpr} {kept : Prop} (member : t ∈ r.resultTypes) :
    Schema.Inside t r.resultType kept := by
  unfold resultType
  split
  · rename_i none
    rw [none] at member
    cases member
  · rename_i only single
    rw [single, List.mem_singleton] at member
    subst t
    exact ⟨List.infix_rfl, fun _ _ named => named⟩
  · exact Schema.inside_combine member

end Responses

namespace Parameter

/-- Where the definition of a parameter has the schema of its type, and the schema: the one that it
gives, or the definition itself. -/
def schemaAt (fields : Fields) : String × Value :=
  let path := "#/parameters/" ++ (textOr fields "name").display
  let schema := fields.get "schema"
  if schema = .null then (path, .object fields) else (path ++ "/schema", schema)

variable {document raw : Value} {fields : Fields} {inContainer : Bool} {p : Parameter}

theorem typeOf_name (fields : Fields) :
    typeOf (textOr fields "name") fields = typeAt (schemaAt fields).1 (schemaAt fields).2 := by
  unfold typeOf schemaAt
  dsimp only
  split
  · rfl
  · rfl

theorem type_of_ofValue (followed : Reference.follow document raw = .ok (.object fields))
    (success : ofValue document raw inContainer = .ok p) :
    typeAt (schemaAt fields).1 (schemaAt fields).2 = .ok p.type := by
  obtain ⟨_, pieces, read⟩ := ofValue_ok success
  cases read.followed.symm.trans followed
  rw [← typeOf_name, ← read.name]
  exact read.type

end Parameter

namespace Operation

def RespondsWith (document : Value) (definition : Fields) (code : Scalar) (v : Value) : Prop :=
  ∃ (responses : Fields) (raw : Value) (fields : Fields),
    (definition.get "responses").orElse (.object []) = .object responses ∧
    (code, raw) ∈ responses ∧ Reference.follow document raw = .ok (.object fields) ∧
    fields.get "schema" = v ∧ v ≠ .null

/-- An operation takes a parameter, of its own or of its path, with the schema `v` at `path`. -/
def Takes (document : Value) (place : Place) (definition : Fields) (path : String) (v : Value) :
    Prop :=
  ∃ given raw fields, rawParameters place definition = .ok given ∧ raw ∈ given ∧
    Reference.follow document raw = .ok (.object fields) ∧ Parameter.schemaAt fields = (path, v)

/-- No two responses of the definition have codes with the same text. -/
def CodesApart (definition : Fields) : Prop :=
  ∀ responses : Fields, (definition.get "responses").orElse (.object []) = .object responses →
    (responses.map fun e => e.1.display).Nodup

variable {config : Config} {models : Table Model} {document : Value} {serviceClass id : String}
  {place : Place} {definition : Fields} {o : Operation} {code : Scalar} {v : Value}

/-- A response with a schema is stored with the type of the schema. -/
theorem response_of_respondsWith
    (success : build config models document serviceClass place definition id = .ok o)
    (apart : CodesApart definition) (responds : RespondsWith document definition code v) :
    ∃ r ∈ o.responses.values, r.code = code.display ∧
      typeAt ("#/responses/" ++ code.display ++ "/schema") v = .ok r.type := by
  obtain ⟨_, _, _, responses, collected, parts⟩ := build_ok success
  obtain ⟨_, raw, fields, listed, member, followed, rfl, carries⟩ := responds
  cases parts.listed.symm.trans listed
  obtain ⟨t, typed, stored⟩ :=
    Responses.get?_addAll (apart responses listed) member followed carries parts.collects
  rw [← parts.responses] at stored
  exact ⟨_, Table.mem_values.mpr ⟨_, stored⟩, rfl, typed⟩

/-- A response that means success is written in the type of the result. -/
theorem inside_result_of_respondsWith
    (success : build config models document serviceClass place definition id = .ok o)
    (responds : RespondsWith document definition code v)
    (means : isSuccess code.display = .ok true) {t : TypeExpr}
    (typed : typeAt ("#/responses/" ++ code.display ++ "/schema") v = .ok t) :
    t.text.toList <:+: o.resultType.text.toList := by
  obtain ⟨_, _, _, responses, collected, parts⟩ := build_ok success
  obtain ⟨_, raw, fields, listed, member, followed, rfl, carries⟩ := responds
  cases parts.listed.symm.trans listed
  obtain ⟨types, results, each⟩ := Responses.resultTypes_addAll parts.collects
  have succeeds : (code.display, fields.get "schema") ∈ Responses.successes document responses :=
    List.mem_filterMap.mpr ⟨_, member,
      Responses.success?_eq_some.mpr ⟨fields, followed, carries, means, rfl⟩⟩
  obtain ⟨u, among, own⟩ := exists_of_forall₂ each succeeds
  rw [typed] at own
  cases own
  have listedType : t ∈ collected.resultTypes := by
    rw [results]
    exact List.mem_append_right _ among
  have within : Schema.Inside t collected.resultType True := Responses.inside_resultType listedType
  rw [parts.resultType]
  exact within.written

/-- A parameter is taken with the type of its schema. -/
theorem parameter_of_takes
    (success : build config models document serviceClass place definition id = .ok o)
    {path : String} (takes : Takes document place definition path v) :
    ∃ p ∈ o.parameters, typeAt path v = .ok p.type := by
  obtain ⟨given, read, _, _, _, parts⟩ := build_ok success
  obtain ⟨_, raw, fields, listed, member, followed, schema⟩ := takes
  cases parts.given.symm.trans listed
  obtain ⟨p, among, own⟩ := exists_of_forall₂ (forall₂_of_mapM_ok parts.reads) member
  have typed := Parameter.type_of_ofValue followed own
  rw [schema] at typed
  obtain ⟨q, isTaken, rfl⟩ := List.mem_map.mp ((unmarked_perm parts).mem_iff.mpr among)
  exact ⟨q, isTaken, typed⟩

end Operation

namespace Services

/-- The operation `o` is built from the entry of the paths of a document that stands at `place`,
which defines it by `definition`. -/
structure BuiltAt (config : Config) (models : Table Model) (document : Value) (paths : Fields)
    (place : Operation.Place) (definition : Fields) (o : Operation) : Prop where
  path : (place.url, .object place.item) ∈ paths
  entry : (.text place.method, .object definition) ∈ place.item
  isMethod : isMethod place.method = true
  builds : ∃ serviceClass id,
    Operation.build config models document serviceClass place definition id = .ok o

variable {config : Config} {models : Table Model} {document : Value} {services : Table Service}
  {s : Service} {o : Operation} {r : Response} {p : Parameter}

theorem builtAt_of_ofDocument {fields paths : Fields}
    (success : (ofDocument config models (.object fields)).outcome = .ok services)
    (given : (fields.get "paths").orElse (.object []) = .object paths)
    (member : s ∈ services.values) (running : o ∈ s.operations) :
    ∃ place definition, BuiltAt config models (.object fields) paths place definition o := by
  obtain ⟨definition, url, method, item, serviceClass, id, atPath, inItem, isMethod, own⟩ :=
    builtFrom_of_ofDocument success given member running
  exact ⟨⟨url, method, item⟩, definition, atPath, inItem, isMethod, serviceClass, id, own⟩

/-- What is built from a single path with a single entry is built from that. -/
theorem BuiltAt.single {url : Scalar} {method : String} {only definition : Fields}
    {place : Operation.Place}
    (built : BuiltAt config models document [(url, .object [(.text method, .object only)])] place
      definition o) :
    place = ⟨url, method, [(.text method, .object only)]⟩ ∧ definition = only := by
  obtain ⟨url', method', item⟩ := place
  have path : (url', Value.object item) = _ := List.mem_singleton.mp built.path
  cases path
  have entry : (Scalar.text method', Value.object definition) = _ :=
    List.mem_singleton.mp built.entry
  cases entry
  exact ⟨rfl, rfl⟩

/-- The dependencies of a service are those of the types of all its operations. -/
theorem dependencies_of_ofDocument
    (success : (ofDocument config models document).outcome = .ok services)
    (member : s ∈ services.values) :
    s.dependencies = dependenciesOf models (s.operations.flatMap successTypes) ∧
      s.errorDependencies = dependenciesOf models (s.operations.flatMap errorTypes) := by
  obtain ⟨tag, present⟩ := Table.mem_values.mp member
  obtain ⟨_, _, _, _, _, -, -, -, -, rfl⟩ := filled_of_ofDocument success present
  exact ⟨rfl, rfl⟩

theorem response_mem_successTypes (stored : r ∈ o.responses.values)
    (means : isSuccess r.code = .ok true) : r.type ∈ successTypes o := by
  have kept : meansSuccess r = true := by
    rw [meansSuccess, means]
    rfl
  exact List.mem_append_left _ (List.mem_map_of_mem (List.mem_filter.mpr ⟨stored, kept⟩))

theorem parameter_mem_successTypes (taken : p ∈ o.parameters) : p.type ∈ successTypes o :=
  List.mem_append_right _ (List.mem_map_of_mem taken)

theorem response_mem_errorTypes (stored : r ∈ o.responses.values)
    (number : Text.isDigits r.code = true) (other : isSuccess r.code = .ok false) :
    r.type ∈ errorTypes o := by
  have kept : (Text.isDigits r.code && !meansSuccess r) = true := by
    rw [meansSuccess, number, other]
    rfl
  exact List.mem_map_of_mem (List.mem_filter.mpr ⟨stored, kept⟩)

/-- The service imports the models that an operation refers to, which stands at `place` and is
defined by `definition`: for its parameters and its result, and apart from them for its errors. -/
structure ImportsAll (models : Table Model) (document : Value) (place : Operation.Place)
    (definition : Fields) (s : Service) (o : Operation) : Prop where
  parameter : ∀ path v name d, Operation.Takes document place definition path v →
    Schema.RefersTo models path v name d →
    (∃ p ∈ o.parameters, name.toList <:+: p.type.text.toList) ∧ d.className ∈ s.dependencies
  result : ∀ code v name d, Operation.RespondsWith document definition code v →
    isSuccess code.display = .ok true →
    Schema.RefersTo models ("#/responses/" ++ code.display ++ "/schema") v name d →
    name.toList <:+: o.resultType.text.toList ∧ d.className ∈ s.dependencies
  error : ∀ code v name d, Operation.RespondsWith document definition code v →
    Text.isDigits code.display = true → isSuccess code.display = .ok false →
    Schema.RefersTo models ("#/responses/" ++ code.display ++ "/schema") v name d →
    (∃ r ∈ o.responses.values, r.code = code.display ∧ name.toList <:+: r.type.text.toList) ∧
      d.className ∈ s.errorDependencies

/-- A service with the dependencies of the types of its operations imports what one of them refers
to. -/
theorem importsAll_of_build {serviceClass id : String} {place : Operation.Place}
    {definition : Fields} (keyed : Keyed models)
    (built : Operation.build config models document serviceClass place definition id = .ok o)
    (apart : Operation.CodesApart definition) (running : o ∈ s.operations)
    (dependencies : s.dependencies = dependenciesOf models (s.operations.flatMap successTypes))
    (errorDependencies :
      s.errorDependencies = dependenciesOf models (s.operations.flatMap errorTypes)) :
    ImportsAll models document place definition s o := by
  constructor
  · intro path v name d takes refers
    obtain ⟨p, taken, typed⟩ := Operation.parameter_of_takes built takes
    have looked : p.type ∈ s.operations.flatMap successTypes :=
      List.mem_flatMap.mpr ⟨o, running, parameter_mem_successTypes taken⟩
    rw [dependencies]
    exact ⟨⟨p, taken, refers.written typed⟩, refers.imported typed keyed looked⟩
  · intro code v name d responds means refers
    obtain ⟨r, stored, sameCode, typed⟩ := Operation.response_of_respondsWith built apart responds
    have inResult := Operation.inside_result_of_respondsWith built responds means typed
    have looked : r.type ∈ s.operations.flatMap successTypes :=
      List.mem_flatMap.mpr ⟨o, running, response_mem_successTypes stored (sameCode ▸ means)⟩
    rw [dependencies]
    exact ⟨(refers.written typed).trans inResult, refers.imported typed keyed looked⟩
  · intro code v name d responds number other refers
    obtain ⟨r, stored, sameCode, typed⟩ := Operation.response_of_respondsWith built apart responds
    have looked : r.type ∈ s.operations.flatMap errorTypes :=
      List.mem_flatMap.mpr
        ⟨o, running, response_mem_errorTypes stored (sameCode ▸ number) (sameCode ▸ other)⟩
    rw [errorDependencies]
    exact ⟨⟨r, stored, sameCode, refers.written typed⟩, refers.imported typed keyed looked⟩

/-- The imports of a service name models of the table, each once. They are complete: if no two
responses of an operation have the same code, each model that its result or a parameter refers to is
imported, and each model that the response to an error refers to is imported for errors. A reference
that is printed in tuples of a negative length only may be left out. -/
theorem references_imported {fields : Fields}
    (modelsBuilt : (Models.ofDefinitions config (Api.definitionsOf fields)).outcome = .ok models)
    (built : (ofDocument config models (.object fields)).outcome = .ok services)
    (member : s ∈ services.values) :
    (s.dependencies.Nodup ∧ ∀ name ∈ s.dependencies, Named models name) ∧
    (s.errorDependencies.Nodup ∧ ∀ name ∈ s.errorDependencies, Named models name) ∧
    ∀ o ∈ s.operations, ∃ paths place definition,
      (fields.get "paths").orElse (.object []) = .object paths ∧
      BuiltAt config models (.object fields) paths place definition o ∧
      (Operation.CodesApart definition →
        ImportsAll models (.object fields) place definition s o) := by
  have keyed := (Models.closed_ofDefinitions modelsBuilt).keyed
  obtain ⟨tag, present⟩ := Table.mem_values.mp member
  obtain ⟨named, distinct, namedErrors, distinctErrors⟩ :=
    collected_of_ofDocument keyed built present
  obtain ⟨dependencies, errorDependencies⟩ := dependencies_of_ofDocument built member
  refine ⟨⟨.of_map _ distinct, named⟩, ⟨.of_map _ distinctErrors, namedErrors⟩, ?_⟩
  intro o running
  obtain ⟨_, paths, _, _, same, given, -, -, -⟩ := ofDocument_eq_ok.mp built
  cases same
  obtain ⟨place, definition, builtAt⟩ := builtAt_of_ofDocument built given member running
  obtain ⟨serviceClass, id, own⟩ := builtAt.builds
  refine ⟨paths, place, definition, given, builtAt, ?_⟩
  intro apart
  exact importsAll_of_build keyed own apart running dependencies errorDependencies

open Api (refTo objectSchema arraySchema)

/-- The definition of an operation that takes an owner and gives pets, or tells of a problem. -/
def addOwner : Fields :=
  [(.text "operationId", .text "addOwner"),
    (.text "parameters", .list [.object [
      (.text "name", .text "owner"), (.text "in", .text "body"), (.text "schema", refTo "Owner")]]),
    (.text "responses", .object [
      (.text "200", .object [(.text "schema", .object (arraySchema (refTo "Pet")))]),
      (.text "404", .object [(.text "schema", refTo "Problem")])])]

/-- The paths of a document whose one operation adds owners. -/
def ownerPaths : Fields :=
  [(.text "/owners", .object [(.text "post", .object addOwner)])]

/-- A document whose service refers to a model in each of the places that are looked through. -/
def ownerFields : Fields :=
  [(.text "definitions", .object [
      (.text "Owner", .object objectSchema), (.text "Pet", .object objectSchema),
      (.text "Problem", .object objectSchema)]),
    (.text "paths", .object ownerPaths)]

/-- The service for owners imports the owner that it takes, the pet that it gives and, for errors,
the problem that it tells of. -/
theorem references_imported_owners : ∃ models services s,
    (Models.ofDefinitions {} (Api.definitionsOf ownerFields)).outcome = .ok models ∧
    (ofDocument {} models (.object ownerFields)).outcome = .ok services ∧
    s ∈ services.values ∧ s.dependencies.Nodup ∧ "Owner" ∈ s.dependencies ∧
    "Pet" ∈ s.dependencies ∧ "Problem" ∈ s.errorDependencies := by
  obtain ⟨models, services, modelsBuilt, built, classes, count⟩ : ∃ models services,
      (Models.ofDefinitions {} (Api.definitionsOf ownerFields)).outcome = .ok models ∧
      (ofDocument {} models (.object ownerFields)).outcome = .ok services ∧
      (models.map Model.className).entries =
        [("owner", "Owner"), ("pet", "Pet"), ("problem", "Problem")] ∧
      services.values.map (fun s => s.operations.length) = [1] :=
    ⟨_, _, by cbv, by cbv, by cbv, by cbv⟩
  obtain ⟨s, one, ofService⟩ := List.map_eq_singleton_iff.mp count
  obtain ⟨o, alone⟩ := List.length_eq_one_iff.mp ofService
  have member : s ∈ services.values := by simp [one]
  obtain ⟨⟨distinct, -⟩, -, each⟩ := references_imported modelsBuilt built member
  obtain ⟨paths, place, definition, given, builtAt, complete⟩ := each o (by simp [alone])
  have samePaths : Value.object ownerPaths = .object paths := given
  cases samePaths
  obtain ⟨rfl, rfl⟩ := builtAt.single
  have apart : Operation.CodesApart addOwner := by
    intro responses listed
    cases listed
    decide
  have imports := complete apart
  have behind (key className : String) (entry : (key, className) ∈
      [("owner", "Owner"), ("pet", "Pet"), ("problem", "Problem")]) :
      ∃ d, models.get? key = some d ∧ d.className = className :=
    Table.mem_entries_map.mp (classes ▸ entry)
  refine ⟨models, services, s, modelsBuilt, built, member, distinct, ?_, ?_, ?_⟩
  · obtain ⟨owner, found, named⟩ := behind "owner" "Owner" (by simp)
    have keeps : Schema.KeepsClass "#/parameters/owner/schema" (refTo "Owner") "Owner" :=
      ⟨_, _, _, by cbv, .refl, by cbv⟩
    have taken := imports.parameter _ _ _ owner
      ⟨_, _, _, rfl, List.mem_singleton_self _, by cbv, by cbv⟩ ⟨keeps, by decide, found⟩
    exact named ▸ taken.2
  · obtain ⟨pet, found, named⟩ := behind "pet" "Pet" (by simp)
    have keeps : Schema.KeepsClass "#/responses/200/schema" (.object (arraySchema (refTo "Pet")))
        "Pet" :=
      ⟨_, _, _, by cbv, .single ⟨.items, trivial⟩, by cbv⟩
    have result := imports.result (.text "200") _ _ pet
      ⟨_, _, _, rfl, List.mem_cons_self, by cbv, by cbv, by simp⟩ (by decide)
      ⟨keeps, by decide, found⟩
    exact named ▸ result.2
  · obtain ⟨problem, found, named⟩ := behind "problem" "Problem" (by simp)
    have keeps : Schema.KeepsClass "#/responses/404/schema" (refTo "Problem") "Problem" :=
      ⟨_, _, _, by cbv, .refl, by cbv⟩
    have error := imports.error (.text "404") _ _ problem
      ⟨_, _, _, rfl, List.mem_cons_of_mem _ List.mem_cons_self, by cbv, by cbv, by simp [refTo]⟩
      (by decide) (by decide) ⟨keeps, by decide, found⟩
    exact named ▸ error.2

def getPairs : Fields :=
  [(.text "operationId", .text "getPairs"),
    (.text "responses", .object [
      (.text "200", .object [(.text "schema", .object Api.pairSchema)])])]

/-- The paths of a document whose one operation gives pairs. -/
def pairPaths : Fields :=
  [(.text "/pairs", .object [(.text "get", .object getPairs)])]

def pairFields : Fields :=
  [(.text "definitions", .object [
      (.text "Pet", .object objectSchema), (.text "x", .object objectSchema)]),
    (.text "paths", .object pairPaths)]

/-- A success prints the class of a model inside a tuple of a negative length, and the service does
not import the class. -/
theorem reference_without_import : ∃ models services s o place parsed origin d,
    (Models.ofDefinitions {} (Api.definitionsOf pairFields)).outcome = .ok models ∧
    (ofDocument {} models (.object pairFields)).outcome = .ok services ∧
    s ∈ services.values ∧ o ∈ s.operations ∧
    BuiltAt {} models (.object pairFields) pairPaths place getPairs o ∧
    Operation.CodesApart getPairs ∧
    Operation.RespondsWith (.object pairFields) getPairs (.text "200") (.object Api.pairSchema) ∧
    isSuccess "200" = .ok true ∧
    Schema.parse "#/responses/200/schema" (.object Api.pairSchema) = .ok parsed ∧
    parsed.Prints (.ref origin (.text (Model.definitionPath "x"))) ∧
    Naming.classOfRef? (.text (Model.definitionPath "x")) = .ok (some "X") ∧
    models.get? (Naming.key "X") = some d ∧ o.resultType.text = "[Pet, X] | [] | [Pet]" ∧
    d.className ∉ s.dependencies := by
  obtain ⟨models, services, modelsBuilt, built, classes, results⟩ : ∃ models services,
      (Models.ofDefinitions {} (Api.definitionsOf pairFields)).outcome = .ok models ∧
      (ofDocument {} models (.object pairFields)).outcome = .ok services ∧
      (models.map Model.className).entries = [("pet", "Pet"), ("x", "X")] ∧
      services.values.map (fun s => (s.operations.map fun o => o.resultType.text, s.dependencies)) =
        [(["[Pet, X] | [] | [Pet]"], ["Pet"])] :=
    ⟨_, _, by cbv, by cbv, by cbv, by cbv⟩
  obtain ⟨s, one, ofService⟩ := List.map_eq_singleton_iff.mp results
  rw [Prod.mk.injEq] at ofService
  obtain ⟨o, alone, text⟩ := List.map_eq_singleton_iff.mp ofService.1
  have member : s ∈ services.values := by simp [one]
  have running : o ∈ s.operations := by simp [alone]
  have given : (Fields.get pairFields "paths").orElse (.object []) = .object pairPaths := rfl
  obtain ⟨place, definition, builtAt⟩ := builtAt_of_ofDocument built given member running
  obtain ⟨rfl, rfl⟩ := builtAt.single
  have inModels : ("x", "X") ∈ (models.map Model.className).entries := by simp [classes]
  obtain ⟨d, found, named⟩ := Table.mem_entries_map.mp inModels
  have apart : Operation.CodesApart getPairs := by
    intro responses listed
    cases listed
    decide
  -- the two first of three places are those of the length minus one
  have printed (o p : Origin) (pet : Schema) :
      Schema.Prints (.tuple o [pet, .ref p (.text (Model.definitionPath "x"))] (.int (-1))
        (.int 1) none) (.ref p (.text (Model.definitionPath "x"))) :=
    @Schema.Prints.place _ _ _ _ _ (-1) 1 (-1) _ rfl rfl rfl (by decide) (by decide)
      (List.mem_cons_of_mem _ (List.mem_singleton_self _))
  refine ⟨models, services, s, o, _, _, _, d, modelsBuilt, built, member, running, builtAt, apart,
    ⟨_, _, _, rfl, List.mem_singleton_self _, by cbv, by cbv, by simp⟩, by decide, by cbv,
    printed _ _ (.ref ⟨_, .null⟩ (.text (Model.definitionPath "Pet"))), by cbv, found, text, ?_⟩
  rw [named, ofService.2]
  decide

end Services

end ClientGen
