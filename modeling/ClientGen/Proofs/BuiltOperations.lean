import ClientGen.Proofs.Runs
import ClientGen.Service.Operation

/-!
# Built operations

The build of an operation reads its parameters and collects its responses, and fails where one of
them does. `Operation.build_ok` opens a successful build once: it names what was read on the way
and says how the fields of the operation follow from it. `Parameter.ofValue_ok` does the same for
the reading of a parameter.
-/
namespace ClientGen

/-- The parameter `p` is read from the fields that a value of the document leads to, and its
identifier from the pieces of its name. -/
structure Parameter.ReadFrom (document v : Value) (inContainer : Bool) (fields : Fields)
    (pieces : List Naming.Piece) (p : Parameter) : Prop where
  followed : Reference.follow document v = .ok (.object fields)
  name : p.name = textOr fields "name"
  location : p.location = textOr fields "in"
  type : typeOf p.name fields = .ok p.type
  named : Naming.valuePieces p.name = .ok pieces
  identifier : p.identifier = Naming.identifierOf pieces
  access : p.access = scope inContainer ++ p.identifier
  toJson : p.toJson = needsJson p.location (fields.get "enum") p.type
  isLast : p.isLast = false

theorem Parameter.ofValue_ok {document v : Value} {inContainer : Bool} {p : Parameter}
    (success : ofValue document v inContainer = .ok p) :
    ∃ fields pieces, ReadFrom document v inContainer fields pieces p := by
  unfold ofValue at success
  obtain ⟨followed, leads, success⟩ := bind_eq_ok.mp success
  obtain ⟨fields, object, success⟩ := bind_eq_ok.mp success
  obtain ⟨type, typed, success⟩ := bind_eq_ok.mp success
  obtain ⟨pieces, named, success⟩ := bind_eq_ok.mp success
  cases success
  rw [Value.asFields_eq_ok.mp object] at leads
  exact ⟨fields, pieces, leads, rfl, rfl, typed, named, rfl, rfl, rfl, rfl⟩

namespace Operation

/-- The operation `o` with the id `id` is built from the parameters `raw`, which are read and
sorted, and from the responses that are collected. -/
structure BuiltWith (config : Config) (models : Table Model) (document : Value) (place : Place)
    (definition : Fields) (id : String) (raw : List Value) (read sorted : List Parameter)
    (responses : Fields) (collected : Responses) (o : Operation) : Prop where
  given : rawParameters place definition = .ok raw
  reads : raw.mapM (fun v => Parameter.ofValue document v o.paramsClass.isSome) = .ok read
  sorts : Parameter.sort config.sortParams read = .ok sorted
  listed : (definition.get "responses").orElse (.object []) = .object responses
  collects : ({} : Responses).addAll document responses = .ok collected
  name : o.name = if config.camelCase then Text.lowerFirst id else id
  method : o.method = Text.upper place.method
  path : o.path = place.url
  paramsClass : o.paramsClass = paramsClassFor config id raw.length
  parameters : o.parameters = markLast (fun p => { p with isLast := true }) sorted
  responses : o.responses = collected.table
  resultType : o.resultType = collected.resultType
  resultKind : o.resultKind = .classify models o.resultType

theorem build_ok {config : Config} {models : Table Model} {document : Value}
    {serviceClass id : String} {place : Place} {definition : Fields} {o : Operation}
    (success : build config models document serviceClass place definition id = .ok o) :
    ∃ raw read sorted responses collected, BuiltWith config models document place definition id
      raw read sorted responses collected o := by
  unfold build at success
  obtain ⟨raw, given, success⟩ := bind_eq_ok.mp success
  obtain ⟨read, each, success⟩ := bind_eq_ok.mp success
  obtain ⟨sorted, inOrder, success⟩ := bind_eq_ok.mp success
  obtain ⟨pathExpression, -, success⟩ := bind_eq_ok.mp success
  obtain ⟨responses, listed, success⟩ := bind_eq_ok.mp success
  obtain ⟨collected, added, success⟩ := bind_eq_ok.mp success
  obtain ⟨resultDescription, -, success⟩ := bind_eq_ok.mp success
  obtain ⟨summary, -, success⟩ := bind_eq_ok.mp success
  obtain ⟨details, -, success⟩ := bind_eq_ok.mp success
  obtain ⟨description, -, success⟩ := bind_eq_ok.mp success
  cases success
  exact ⟨raw, read, sorted, responses, collected, given, each, inOrder,
    Value.asFields_eq_ok.mp listed, added, rfl, rfl, rfl, rfl, rfl, rfl, rfl, rfl⟩

end Operation

end ClientGen
