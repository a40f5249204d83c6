import Mathlib
import ClientGen.Client.Render
import ClientGen.Proofs.Compilation
import ClientGen.Proofs.OperationIds
import ClientGen.Proofs.PrintedTypes
import ClientGen.Proofs.ServiceTable
import ClientGen.Proofs.SharedParameters
import ClientGen.Proofs.StringLiterals

/-!
# The literals of a service

The file of a service holds the path of each operation, and the name of each parameter that is sent
by its name, as literals between single quotes. They are written there as they are. What follows
them on the line is plain, so that a literal reads as the text of the document exactly if that text
is plain (`literals_denote_iff`): a quote ends the literal too early, and a backslash stands for
something else.
-/
namespace ClientGen

namespace Naming

/-- Of the values that can be looked up by only texts have pieces. -/
theorem text_of_valuePieces {v : Value} {name : List Piece} (key : Path.isKey v = true)
    (success : valuePieces v = .ok name) : ∃ s, v = .text s ∧ name = pieces s := by
  cases v with
  | scalar given =>
    cases given with
    | text s =>
      rw [valuePieces_text] at success
      cases success
      exact ⟨s, rfl, rfl⟩
    | _ => cases success
  | list items => cases key
  | object fields => cases key

theorem isPlain_of_isAlnum {c : Char} (alnum : isAlnum c = true) :
    StringLiteral.IsPlain '\x27' c := by
  have word : Token.isWordChar c = true := by simp [Token.isWordChar, isBare, isWord, alnum]
  obtain ⟨-, noQuote, noBreak⟩ := Token.of_isWordChar word
  refine ⟨?_, ?_, noBreak⟩
  · rintro rfl
    cases noQuote
  · rintro rfl
    cases alnum

end Naming

open StringLiteral

/-- A parameter that can be looked up is named by a text, from which its identifier follows. -/
theorem Parameter.named_of_ofValue {document v : Value} {inContainer : Bool} {p : Parameter}
    (success : ofValue document v inContainer = .ok p) (key : Path.isKey p.name = true) :
    ∃ name, p.name = .text name ∧ p.identifier = Naming.identifier name ∧
      p.access = scope inContainer ++ p.identifier := by
  obtain ⟨fields, pieces, read⟩ := ofValue_ok success
  obtain ⟨name, same, rfl⟩ := Naming.text_of_valuePieces key read.named
  exact ⟨name, same, read.identifier, read.access⟩

/-- What the code reads a parameter from can stand between quotes. -/
theorem Parameter.plain_access {document v : Value} {inContainer : Bool} {p : Parameter}
    (read : ofValue document v inContainer = .ok p) (key : Path.isKey p.name = true) :
    Plain '\x27' p.access.toList := by
  obtain ⟨name, -, identifier, access⟩ := named_of_ofValue read key
  have ofScope : Plain '\x27' (scope inContainer).toList := by
    cases inContainer <;> decide
  intro c member
  rw [access, identifier, String.toList_append] at member
  rcases List.mem_append.mp member with first | later
  · exact ofScope c first
  · exact Naming.isPlain_of_isAlnum (Naming.isAlnum_of_mem_identifier later)

namespace Operation

variable {config : Config} {models : Table Model} {document : Value} {serviceClass id : String}
  {place : Place} {definition : Fields} {o : Operation} {p : Parameter}

/-- The path is made into a template with the parameters of the operation. -/
theorem expression_of_build
    (success : build config models document serviceClass place definition id = .ok o) :
    Path.expression o.parameters o.paramsClass.isSome o.path = .ok o.pathExpression := by
  unfold build at success
  obtain ⟨raw, -, success⟩ := bind_eq_ok.mp success
  obtain ⟨read, -, success⟩ := bind_eq_ok.mp success
  obtain ⟨sorted, -, success⟩ := bind_eq_ok.mp success
  obtain ⟨pathExpression, expressed, success⟩ := bind_eq_ok.mp success
  obtain ⟨responses, -, success⟩ := bind_eq_ok.mp success
  obtain ⟨collected, -, success⟩ := bind_eq_ok.mp success
  obtain ⟨resultDescription, -, success⟩ := bind_eq_ok.mp success
  obtain ⟨summary, -, success⟩ := bind_eq_ok.mp success
  obtain ⟨details, -, success⟩ := bind_eq_ok.mp success
  obtain ⟨description, -, success⟩ := bind_eq_ok.mp success
  cases success
  exact expressed

theorem isKey_of_build
    (success : build config models document serviceClass place definition id = .ok o)
    (member : p ∈ o.parameters) : Path.isKey p.name = true := by
  have expressed := expression_of_build success
  unfold Path.expression at expressed
  split at expressed
  · rename_i keys
    exact List.all_eq_true.mp keys p member
  · cases expressed

/-- Each parameter of an operation is read from a value of the document, before it is marked. -/
theorem ofValue_of_mem_parameters
    (success : build config models document serviceClass place definition id = .ok o)
    (member : p ∈ o.parameters) :
    ∃ v, Parameter.ofValue document v o.paramsClass.isSome = .ok p.unmarked := by
  obtain ⟨raw, read, sorted, _, _, parts⟩ := build_ok success
  have among : p.unmarked ∈ read :=
    (unmarked_perm parts).mem_iff.mp (List.mem_map_of_mem member)
  obtain ⟨v, -, made⟩ := exists_of_forall₂ (forall₂_of_mapM_ok parts.reads).flip among
  exact ⟨v, made⟩

/-- The parameters of an operation are named by texts, from which their identifiers follow. -/
theorem named_of_build
    (success : build config models document serviceClass place definition id = .ok o)
    (member : p ∈ o.parameters) :
    ∃ name, p.name = .text name ∧ p.identifier = Naming.identifier name ∧
      p.access = Parameter.scope o.paramsClass.isSome ++ p.identifier := by
  have key : Path.isKey p.name = true := isKey_of_build success member
  obtain ⟨v, read⟩ := ofValue_of_mem_parameters success member
  have named := Parameter.named_of_ofValue read key
  exact named

theorem plain_access
    (success : build config models document serviceClass place definition id = .ok o)
    (member : p ∈ o.parameters) : Plain '\x27' p.access.toList := by
  have key : Path.isKey p.name = true := isKey_of_build success member
  obtain ⟨v, made⟩ := ofValue_of_mem_parameters success member
  have plain := Parameter.plain_access made key
  exact plain

end Operation

/-- The operations of a compiled document are built from it. -/
theorem Api.exists_build {config : Config} {document : Value} {api : Api} {s : Service}
    {o : Operation} (success : (compile config document).outcome = .ok api)
    (member : s ∈ api.services.values) (running : o ∈ s.operations) :
    ∃ models serviceClass place definition id,
      Operation.build config models document serviceClass place definition id = .ok o := by
  obtain ⟨fields, models, services, finished, stages⟩ := compile_eq_ok.mp success
  obtain ⟨tag, present⟩ := Table.mem_values.mp member
  obtain ⟨built, kept, finishes⟩ := stages.kept_of_service present
  have there : built ∈ services.values :=
    Table.mem_values.mpr ⟨tag, (Table.get?_filter_eq_some.mp kept).1⟩
  have same : s.operations = built.operations := by rw [finishes]
  rw [same] at running
  have made := stages.servicesBuilt
  rw [stages.object] at made ⊢
  obtain ⟨_, paths, _, _, object, given, -⟩ := Services.ofDocument_eq_ok.mp made
  cases object
  obtain ⟨definition, url, method, item, serviceClass, id, -, -, -, own⟩ :=
    Services.builtFrom_of_ofDocument made given there running
  exact ⟨models, serviceClass, _, definition, id, own⟩

namespace Client

/-- A text between single quotes, as it is. -/
def between (s : String) : String := "\x27" ++ s ++ "\x27"

/-- What stands before the path in the constant that holds it. -/
def pathLead (o : Operation) : String := "  static readonly " ++ Text.upperFirst o.name ++ "Path = "

/-- The places of a request where a parameter is sent by its name. -/
def namedPlaces : List Value := [.text "query", .text "header", .text "formData"]

/-- In the file of `text`, `behind` follows the opening quote of the literal that the text has
between `lead` and `tail`. -/
def Follows (text file lead literal tail behind : String) : Prop :=
  ∃ front back, text = front ++ lead ++ literal ++ tail ++ back ∧
    file = trimLines (front ++ lead ++ "\x27") ++ behind

/-- What follows an opening quote reads as the text `v`. -/
def Denotes (behind : String) (v : Value) : Prop :=
  ∃ s, v = .text s ∧ value? '\x27' behind.toList = some (encode s.toList)

/-- The value `v` is a text that can stand between single quotes as it is. -/
def IsPlainText (v : Value) : Prop := ∃ s, v = .text s ∧ Plain '\x27' s.toList

/-- The file of `text` has a literal for the value `v` between `lead` and `tail`. It reads as `v`
exactly if `v` is a plain text. -/
structure ReadsIfPlain (text file lead tail : String) (v : Value) : Prop where
  present : ∃ behind, Follows text file lead (between v.display) tail behind
  denotes : ∀ behind, Follows text file lead (between v.display) tail behind →
    (Denotes behind v ↔ IsPlainText v)

variable {g : Globals} {s : Service} {o : Operation} {p : Parameter} {text file lead tail : String}
  {v : Value} {imports : List Model}

/-- The file of a text is cut at a quote into the files of both parts. -/
theorem trimLines_quote (front back : String) :
    trimLines (front ++ "\x27" ++ back) = trimLines (front ++ "\x27") ++ trimLines back :=
  trimLines_append (c := '\x27') (by decide) (by simp) back

/-- A literal in a text is found in the file of the text. -/
theorem exists_follows {inside : String}
    (within : (lead ++ between inside ++ tail).toList <:+: text.toList) :
    ∃ behind, Follows text (trimLines text) lead (between inside) tail behind := by
  obtain ⟨front, back, same⟩ := within
  refine ⟨trimLines (inside ++ "\x27" ++ tail ++ String.ofList back), String.ofList front,
    String.ofList back, ?_, ?_⟩
  · rw [← String.toList_inj, ← same]
    simp
  · rw [← trimLines_quote]
    congr 1
    rw [← String.toList_inj, ← same]
    simp [between]

/-- Behind the opening quote of a literal what is inside follows, the closing quote and the tail. -/
theorem Follows.toList_behind {inside behind : String}
    (follows : Follows text (trimLines text) lead (between inside) tail behind) :
    ∃ back, behind.toList =
      Text.trimmed true (inside.toList ++ '\x27' :: (tail.toList ++ back)) := by
  obtain ⟨front, back, same, cut⟩ := follows
  have parted : text = front ++ lead ++ "\x27" ++ (inside ++ "\x27" ++ tail ++ back) := by
    rw [same]
    simp [between, String.append_assoc]
  rw [parted, trimLines_quote, String.append_right_inj] at cut
  refine ⟨back.toList, ?_⟩
  rw [← cut, toList_trimLines]
  simp

/-- A literal reads as its text exactly if that is plain, where the rest of its line is plain. -/
theorem readsIfPlain_of_infix
    (within : (lead ++ between v.display ++ tail).toList <:+: text.toList)
    (ends : EndsPlainly '\x27' tail.toList) : ReadsIfPlain text (trimLines text) lead tail v where
  present := exists_follows within
  denotes := by
    intro behind follows
    obtain ⟨back, trimmed⟩ := follows.toList_behind
    unfold Denotes IsPlainText
    refine exists_congr fun s => and_congr_right ?_
    rintro rfl
    rw [trimmed]
    exact value?_trimmed_iff (by decide) (ends.append back)

theorem valueText_ok {value : String} (success : valueText p = .ok value) :
    value = p.access ++ ".toString()" ∨
      ∃ separator, value = p.access ++ ".join(\x27" ++ separator ++ "\x27)" := by
  unfold valueText at success
  dsimp only at success
  split at success
  · split at success
    · split at success
      · cases success
        exact .inr ⟨_, rfl⟩
      · cases success
        exact .inl rfl
    · cases success
  · cases success
    exact .inl rfl

/-- Behind the name of a parameter its value follows: the line ends, or a literal opens, behind
plain characters. -/
theorem endsPlainly_value {value : String} (plain : Plain '\x27' p.access.toList)
    (success : valueText p = .ok value) :
    EndsPlainly '\x27' (", " ++ value ++ ");" ++ "\n").toList := by
  rcases valueText_ok success with rfl | ⟨separator, rfl⟩
  · exact endsPlainly_around ", ".toList ".toString())".toList ';' '\n' [] (by simp) plain
      (by decide) (by decide) (by decide) (.inl rfl)
  · exact endsPlainly_around ", ".toList ".join".toList '(' '\x27'
      (separator.toList ++ "\x27));\n".toList) (by simp) plain (by decide) (by decide) (by decide)
      (.inr rfl)

/-- A statement has the name of the parameter as its first literal, and what follows is plain. -/
def NamesFirst (p : Parameter) (statement : String) : Prop :=
  ∃ lead tail, statement = lead ++ nameLiteral p ++ tail ∧ '\x27' ∉ lead.toList ∧
    EndsPlainly '\x27' tail.toList

theorem namesFirst_whenGiven {start value close : String} (plain : Plain '\x27' p.access.toList)
    (unquoted : '\x27' ∉ start.toList)
    (ends : EndsPlainly '\x27' (", " ++ value ++ close ++ "\n").toList) :
    NamesFirst p (whenGiven p (start ++ nameLiteral p ++ ", " ++ value ++ close)) := by
  have noQuote : '\x27' ∉ p.access.toList := fun member => (plain _ member).1 rfl
  refine ⟨"    if (" ++ p.access ++ " != null) " ++ start, ", " ++ value ++ close ++ "\n", ?_, ?_,
    ends⟩
  · simp only [whenGiven, String.append_assoc]
  · simp [noQuote, unquoted]

theorem namesFirst_querySending {statement : String} (plain : Plain '\x27' p.access.toList)
    (success : querySending p = .ok statement) : NamesFirst p statement := by
  have noQuote : '\x27' ∉ p.access.toList := fun member => (plain _ member).1 rfl
  unfold querySending at success
  split at success
  · rw [Except.ok.injEq] at success
    subst success
    refine ⟨"    (" ++ p.access ++ " || []).forEach(val => \x7bif (val != null) __params = " ++
      "__params.append(", ", val.toString())\x7d);\n", by simp only [String.append_assoc],
      by simp [noQuote], ?_⟩
    exact ⟨", val.toString())\x7d)".toList, ';', '\n', [], rfl, by decide, by decide, .inl rfl⟩
  · obtain ⟨value, made, success⟩ := bind_eq_ok.mp success
    cases success
    exact namesFirst_whenGiven plain (by decide) (endsPlainly_value plain made)

theorem namesFirst_formSending (plain : Plain '\x27' p.access.toList) :
    NamesFirst p (formSending p) := by
  unfold formSending
  dsimp only
  split
  · exact namesFirst_whenGiven plain (by decide) (endsPlainly_around ", JSON.stringify(".toList
      "));".toList '\x7d' '\n' [] (by simp) plain (by decide) (by decide) (by decide) (.inl rfl))
  · exact namesFirst_whenGiven plain (by decide) (endsPlainly_around ", ".toList
      " as string | Blob);".toList '\x7d' '\n' [] (by simp) plain (by decide) (by decide)
      (by decide) (.inl rfl))

/-- What is sent by its name is named first in its statement. -/
theorem namesFirst_sending {statement : String} (named : p.location ∈ namedPlaces)
    (plain : Plain '\x27' p.access.toList) (success : sending p = .ok statement) :
    NamesFirst p statement := by
  simp only [namedPlaces, List.mem_cons, List.not_mem_nil, or_false] at named
  unfold sending at success
  rcases named with inQuery | inHeader | inForm
  · rw [inQuery] at success
    exact namesFirst_querySending plain success
  · rw [inHeader] at success
    obtain ⟨value, made, success⟩ := bind_eq_ok.mp success
    cases success
    exact namesFirst_whenGiven plain (by decide) (endsPlainly_value plain made)
  · rw [inForm] at success
    cases success
    exact namesFirst_formSending plain

/-- The statements that send the parameters of an operation stand in its methods. -/
theorem infix_methods {config : Config} {serviceClass both : String}
    (success : methods config serviceClass o = .ok both) (member : p ∈ o.parameters) :
    ∃ statement, sending p = .ok statement ∧ statement.toList <:+: both.toList := by
  obtain ⟨response, responds, success⟩ := bind_eq_ok.mp success
  obtain ⟨content, -, success⟩ := bind_eq_ok.mp success
  cases success
  obtain ⟨description, -, responds⟩ := bind_eq_ok.mp responds
  obtain ⟨sendings, sent, responds⟩ := bind_eq_ok.mp responds
  simp only [pure, Except.pure, Except.ok.injEq] at responds
  subst responds
  obtain ⟨statement, among, made⟩ := exists_of_forall₂ (forall₂_of_mapM_ok sent) member
  refine ⟨statement, made, (Text.infix_join among).trans ?_⟩
  repeat first
    | with_reducible exact Text.infix_append_self _ _
    | with_reducible refine Text.infix_append_of_left ?_ _

/-- The constants for the paths and the methods of all operations stand in the file of a service. -/
theorem infix_serviceFile (success : serviceFile g imports s = .ok text)
    (member : o ∈ s.operations) :
    (pathConstant o ++ "\n").toList <:+: text.toList ∧
      ∃ both, methods g.config s.className o = .ok both ∧ both.toList <:+: text.toList := by
  obtain ⟨description, -, success⟩ := bind_eq_ok.mp success
  obtain ⟨all, made, success⟩ := bind_eq_ok.mp success
  obtain ⟨containers, -, success⟩ := bind_eq_ok.mp success
  simp only [pure, Except.pure, Except.ok.injEq] at success
  subst success
  obtain ⟨both, among, own⟩ := exists_of_forall₂ (forall₂_of_mapM_ok made) member
  constructor
  · refine (infix_unlines (List.mem_map_of_mem member)).trans ?_
    repeat first
      | with_reducible exact Text.infix_append_self _ _
      | with_reducible refine Text.infix_append_of_left ?_ _
  · refine ⟨both, own, (Text.infix_join among).trans ?_⟩
    repeat first
      | with_reducible exact Text.infix_append_self _ _
      | with_reducible refine Text.infix_append_of_left ?_ _

theorem pathConstant_eq (o : Operation) :
    pathConstant o ++ "\n" = pathLead o ++ between (Value.scalar o.path).display ++ ";\n" := by
  have opening : "Path = \x27" = "Path = " ++ "\x27" := by decide
  have closing : "\x27;" ++ "\n" = "\x27" ++ ";\n" := by decide
  unfold pathConstant pathLead between Value.display
  rw [opening]
  simp only [String.append_assoc]
  rw [closing]

/-- The literal of the path of an operation reads as the path exactly if that is a plain text. -/
theorem path_readsIfPlain (made : serviceFile g imports s = .ok text)
    (running : o ∈ s.operations) :
    ReadsIfPlain text (trimLines text) (pathLead o) ";\n" (.scalar o.path) := by
  apply readsIfPlain_of_infix
  · rw [← pathConstant_eq]
    exact (infix_serviceFile made running).1
  · exact ⟨[], ';', '\n', [], rfl, by decide, by decide, .inl rfl⟩

/-- The literal of the name of a parameter, the first one of the statement that sends it, reads as
the name exactly if that is a plain text. -/
theorem name_readsIfPlain {config : Config} {document : Value} {api : Api}
    (compiled : (Api.compile config document).outcome = .ok api) (member : s ∈ api.services.values)
    (made : serviceFile g imports s = .ok text) (running : o ∈ s.operations)
    (taken : p ∈ o.parameters) (named : p.location ∈ namedPlaces) :
    ∃ lead tail, sending p = .ok (lead ++ nameLiteral p ++ tail) ∧ '\x27' ∉ lead.toList ∧
      ReadsIfPlain text (trimLines text) lead tail p.name := by
  obtain ⟨-, both, declared, inFile⟩ := infix_serviceFile made running
  obtain ⟨statement, sent, inMethods⟩ := infix_methods declared taken
  obtain ⟨models, serviceClass, place, definition, id, own⟩ :=
    Api.exists_build compiled member running
  obtain ⟨lead, tail, rfl, unquoted, ends⟩ :=
    namesFirst_sending named (Operation.plain_access own taken) sent
  exact ⟨lead, tail, sent, unquoted, readsIfPlain_of_infix (inMethods.trans inFile) ends⟩

/-- In the file of a service of a compiled document, the literal of the path of an operation reads
as the path exactly if that is a text without quotes, backslashes and line breaks. Just so the
literal of the name reads of each parameter that is sent by its name. -/
theorem literals_denote_iff {config : Config} {document : Value} {api : Api}
    {engine : TemplateEngine} {templates : Templates}
    (compiled : (Api.compile config document).outcome = .ok api) (member : s ∈ api.services.values)
    (builtIn : templates (servicePlan api.models s).subject.templateName = none)
    (written : engine.fileText ⟨config, api.rootUrl⟩ templates
      (servicePlan api.models s).subject = .ok file) :
    ∃ text, (servicePlan api.models s).subject.builtIn ⟨config, api.rootUrl⟩ = .ok text ∧
      file = trimLines text ∧
      ∀ o ∈ s.operations,
        ReadsIfPlain text file (pathLead o) ";\n" (.scalar o.path) ∧
        ∀ p ∈ o.parameters, p.location ∈ namedPlaces →
          ∃ lead tail, sending p = .ok (lead ++ nameLiteral p ++ tail) ∧ '\x27' ∉ lead.toList ∧
            ReadsIfPlain text file lead tail p.name := by
  unfold TemplateEngine.fileText at written
  rw [builtIn] at written
  obtain ⟨text, made, written⟩ := bind_eq_ok.mp written
  cases written
  exact ⟨text, made, rfl, fun o running => ⟨path_readsIfPlain made running,
    fun p taken named => name_readsIfPlain compiled member made running taken named⟩⟩

theorem exists_comment_text (description : String) (level : Nat) :
    ∃ block, comment (.text description) level = .ok block := by
  unfold comment
  split
  · exact ⟨_, rfl⟩
  · exact ⟨_, rfl⟩

/-- A service has a file if its description can be written, and what is sent and declared for each
of its operations. -/
theorem exists_serviceFile (g : Globals) (imports : List Model)
    (described : ∃ block, comment s.description 0 = .ok block)
    (sent : ∀ o ∈ s.operations, ∀ p ∈ o.parameters, ∃ statement, sending p = .ok statement)
    (declared : ∀ o ∈ s.operations, ∃ members, container o = .ok members) :
    ∃ text, serviceFile g imports s = .ok text := by
  refine exists_bind_eq_ok described fun description => exists_bind_eq_ok ?_ fun methods =>
    exists_bind_eq_ok (exists_mapM_eq_ok declared) fun containers => ⟨_, rfl⟩
  refine exists_mapM_eq_ok fun o running => exists_bind_eq_ok ?_ fun response =>
    exists_bind_eq_ok ?_ fun content => ⟨_, rfl⟩
  · exact exists_bind_eq_ok (exists_comment_text o.description 1) fun block =>
      exists_bind_eq_ok (exists_mapM_eq_ok (sent o running)) fun sendings => ⟨_, rfl⟩
  · exact exists_bind_eq_ok (exists_comment_text _ 1) fun block => ⟨_, rfl⟩

open Api (refTo petDefinitions)

/-- A document with one operation, at `path`, which gives a pet and takes `name` in its query. -/
def searchDocument (path name : String) : Value :=
  .object [(.text "swagger", .text supportedVersion),
    (.text "definitions", .object petDefinitions),
    (.text "paths", .object [(.text path, .object [(.text "get", .object [
      (.text "operationId", .text "search"),
      (.text "parameters", .list [Operation.queryParameter name "string"]),
      (.text "responses", .object [
        (.text "200", .object [(.text "schema", refTo "Pet")])])])])])]

/-- The only service has one operation, at `path`, which takes `name` in its query. -/
def Searches (api : Api) (path name : String) : Prop :=
  api.services.values.map (fun s => (s.description, s.operations.map fun o =>
      (o.path, o.paramsClass, o.parameters.map fun p => (p.name, p.location, p.isArray)))) =
    [(.null, [(.text path, none, [(.text name, .text "query", false)])])]

/-- The service that searches has a file. -/
theorem Searches.parts {api : Api} {path name : String} (searches : Searches api path name) :
    ∃ s o p, s ∈ api.services.values ∧ o ∈ s.operations ∧ p ∈ o.parameters ∧
      o.path = .text path ∧ p.name = .text name ∧ p.location ∈ namedPlaces ∧
      ∀ g imports, ∃ text, serviceFile g imports s = .ok text := by
  obtain ⟨s, only, ofService⟩ := List.map_eq_singleton_iff.mp searches
  obtain ⟨undescribed, operations⟩ := Prod.mk.inj ofService
  obtain ⟨o, alone, ofOperation⟩ := List.map_eq_singleton_iff.mp operations
  obtain ⟨atPath, rest⟩ := Prod.mk.inj ofOperation
  obtain ⟨unboxed, parameters⟩ := Prod.mk.inj rest
  obtain ⟨p, sole, ofParameter⟩ := List.map_eq_singleton_iff.mp parameters
  obtain ⟨named, rest⟩ := Prod.mk.inj ofParameter
  obtain ⟨inQuery, single⟩ := Prod.mk.inj rest
  refine ⟨s, o, p, by simp [only], by simp [alone], by simp [sole], atPath, named,
    by simp [inQuery, namedPlaces], ?_⟩
  intro g imports
  refine exists_serviceFile g imports ⟨_, by rw [undescribed]; rfl⟩ ?_ ?_
  · intro _ running _ taken
    rw [alone, List.mem_singleton] at running
    rw [running, sole, List.mem_singleton] at taken
    rw [taken, sending, inQuery, querySending, if_neg (by simp [single])]
    have plain : valueText p = .ok (p.access ++ ".toString()") := by simp [valueText, single]
    exact exists_bind_eq_ok ⟨_, plain⟩ fun value => ⟨_, rfl⟩
  · intro _ running
    rw [alone, List.mem_singleton] at running
    exact ⟨"", by rw [running, container, unboxed]⟩

/-- A path with a placeholder and a name with brackets read as what they are. -/
theorem literals_denote_brackets : ∃ api s o p text file lead tail behindPath behindName,
    (Api.compile {} (searchDocument "/pets/\x7bid\x7d" "page[limit]")).outcome = .ok api ∧
    s ∈ api.services.values ∧
    Templates.none (servicePlan api.models s).subject.templateName = none ∧
    TemplateEngine.placeholders.fileText ⟨{}, api.rootUrl⟩ .none
      (servicePlan api.models s).subject = .ok file ∧
    o ∈ s.operations ∧ p ∈ o.parameters ∧ p.location ∈ namedPlaces ∧
    Follows text file (pathLead o) (between "/pets/\x7bid\x7d") ";\n" behindPath ∧
    Denotes behindPath (.text "/pets/\x7bid\x7d") ∧
    Follows text file lead (between "page[limit]") tail behindName ∧
    Denotes behindName (.text "page[limit]") := by
  obtain ⟨api, compiled, searches⟩ : ∃ api,
      (Api.compile {} (searchDocument "/pets/\x7bid\x7d" "page[limit]")).outcome = .ok api ∧
      Searches api "/pets/\x7bid\x7d" "page[limit]" := by
    refine ⟨_, by cbv, ?_⟩
    unfold Searches
    cbv
  obtain ⟨s, o, p, member, running, taken, atPath, hasName, named, files⟩ := searches.parts
  obtain ⟨built, made⟩ := files ⟨{}, api.rootUrl⟩ (importedModels api.models (importedClasses s))
  have written : TemplateEngine.placeholders.fileText ⟨{}, api.rootUrl⟩ .none
      (servicePlan api.models s).subject = .ok (trimLines built) :=
    bind_eq_ok.mpr ⟨built, made, rfl⟩
  obtain ⟨text, -, -, literals⟩ := literals_denote_iff compiled member rfl written
  obtain ⟨path, names⟩ := literals o running
  obtain ⟨lead, tail, -, -, query⟩ := names p taken named
  rw [atPath] at path
  rw [hasName] at query
  obtain ⟨behindPath, inConstant⟩ := path.present
  obtain ⟨behindName, inStatement⟩ := query.present
  exact ⟨api, s, o, p, text, trimLines built, lead, tail, behindPath, behindName, compiled, member,
    rfl, written, running, taken, named, inConstant,
    (path.denotes behindPath inConstant).mpr ⟨_, rfl, by decide⟩, inStatement,
    (query.denotes behindName inStatement).mpr ⟨_, rfl, by decide⟩⟩

/-- A path with quotes, and a name with a quote, read as something else in the file of a service. -/
theorem literals_cut_short : ∃ api s o p text lead tail behindPath behindName,
    (Api.compile {} (searchDocument "/pets(\x27\x7bid\x7d\x27)" "owner\x27s")).outcome = .ok api ∧
    s ∈ api.services.values ∧
    TemplateEngine.placeholders.fileText ⟨{}, api.rootUrl⟩ .none
      (servicePlan api.models s).subject = .ok (trimLines text) ∧
    o ∈ s.operations ∧ p ∈ o.parameters ∧ p.location ∈ namedPlaces ∧
    o.path = .text "/pets(\x27\x7bid\x7d\x27)" ∧ p.name = .text "owner\x27s" ∧
    Follows text (trimLines text) (pathLead o) (between "/pets(\x27\x7bid\x7d\x27)") ";\n"
      behindPath ∧
    ¬Denotes behindPath (.text "/pets(\x27\x7bid\x7d\x27)") ∧
    sending p = .ok (lead ++ nameLiteral p ++ tail) ∧ '\x27' ∉ lead.toList ∧
    Follows text (trimLines text) lead (between "owner\x27s") tail behindName ∧
    ¬Denotes behindName (.text "owner\x27s") := by
  obtain ⟨api, compiled, searches⟩ : ∃ api,
      (Api.compile {} (searchDocument "/pets(\x27\x7bid\x7d\x27)" "owner\x27s")).outcome =
        .ok api ∧ Searches api "/pets(\x27\x7bid\x7d\x27)" "owner\x27s" := by
    refine ⟨_, by cbv, ?_⟩
    unfold Searches
    cbv
  obtain ⟨s, o, p, member, running, taken, atPath, hasName, named, files⟩ := searches.parts
  obtain ⟨text, made⟩ := files ⟨{}, api.rootUrl⟩ (importedModels api.models (importedClasses s))
  have path := path_readsIfPlain made running
  obtain ⟨lead, tail, sent, unquoted, query⟩ :=
    name_readsIfPlain compiled member made running taken named
  rw [atPath] at path
  rw [hasName] at query
  obtain ⟨behindPath, inConstant⟩ := path.present
  obtain ⟨behindName, inStatement⟩ := query.present
  have broken (v : String) (quoted : '\x27' ∈ v.toList) : ¬IsPlainText (.text v) := by
    rintro ⟨_, same, plain⟩
    cases same
    exact (plain _ quoted).1 rfl
  refine ⟨api, s, o, p, text, lead, tail, behindPath, behindName, compiled, member,
    bind_eq_ok.mpr ⟨text, made, rfl⟩, running, taken, named, atPath, hasName, inConstant, ?_, sent,
    unquoted, inStatement, ?_⟩
  · rw [path.denotes behindPath inConstant]
    exact broken _ (by decide)
  · rw [query.denotes behindName inStatement]
    exact broken _ (by decide)

end Client

end ClientGen
