import ClientGen.Proofs.AliasKinds
import ClientGen.Proofs.Compilation
import ClientGen.Proofs.SchemaParts

/-!
# Results of one type under several codes

An operation may answer under several codes that mean success. Its result is then the union of the
types, in which a type that comes again is written again, while its constituents are listed once.
So the same model is behind a type and behind the union of its copies (`bareName_copies`), and
either both show an array or none does (`showsArray_union`); but what gives a kind is never the
text of a union (`ofText?_union`). What is lost is the kind that the text of the type gives, unless
an alias is behind the type (`KeepsKind`).
-/
namespace ClientGen

namespace TypeExpr

theorem text_union_cons_cons (t u : TypeExpr) (rest : List TypeExpr) :
    (union (t :: u :: rest)).text = t.text ++ " | " ++ (union (u :: rest)).text :=
  String.intercalate_cons_cons

/-- What has no part of the separator stands in a union exactly if it stands in one of the types. -/
theorem infix_union_iff {p : List Char} (present : p ≠ []) (noBlank : ' ' ∉ p) (noBar : '|' ∉ p)
    {types : List TypeExpr} :
    p <:+: (union types).text.toList ↔ ∃ t ∈ types, p <:+: t.text.toList := by
  induction types with
  | nil => simpa [union, combine, compound, joined] using present
  | cons t rest ih =>
    cases rest with
    | nil => simp [union, combine, compound, joined]
    | cons u rest =>
      have separator : " | ".toList = [' ', '|', ' '] := rfl
      rw [text_union_cons_cons, String.toList_append, String.toList_append, separator,
        List.append_assoc]
      simp only [List.cons_append, List.nil_append]
      rw [Text.infix_append_cons_iff noBlank, ← List.nil_append ('|' :: _),
        Text.infix_append_cons_iff noBar, ← List.nil_append (' ' :: _),
        Text.infix_append_cons_iff noBlank, ih]
      simp [present]

theorem distinct_append_of_subset {names more : List String} (known : more ⊆ names) :
    distinct (names ++ more) = distinct names := by
  induction more using List.reverseRecOn with
  | nil => rw [List.append_nil]
  | append_singleton more name ih =>
    obtain ⟨before, last⟩ := List.append_subset.mp known
    have member : name ∈ names ++ more :=
      List.mem_append_left _ (last (List.mem_singleton_self name))
    rw [← List.append_assoc, distinct_concat, if_pos member, ih before]

/-- The union of copies of a type has the constituents of the type. -/
theorem constituents_copies {t : TypeExpr} (nodup : t.leaves.Nodup) {n : Nat} (positive : 0 < n) :
    (union (List.replicate n t)).constituents = some t.leaves := by
  obtain ⟨k, rfl⟩ := Nat.exists_eq_add_of_lt positive
  have known : (List.replicate (0 + k) t).flatMap leaves ⊆ t.leaves := by
    intro name member
    obtain ⟨u, copy, among⟩ := List.mem_flatMap.mp member
    rwa [List.eq_of_mem_replicate copy] at among
  show some (merge (List.replicate (0 + k + 1) t)) = _
  rw [merge, List.replicate_succ, List.flatMap_cons, distinct_append_of_subset known,
    distinct_of_nodup nodup]

/-- The same name is behind a type and behind the union of its copies. -/
theorem bareName_copies {t : TypeExpr} (nodup : t.leaves.Nodup) {n : Nat} (positive : 0 < n) :
    (union (List.replicate n t)).bareName = t.bareName := by
  unfold bareName nameBy
  rw [constituents_copies nodup positive, leaves]
  rcases t.constituents with _ | (_ | ⟨name, _ | ⟨other, rest⟩⟩)
  · rfl
  · rfl
  · rfl
  · rfl

end TypeExpr

namespace Schema

/-- No constituent of the type of a schema is listed twice. -/
theorem nodup_leaves_type (s : Schema) {t : TypeExpr} (typed : s.type = .ok t) :
    t.leaves.Nodup := by
  have one (text : String) : (TypeExpr.scalar text).leaves.Nodup := List.nodup_singleton text
  have several (text : String) (parts : List TypeExpr) :
      (TypeExpr.compound text parts).leaves.Nodup := TypeExpr.nodup_distinct _
  induction s using induction_on_parts generalizing t with
  | step s ih =>
    cases hasType_of_type typed with
    | null | file | any | unbounded => exact one _
    | ref | override =>
      obtain ⟨text, same⟩ := exists_scalar_typeOfText _
      exact same ▸ one text
    | @primitive o kind enum const =>
      obtain ⟨text, same⟩ := exists_scalar_primitiveType kind enum const
      exact same ▸ one text
    | @nullable o inner u inside =>
      have nodup := ih inner (List.mem_singleton_self inner) inside
      unfold TypeExpr.nullable TypeExpr.leaves at *
      cases listed : u.constituents with
      | none => exact List.nodup_singleton _
      | some names => rwa [listed] at nodup
    | union | intersection | array | bounded | record => exact several _ _

end Schema

theorem nodup_leaves_typeAt {path : String} {schema : Value} {t : TypeExpr}
    (typed : typeAt path schema = .ok t) : t.leaves.Nodup := by
  obtain ⟨s, -, typed⟩ := bind_eq_ok.mp typed
  exact s.nodup_leaves_type typed

namespace ResultKind

/-- The text of a union of several types gives no kind. -/
theorem ofText?_union {types : List TypeExpr} (several : 2 ≤ types.length) :
    ofText? (TypeExpr.union types).text = none := by
  obtain ⟨t, u, rest, rfl⟩ : ∃ t u rest, types = t :: u :: rest := by
    match types with
    | t :: u :: rest => exact ⟨t, u, rest, rfl⟩
  have blank : ' ' ∈ (TypeExpr.union (t :: u :: rest)).text.toList := by
    rw [TypeExpr.text_union_cons_cons]
    simp
  apply ofText?_eq_none_iff.mpr
  intro word member same
  rw [same] at blank
  have lacks : ∀ word ∈ ["null", "void", "string", "number", "boolean", "Blob"],
      ' ' ∉ word.toList := by decide
  exact lacks word member blank

/-- A union shows an array exactly if one of its types does. -/
theorem showsArray_union {types : List TypeExpr} :
    showsArray (.union types) = true ↔ ∃ t ∈ types, showsArray t = true := by
  have generic : "Array<".toList = ['A', 'r', 'r', 'a', 'y', '<'] := rfl
  have brackets : "[]".toList = ['[', ']'] := rfl
  simp only [showsArray, Bool.or_eq_true, Text.contains_iff]
  rw [TypeExpr.infix_union_iff (by simp [generic]) (by simp [generic]) (by simp [generic]),
    TypeExpr.infix_union_iff (by simp [brackets]) (by simp [brackets]) (by simp [brackets])]
  constructor
  · rintro (⟨t, member, shown⟩ | ⟨t, member, shown⟩)
    · exact ⟨t, member, Or.inl shown⟩
    · exact ⟨t, member, Or.inr shown⟩
  · rintro ⟨t, member, shown | shown⟩
    · exact Or.inl ⟨t, member, shown⟩
    · exact Or.inr ⟨t, member, shown⟩

/-- The kind of a type does not come from its own text. -/
def KeepsKind (models : Table Model) (t : TypeExpr) : Prop :=
  ofText? t.text = none ∨
    ∃ m, models.get? (Naming.key t.bareName) = some m ∧ (m.kind = .simple ∨ m.kind = .union)

/-- The model behind a type gives the same kind to the union of its copies. -/
theorem ofModel_copies (model : Option Model) (t : TypeExpr) {n : Nat} (positive : 0 < n) :
    ofModel model (.union (List.replicate n t)) = ofModel model t := by
  have arrays : showsArray (.union (List.replicate n t)) = showsArray t := by
    rw [Bool.eq_iff_iff, showsArray_union]
    simp [List.mem_replicate, Nat.ne_of_gt positive]
  cases model with
  | none => rw [ofModel, ofModel, arrays]
  | some m => rfl

/-- Without an alias behind a type, the model behind it gives the kind of the union of its copies.
-/
theorem classify_copies {models : Table Model} {t : TypeExpr} (nodup : t.leaves.Nodup) {n : Nat}
    (several : 2 ≤ n)
    (noAlias : (models.get? (Naming.key t.bareName)).bind Model.aliasType? = none) :
    classify models (.union (List.replicate n t)) =
      ofModel (models.get? (Naming.key t.bareName)) t := by
  have positive : 0 < n := Nat.lt_of_lt_of_le Nat.two_pos several
  have same := TypeExpr.bareName_copies nodup positive
  have unknown : ofText? (TypeExpr.union (List.replicate n t)).text = none :=
    ofText?_union (by rwa [List.length_replicate])
  rw [classify_of_no_alias (same.symm ▸ noAlias), unknown, same, Option.getD_none,
    ofModel_copies _ t positive]

/-- The union of copies of a type has its kind exactly if the kind does not come from its text. -/
theorem classify_copies_iff {models : Table Model} {t : TypeExpr} (nodup : t.leaves.Nodup) {n : Nat}
    (several : 2 ≤ n) :
    classify models (.union (List.replicate n t)) = classify models t ↔ KeepsKind models t := by
  have same := TypeExpr.bareName_copies nodup (Nat.lt_of_lt_of_le Nat.two_pos several)
  cases target : (models.get? (Naming.key t.bareName)).bind Model.aliasType? with
  | some u =>
    obtain ⟨m, behind, names⟩ := Option.bind_eq_some_iff.mp target
    have kept : KeepsKind models t :=
      Or.inr ⟨m, behind, Model.kind_eq_simple_or_union.mpr ⟨u, names⟩⟩
    have equal : classify models (.union (List.replicate n t)) = classify models t := by
      rw [classify_of_alias behind names, classify_of_alias (same.symm ▸ behind) names]
    exact iff_of_true equal kept
  | none =>
    rw [classify_of_no_alias target, classify_copies nodup several target]
    cases known : ofText? t.text with
    | none => exact iff_of_true rfl (Or.inl known)
    | some kind =>
      apply iff_of_false
      · intro equal
        rw [Option.getD_some] at equal
        exact ofText?_ne_ofModel t.text _ t (equal ▸ known)
      · rintro (unlisted | ⟨m, behind, isAlias⟩)
        · rw [known] at unlisted
          cases unlisted
        · obtain ⟨u, names⟩ := Model.kind_eq_simple_or_union.mp isAlias
          rw [behind, Option.bind_some, names] at target
          cases target

end ResultKind

namespace Responses

def AllOfType (document : Value) (responses : Fields) (t : TypeExpr) : Prop :=
  ∀ e ∈ successes document responses, typeAt ("#/responses/" ++ e.1 ++ "/schema") e.2 = .ok t

variable {document : Value} {responses : Fields} {t : TypeExpr} {collected : Responses}

/-- Successes of one type are collected as so many copies of the type. -/
theorem AllOfType.resultTypes (all : AllOfType document responses t)
    (success : ({} : Responses).addAll document responses = .ok collected) :
    collected.resultTypes = List.replicate (successes document responses).length t := by
  obtain ⟨types, gathered, typed⟩ := resultTypes_addAll success
  have own : collected.resultTypes = types := gathered
  rw [own, List.eq_replicate_iff]
  refine ⟨typed.length_eq.symm, ?_⟩
  intro u member
  obtain ⟨e, success, typed⟩ := exists_of_forall₂ typed.flip member
  have same := typed.symm.trans (all e success)
  cases same
  rfl

theorem AllOfType.resultType_of_single (all : AllOfType document responses t)
    (single : (successes document responses).length = 1)
    (success : ({} : Responses).addAll document responses = .ok collected) :
    collected.resultType = t := by
  rw [resultType, all.resultTypes success, single]
  rfl

theorem AllOfType.resultType_of_several (all : AllOfType document responses t)
    (several : 2 ≤ (successes document responses).length)
    (success : ({} : Responses).addAll document responses = .ok collected) :
    collected.resultType = .union (List.replicate (successes document responses).length t) := by
  obtain ⟨n, count⟩ := Nat.exists_eq_add_of_le' several
  rw [resultType, all.resultTypes success, count]
  rfl

/-- A type that schemas of successes have lists no constituent twice. -/
theorem AllOfType.nodup_leaves (all : AllOfType document responses t)
    (present : 0 < (successes document responses).length) : t.leaves.Nodup := by
  obtain ⟨e, member⟩ := List.exists_mem_of_length_pos present
  exact nodup_leaves_typeAt (all e member)

end Responses

namespace Operation

/-- The operation `o` is built from a definition that lists `responses`. -/
def Answers (models : Table Model) (document : Value) (responses : Fields) (o : Operation) : Prop :=
  ∃ config serviceClass place definition id,
    build config models document serviceClass place definition id = .ok o ∧
    (definition.get "responses").orElse (.object []) = .object responses

/-- The result of an operation is that of its responses. -/
theorem Answers.collects {models : Table Model} {document : Value} {responses : Fields}
    {o : Operation} (answers : o.Answers models document responses) :
    ∃ collected : Responses, ({} : Responses).addAll document responses = .ok collected ∧
      o.resultKind = .classify models collected.resultType := by
  obtain ⟨config, serviceClass, place, definition, id, built, listed⟩ := answers
  obtain ⟨fields, collected, given, added, kind⟩ := resultKind_build built
  rw [listed] at given
  cases given
  exact ⟨collected, added, kind⟩

/-- An operation that answers with the same type under several codes is decoded like one that
answers with it under one code exactly if the kind of the type does not come from its text. -/
theorem repeated_result_iff {models : Table Model} {document other : Value}
    {responses alone : Fields} {o p : Operation} {t : TypeExpr}
    (answers : o.Answers models document responses)
    (several : 2 ≤ (Responses.successes document responses).length)
    (all : Responses.AllOfType document responses t)
    (answersOnce : p.Answers models other alone)
    (single : (Responses.successes other alone).length = 1)
    (only : Responses.AllOfType other alone t) :
    (o.resultKind = p.resultKind ∧ o.resultKind.responseType = p.resultKind.responseType) ↔
      ResultKind.KeepsKind models t := by
  obtain ⟨collected, gathered, kind⟩ := answers.collects
  obtain ⟨collectedOnce, gatheredOnce, kindOnce⟩ := answersOnce.collects
  have nodup := all.nodup_leaves (Nat.lt_of_lt_of_le Nat.two_pos several)
  rw [kind, kindOnce, all.resultType_of_several several gathered,
    only.resultType_of_single single gatheredOnce, ← ResultKind.classify_copies_iff nodup several]
  constructor
  · rintro ⟨same, -⟩
    exact same
  · intro same
    exact ⟨same, congrArg ResultKind.responseType same⟩

/-- Responses with the same schema under several codes. -/
def alike (codes : List String) (schema : Value) : Fields :=
  codes.map fun code => (.text code, .object [(.text "schema", schema)])

def answering (responses : Fields) : Fields := [(.text "responses", .object responses)]

def reportPlace : Place := ⟨.text "/report", "get", []⟩

def fileSchema : Value := .object [(.text "type", .text "file")]

section Alike

variable {schema : Value} {codes : List String}

theorem successes_alike (present : schema ≠ .null)
    (mean : ∀ code ∈ codes, isSuccess code = .ok true) :
    Responses.successes (.object []) (alike codes schema) =
      codes.map fun code => (code, schema) := by
  induction codes with
  | nil => rfl
  | cons code rest ih =>
    obtain ⟨first, later⟩ := List.forall_mem_cons.mp mean
    have here : Responses.success? (.object []) (.text code, .object [(.text "schema", schema)]) =
        some (code, schema) :=
      Responses.success?_eq_some.mpr ⟨[(.text "schema", schema)], by cbv, present, first, rfl⟩
    unfold Responses.successes alike at ih ⊢
    rw [List.map_cons, List.filterMap_cons_some here, ih later, List.map_cons]

theorem length_successes_alike (present : schema ≠ .null)
    (mean : ∀ code ∈ codes, isSuccess code = .ok true) :
    (Responses.successes (.object []) (alike codes schema)).length = codes.length := by
  rw [successes_alike present mean, List.length_map]

theorem allOfType_alike {t : TypeExpr} (present : schema ≠ .null)
    (mean : ∀ code ∈ codes, isSuccess code = .ok true) (typed : ∀ path, typeAt path schema = .ok t) :
    Responses.AllOfType (.object []) (alike codes schema) t := by
  unfold Responses.AllOfType
  rw [successes_alike present mean]
  intro e member
  obtain ⟨code, -, rfl⟩ := List.mem_map.mp member
  exact typed _

end Alike

theorem means_success : ∀ code ∈ ["200", "201"], isSuccess code = .ok true := by decide

/-- An operation that answers with a pet under two codes is decoded like one that answers with a pet
under one code. -/
theorem repeated_result_pet : ∃ models o p,
    (Models.ofDefinitions {} (.object Api.petDefinitions)).outcome = .ok models ∧
    build {} models (.object []) "ApiService" reportPlace
      (answering (alike ["200", "201"] (Api.refTo "Pet"))) "getReport" = .ok o ∧
    build {} models (.object []) "ApiService" reportPlace
      (answering (alike ["200"] (Api.refTo "Pet"))) "getReport" = .ok p ∧
    o.resultKind = p.resultKind ∧ o.resultKind.responseType = p.resultKind.responseType := by
  obtain ⟨models, modelsBuilt⟩ := Api.petModels_built
  obtain ⟨o, twice⟩ : ∃ o, build {} models (.object []) "ApiService" reportPlace
      (answering (alike ["200", "201"] (Api.refTo "Pet"))) "getReport" = .ok o :=
    ⟨_, by cbv⟩
  obtain ⟨p, once⟩ : ∃ p, build {} models (.object []) "ApiService" reportPlace
      (answering (alike ["200"] (Api.refTo "Pet"))) "getReport" = .ok p :=
    ⟨_, by cbv⟩
  have present : Api.refTo "Pet" ≠ .null := by
    intro missing
    cases missing
  have typed (path : String) : typeAt path (Api.refTo "Pet") = .ok (.scalar "Pet") := by cbv
  have kept : ResultKind.KeepsKind models (.scalar "Pet") := Or.inl rfl
  have decoded := repeated_result_iff ⟨_, _, _, _, _, twice, rfl⟩
    (length_successes_alike present means_success).ge
    (allOfType_alike present means_success typed)
    ⟨_, _, _, _, _, once, rfl⟩
    (length_successes_alike present (by decide))
    (allOfType_alike present (by decide) typed)
  exact ⟨models, o, p, modelsBuilt, twice, once, decoded.mpr kept⟩

/-- A file under two codes is read as JSON, one under one code as a file. -/
theorem repeated_file_read_as_json : ∃ models o p,
    (Models.ofDefinitions {} (.object [])).outcome = .ok models ∧
    build {} models (.object []) "ApiService" reportPlace
      (answering (alike ["200", "201"] fileSchema)) "getReport" = .ok o ∧
    build {} models (.object []) "ApiService" reportPlace
      (answering (alike ["200"] fileSchema)) "getReport" = .ok p ∧
    Responses.AllOfType (.object []) (alike ["200", "201"] fileSchema) .blobType ∧
    Responses.AllOfType (.object []) (alike ["200"] fileSchema) .blobType ∧
    o.resultKind = .unknown ∧ o.resultKind.responseType = "json" ∧
    p.resultKind = .file ∧ p.resultKind.responseType = "blob" := by
  -- evaluated for any table: in the empty one the lookup of the result would be evaluated as well
  have builds (models : Table Model) : ∃ o p,
      build {} models (.object []) "ApiService" reportPlace
        (answering (alike ["200", "201"] fileSchema)) "getReport" = .ok o ∧
      build {} models (.object []) "ApiService" reportPlace
        (answering (alike ["200"] fileSchema)) "getReport" = .ok p :=
    ⟨_, _, by cbv, by cbv⟩
  obtain ⟨o, p, twice, once⟩ := builds .empty
  have present : fileSchema ≠ .null := by
    intro missing
    cases missing
  have typed (path : String) : typeAt path fileSchema = .ok .blobType := by cbv
  have both := allOfType_alike present means_success typed
  have one : Responses.AllOfType (.object []) (alike ["200"] fileSchema) .blobType :=
    allOfType_alike present (by decide) typed
  have nodup : TypeExpr.blobType.leaves.Nodup := List.nodup_singleton _
  have several := (length_successes_alike present means_success).ge
  have noAlias : ((Table.empty : Table Model).get?
      (Naming.key TypeExpr.blobType.bareName)).bind Model.aliasType? = none := rfl
  have unknown : o.resultKind = .unknown := by
    obtain ⟨collected, gathered, kind⟩ := Answers.collects ⟨_, _, _, _, _, twice, rfl⟩
    rw [kind, both.resultType_of_several several gathered,
      ResultKind.classify_copies nodup several noAlias]
    rfl
  have file : p.resultKind = .file := by
    obtain ⟨collected, gathered, kind⟩ := Answers.collects ⟨_, _, _, _, _, once, rfl⟩
    rw [kind, one.resultType_of_single (length_successes_alike present (by decide)) gathered,
      ResultKind.classify_of_no_alias noAlias]
    rfl
  refine ⟨.empty, o, p, rfl, twice, once, both, one, unknown, ?_, file, ?_⟩
  · rw [unknown]
    rfl
  · rw [file]
    rfl

end Operation

end ClientGen
