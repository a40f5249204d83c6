import ClientGen.Proofs.ModelBodies
import ClientGen.Proofs.ModelTable
import ClientGen.Proofs.PrintedTypes

/-!
# What a model is written from

`Model.Renders` relates a definition to the values of the document whose types are written in its
model: the definition itself, the variants of a union, the properties and the type of other keys,
of the definition or of the branches that it is composed of. Each of them has a type, which is
written inside one of the types of the model, and nothing else is written there
(`comesFrom_of_mem`).
-/
namespace ClientGen

namespace Model

/-- The values, with their places, whose types are written in the model of a definition. -/
inductive Renders (path : String) (schema : Fields) : String → Value → Prop
  | whole {type : Value} (plain : (schema.get "allOf").isSet = false)
      (typed : schema.get? "type" = some type) (noObject : type ≠ .text "object") :
      Renders path schema path (.object schema)
  | variant {variants : List Value} {index : Nat} {v : Value}
      (plain : (schema.get "allOf").isSet = false) (untyped : schema.get? "type" = none)
      (varies : Schema.hasVariants schema = true)
      (listed : (schema.get (Schema.variantKeyword schema).name).elements = .ok variants)
      (member : variants[index]? = some v) :
      Renders path schema (Schema.placeAt path (Schema.variantKeyword schema).name index) v
  | property {fields : Fields} {name : Scalar} {v : Value} (describes : DescribesObject schema)
      (declared : (schema.get "properties").orElse (.object []) = .object fields)
      (member : (name, v) ∈ fields) : Renders path schema (Schema.memberPath path name) v
  | additional {fields : Fields} (describes : DescribesObject schema)
      (declared : schema.get "additionalProperties" = .object fields) :
      Renders path schema (path ++ "/additionalProperties") (.object fields)
  | merged {branches : List Value} {c : Composition} {name : Scalar} {v : Value}
      (composed : (schema.get "allOf").isSet = true)
      (listed : (schema.get "allOf").elements = .ok branches)
      (joined : ({} : Composition).addAll path 0 branches = .ok c)
      (interface : c.IsInterface schema) (member : (name, v) ∈ c.properties) :
      Renders path schema (Schema.memberPath path name) v
  | mergedAdditional {front rest : List Value} {branch fields : Fields} {before c : Composition}
      (composed : (schema.get "allOf").isSet = true)
      (listed : (schema.get "allOf").elements = .ok (front ++ .object branch :: rest))
      (joined : ({} : Composition).addAll path 0 (front ++ .object branch :: rest) = .ok c)
      (interface : c.IsInterface schema)
      (earlier : ({} : Composition).addAll path 0 front = .ok before)
      (first : before.additional = none) (own : (branch.get "$ref").isSet = false)
      (declared : branch.get "additionalProperties" = .object fields) :
      Renders path schema (Schema.placeAt path "allOf" front.length ++ "/additionalProperties")
        (.object fields)

theorem property_ok {path : String} {required v : Value} {name : Scalar} {p : Property}
    (success : property path required name v = .ok p) :
    typeAt (Schema.memberPath path name) v = .ok p.type := by
  obtain ⟨name, isRequired, t, rfl, -, typed, rfl⟩ := property_eq_ok.mp success
  exact typed

/-- Sorting the properties and marking the last one loses none of their types. -/
theorem type_of_propertiesOf {path : String} {required : Value} {fields : Fields}
    {properties : List Property} (success : propertiesOf path required fields = .ok properties)
    {name : Scalar} {v : Value} (member : (name, v) ∈ fields) :
    ∃ t ∈ properties.map Property.type, typeAt (Schema.memberPath path name) v = .ok t := by
  unfold propertiesOf at success
  obtain ⟨read, passed, success⟩ := bind_eq_ok.mp success
  cases success
  obtain ⟨p, among, typed⟩ := exists_of_forall₂ (forall₂_of_mapM_ok passed) member
  refine ⟨p.type, ?_, property_ok typed⟩
  rw [map_markLast]
  · exact List.mem_map_of_mem (List.mem_mergeSort.mpr among)
  · intro a
    rfl

theorem type_of_variantTypes {path keyword : String} {start : Nat} {variants : List Value}
    {ts : List TypeExpr} (success : variantTypes path keyword start variants = .ok ts)
    {index : Nat} {v : Value} (member : variants[index]? = some v) :
    ∃ t ∈ ts, typeAt (Schema.placeAt path keyword (start + index)) v = .ok t := by
  induction variants generalizing start index ts with
  | nil => simp at member
  | cons w rest ih =>
    rw [variantTypes] at success
    obtain ⟨first, head, success⟩ := bind_eq_ok.mp success
    obtain ⟨others, tail, success⟩ := bind_eq_ok.mp success
    cases success
    cases index with
    | zero =>
      rw [List.getElem?_cons_zero, Option.some.injEq] at member
      subst v
      exact ⟨first, by simp, head⟩
    | succ index =>
      rw [List.getElem?_cons_succ] at member
      obtain ⟨t, among, typed⟩ := ih tail member
      refine ⟨t, List.mem_cons_of_mem _ among, ?_⟩
      rwa [Nat.add_right_comm, Nat.add_assoc] at typed

namespace Composition

theorem addAll_append {c last : Composition} {path : String} {start : Nat}
    {front rest : List Value} (success : c.addAll path start (front ++ rest) = .ok last) :
    ∃ middle, c.addAll path start front = .ok middle ∧
      middle.addAll path (start + front.length) rest = .ok last := by
  induction front generalizing c start with
  | nil => exact ⟨c, rfl, success⟩
  | cons branch front ih =>
    rw [List.cons_append, addAll] at success
    obtain ⟨next, added, success⟩ := bind_eq_ok.mp success
    obtain ⟨middle, before, after⟩ := ih success
    refine ⟨middle, ?_, ?_⟩
    · rw [addAll]
      exact bind_eq_ok.mpr ⟨next, added, before⟩
    · rwa [List.length_cons, ← Nat.add_assoc, Nat.add_right_comm]

/-- The type of other keys that a branch sets stays through all later branches. -/
theorem additional_add {c next : Composition} {path : String} {branch : Value} {t : TypeExpr}
    (held : c.additional = some t) (success : c.add path branch = .ok next) :
    next.additional = some t := by
  cases add_eq_ok.mp success with
  | parent names =>
    split
    · exact held
    · exact held
  | own noRef declares requires frees =>
    rw [additionalAfter, held] at frees
    cases frees
    rfl
  | remark noObject => exact held

theorem additional_addAll {c last : Composition} {path : String} {start : Nat}
    {branches : List Value} {t : TypeExpr} (held : c.additional = some t)
    (success : c.addAll path start branches = .ok last) : last.additional = some t := by
  induction branches generalizing c start with
  | nil =>
    cases success
    exact held
  | cons branch rest ih =>
    rw [addAll] at success
    obtain ⟨next, added, success⟩ := bind_eq_ok.mp success
    exact ih (additional_add held added) success

/-- The first branch that says what other keys are decides over their type. -/
theorem additional_add_first {c next : Composition} {path : String} {branch fields : Fields}
    (first : c.additional = none) (own : (branch.get "$ref").isSet = false)
    (declared : branch.get "additionalProperties" = .object fields)
    (success : c.add path (.object branch) = .ok next) :
    ∃ t, typeAt (path ++ "/additionalProperties") (.object fields) = .ok t ∧
      next.additional = some t := by
  cases add_eq_ok.mp success with
  | parent names =>
    have reference := classOfRef?_cases names
    rw [own] at reference
    cases reference
  | own noRef declares requires frees =>
    rw [additionalAfter, first, additionalTypeOf, declared] at frees
    obtain ⟨t, typed, frees⟩ := bind_eq_ok.mp frees
    cases frees
    exact ⟨t, typed, rfl⟩
  | remark noObject => exact absurd rfl (noObject branch)

end Composition

def WrittenIn (t : TypeExpr) (body : ModelBody) : Prop :=
  ∃ u ∈ body.types, Schema.Inside t u True

theorem writtenIn_of_mem {t : TypeExpr} {body : ModelBody} (member : t ∈ body.types) :
    WrittenIn t body :=
  ⟨t, member, List.infix_rfl, fun _ _ named => named⟩

theorem interface_ok {path : String} {schema : Fields} {body : ModelBody}
    (describes : DescribesObject schema) (read : bodyOf path schema = .ok body) :
    ∃ fields properties additional,
      (schema.get "properties").orElse (.object []) = .object fields ∧
      propertiesOf path (Schema.requiredNames schema) fields = .ok properties ∧
      additionalTypeOf path schema = .ok additional ∧ body = .object [] properties additional := by
  obtain ⟨plain, object⟩ := describes
  cases bodyOf_eq_ok.mp read with
  | object _ declared written free => exact ⟨_, _, _, declared, written, free, rfl⟩
  | interface joins | constants joins | text joins => simp [joins.composed] at plain
  | array _ typed => simp [typed] at object
  | union _ untyped varies => simp [untyped, varies] at object
  | whole _ typed _ noObject => simp [typed, noObject] at object

/-- A definition with a type other than object names the type that its schema has. -/
theorem whole_ok {path : String} {schema : Fields} {body : ModelBody} {type : Value}
    (plain : (schema.get "allOf").isSet = false) (typed : schema.get? "type" = some type)
    (noObject : type ≠ .text "object") (read : bodyOf path schema = .ok body) :
    ∃ t, typeAt path (.object schema) = .ok t ∧ (body = .array t ∨ body = .simple t) := by
  cases bodyOf_eq_ok.mp read with
  | array _ _ found => exact ⟨_, found, Or.inl rfl⟩
  | whole _ _ _ _ found => exact ⟨_, found, Or.inr rfl⟩
  | interface joins | constants joins | text joins => simp [joins.composed] at plain
  | union _ untyped => simp [untyped] at typed
  | object describes =>
    obtain ⟨-, object⟩ := describes
    simp [typed, noObject] at object

/-- A definition with variants and without a type names the union of their types. -/
theorem variants_ok {path : String} {schema : Fields} {body : ModelBody}
    (plain : (schema.get "allOf").isSet = false) (untyped : schema.get? "type" = none)
    (varies : Schema.hasVariants schema = true) (read : bodyOf path schema = .ok body) :
    ∃ variants ts, (schema.get (Schema.variantKeyword schema).name).elements = .ok variants ∧
      variantTypes path (Schema.variantKeyword schema).name 0 variants = .ok ts ∧
      body = .union (.combine variantSeparator ts) := by
  cases bodyOf_eq_ok.mp read with
  | union _ _ _ listed types => exact ⟨_, _, listed, types, rfl⟩
  | interface joins | constants joins | text joins => simp [joins.composed] at plain
  | array _ typed | whole _ typed => simp [typed] at untyped
  | object describes =>
    obtain ⟨-, object⟩ := describes
    simp [untyped, varies] at object

theorem composition_ok {path : String} {schema : Fields} {body : ModelBody}
    {branches : List Value} {c : Composition} (composed : (schema.get "allOf").isSet = true)
    (listed : (schema.get "allOf").elements = .ok branches)
    (joined : ({} : Composition).addAll path 0 branches = .ok c)
    (interface : c.IsInterface schema) (read : bodyOf path schema = .ok body) :
    ∃ properties, propertiesOf path (.list c.required) c.properties = .ok properties ∧
      body = .object c.parents properties c.additional := by
  have own : Joins path schema c := ⟨composed, branches, listed, joined⟩
  cases bodyOf_eq_ok.mp read with
  | interface joins _ written =>
    cases joins.unique own
    exact ⟨_, written, rfl⟩
  | constants joins noInterface | text joins noInterface =>
    cases joins.unique own
    exact absurd interface noInterface
  | array plain | union plain | whole plain => simp [plain] at composed
  | object describes => simp [describes.1] at composed

/-- Every value that is written in the model of a definition has a type there. -/
theorem Renders.written {path : String} {schema : Fields} {body : ModelBody} {place : String}
    {v : Value} (renders : Renders path schema place v) (read : bodyOf path schema = .ok body) :
    ∃ t, typeAt place v = .ok t ∧ WrittenIn t body := by
  cases renders with
  | whole plain typed noObject =>
    obtain ⟨t, found, rfl | rfl⟩ := whole_ok plain typed noObject read
    · exact ⟨t, found, writtenIn_of_mem (by simp [ModelBody.types])⟩
    · exact ⟨t, found, writtenIn_of_mem (by simp [ModelBody.types])⟩
  | variant plain untyped varies listed member =>
    obtain ⟨variants, ts, sameList, typed, rfl⟩ := variants_ok plain untyped varies read
    rw [listed] at sameList
    cases sameList
    obtain ⟨t, among, found⟩ := type_of_variantTypes typed member
    rw [Nat.zero_add] at found
    exact ⟨t, found, _, List.mem_singleton_self _, Schema.inside_combine among⟩
  | property describes declared member =>
    obtain ⟨fields, properties, additional, sameFields, written, -, rfl⟩ :=
      interface_ok describes read
    rw [declared] at sameFields
    cases sameFields
    obtain ⟨t, among, typed⟩ := type_of_propertiesOf written member
    exact ⟨t, typed, writtenIn_of_mem (List.mem_append_left _ among)⟩
  | additional describes declared =>
    obtain ⟨fields, properties, additional, -, -, written, rfl⟩ := interface_ok describes read
    unfold additionalTypeOf at written
    rw [declared] at written
    obtain ⟨t, typed, written⟩ := bind_eq_ok.mp written
    cases written
    exact ⟨t, typed, writtenIn_of_mem (List.mem_append_right _ (by simp))⟩
  | merged composed listed joined interface member =>
    obtain ⟨properties, written, rfl⟩ := composition_ok composed listed joined interface read
    obtain ⟨t, among, typed⟩ := type_of_propertiesOf written member
    exact ⟨t, typed, writtenIn_of_mem (List.mem_append_left _ among)⟩
  | mergedAdditional composed listed joined interface earlier first own declared =>
    obtain ⟨properties, -, rfl⟩ := composition_ok composed listed joined interface read
    obtain ⟨_, sameBefore, later⟩ := Composition.addAll_append joined
    rw [earlier] at sameBefore
    cases sameBefore
    rw [Nat.zero_add, Composition.addAll] at later
    obtain ⟨next, added, later⟩ := bind_eq_ok.mp later
    obtain ⟨t, typed, held⟩ := Composition.additional_add_first first own declared added
    have last := Composition.additional_addAll held later
    exact ⟨t, typed, writtenIn_of_mem (List.mem_append_right _ (by simp [last]))⟩

theorem exists_of_propertiesOf {path : String} {required : Value} {fields : Fields}
    {properties : List Property} (success : propertiesOf path required fields = .ok properties)
    {t : TypeExpr} (member : t ∈ properties.map Property.type) :
    ∃ name v, (name, v) ∈ fields ∧ typeAt (Schema.memberPath path name) v = .ok t := by
  unfold propertiesOf at success
  obtain ⟨read, passed, success⟩ := bind_eq_ok.mp success
  cases success
  rw [map_markLast] at member
  · obtain ⟨p, sorted, rfl⟩ := List.mem_map.mp member
    obtain ⟨⟨name, v⟩, among, typed⟩ :=
      exists_of_forall₂ (forall₂_of_mapM_ok passed).flip (List.mem_mergeSort.mp sorted)
    exact ⟨name, v, among, property_ok typed⟩
  · intro a
    rfl

theorem exists_of_variantTypes {path keyword : String} {start : Nat} {variants : List Value}
    {ts : List TypeExpr} (success : variantTypes path keyword start variants = .ok ts)
    {t : TypeExpr} (member : t ∈ ts) :
    ∃ index v, variants[index]? = some v ∧
      typeAt (Schema.placeAt path keyword (start + index)) v = .ok t := by
  induction variants generalizing start ts with
  | nil =>
    cases success
    cases member
  | cons w rest ih =>
    rw [variantTypes] at success
    obtain ⟨first, head, success⟩ := bind_eq_ok.mp success
    obtain ⟨others, tail, success⟩ := bind_eq_ok.mp success
    cases success
    rcases List.mem_cons.mp member with rfl | later
    · exact ⟨0, w, rfl, head⟩
    · obtain ⟨index, v, there, typed⟩ := ih tail later
      refine ⟨index + 1, v, there, ?_⟩
      rwa [Nat.add_right_comm, Nat.add_assoc] at typed

/-- The type of other keys is that of their schema, or any type. -/
theorem additionalTypeOf_eq_some {path : String} {schema : Fields} {t : TypeExpr}
    (success : additionalTypeOf path schema = .ok (some t)) :
    (∃ fields, schema.get "additionalProperties" = .object fields ∧
      typeAt (path ++ "/additionalProperties") (.object fields) = .ok t) ∨ t = .anyType := by
  unfold additionalTypeOf at success
  split at success
  · rename_i fields declared
    obtain ⟨u, typed, success⟩ := bind_eq_ok.mp success
    cases success
    exact Or.inl ⟨fields, declared, typed⟩
  · split at success
    · cases success
      exact Or.inr rfl
    · cases success

namespace Composition

/-- A branch that first says what other keys are is no reference. -/
theorem add_of_additional {c next : Composition} {path : String} {branch : Value} {t : TypeExpr}
    (first : c.additional = none) (success : c.add path branch = .ok next)
    (held : next.additional = some t) :
    ∃ own : Fields, branch = .object own ∧ (own.get "$ref").isSet = false ∧
      additionalTypeOf path own = .ok (some t) := by
  cases add_eq_ok.mp success with
  | parent names =>
    split at held
    · rw [first] at held
      cases held
    · rw [first] at held
      cases held
  | @own fields _ _ _ noRef declares requires frees =>
    rw [additionalAfter, first] at frees
    refine ⟨fields, rfl, noRef, ?_⟩
    rw [← held]
    exact frees
  | remark noObject =>
    rw [first] at held
    cases held

/-- Behind the type of other keys is the first branch that says what they are. -/
theorem addAll_of_additional {c last : Composition} {path : String} {start : Nat}
    {branches : List Value} {t : TypeExpr} (first : c.additional = none)
    (success : c.addAll path start branches = .ok last) (held : last.additional = some t) :
    ∃ (front : List Value) (own : Fields) (rest : List Value) (before : Composition),
      branches = front ++ .object own :: rest ∧
      c.addAll path start front = .ok before ∧ before.additional = none ∧
      (own.get "$ref").isSet = false ∧
      additionalTypeOf (Schema.placeAt path "allOf" (start + front.length)) own = .ok (some t) := by
  induction branches generalizing c start with
  | nil =>
    cases success
    rw [first] at held
    cases held
  | cons branch rest ih =>
    rw [addAll] at success
    obtain ⟨next, added, success⟩ := bind_eq_ok.mp success
    cases decided : next.additional with
    | none =>
      obtain ⟨front, own, others, before, rfl, earlier, still, noRef, typed⟩ :=
        ih decided success
      refine ⟨branch :: front, own, others, before, rfl, ?_, still, noRef, ?_⟩
      · rw [addAll]
        exact bind_eq_ok.mpr ⟨next, added, earlier⟩
      · rwa [List.length_cons, ← Nat.add_assoc, Nat.add_right_comm]
    | some u =>
      have same := additional_addAll decided success
      rw [held] at same
      cases same
      obtain ⟨own, rfl, noRef, typed⟩ := add_of_additional first added decided
      exact ⟨[], own, rest, c, rfl, rfl, first, noRef, typed⟩

end Composition
/-- A type that a model is written with is that of a value that is written in the model, it joins
such types, or it stands where the definition gives none. -/
def ComesFrom (path : String) (schema : Fields) (t : TypeExpr) : Prop :=
  (∃ place v, Renders path schema place v ∧ typeAt place v = .ok t) ∨
    (∃ ts, t = .combine variantSeparator ts ∧
      ∀ u ∈ ts, ∃ place v, Renders path schema place v ∧ typeAt place v = .ok u) ∨
    t = .anyType ∨ t = .scalar "string"

/-- Nothing else is written in a model than the values that `Renders` lists. -/
theorem comesFrom_of_mem {path : String} {schema : Fields} {body : ModelBody}
    (read : bodyOf path schema = .ok body) {t : TypeExpr} (member : t ∈ body.types) :
    ComesFrom path schema t := by
  cases bodyOf_eq_ok.mp read with
  | interface joins interface written =>
    obtain ⟨branches, listed, joined⟩ := joins.joined
    rcases List.mem_append.mp member with own | other
    · obtain ⟨name, v, among, typed⟩ := exists_of_propertiesOf written own
      exact Or.inl ⟨_, v, .merged joins.composed listed joined interface among, typed⟩
    · rw [Option.mem_toList] at other
      obtain ⟨front, branch, rest, before, rfl, earlier, first, noRef, typed⟩ :=
        Composition.addAll_of_additional rfl joined other
      rcases additionalTypeOf_eq_some typed with ⟨keys, given, typed⟩ | any
      · rw [Nat.zero_add] at typed
        exact Or.inl ⟨_, _, .mergedAdditional joins.composed listed joined interface earlier first
          noRef given, typed⟩
      · exact Or.inr (Or.inr (Or.inl any))
  | constants => cases member
  | text => exact Or.inr (Or.inr (Or.inr (List.mem_singleton.mp member)))
  | array plain typed found =>
    cases List.mem_singleton.mp member
    exact Or.inl ⟨path, .object schema, .whole plain typed (by decide), found⟩
  | union plain untyped varies listed each =>
    cases List.mem_singleton.mp member
    refine Or.inr (Or.inl ⟨_, rfl, ?_⟩)
    intro u among
    obtain ⟨index, v, there, own⟩ := exists_of_variantTypes each among
    rw [Nat.zero_add] at own
    exact ⟨_, v, .variant plain untyped varies listed there, own⟩
  | object describes declared written free =>
    rcases List.mem_append.mp member with own | other
    · obtain ⟨name, v, among, typed⟩ := exists_of_propertiesOf written own
      exact Or.inl ⟨_, v, .property describes declared among, typed⟩
    · rw [Option.mem_toList] at other
      rcases additionalTypeOf_eq_some (other ▸ free) with ⟨keys, given, typed⟩ | any
      · exact Or.inl ⟨_, _, .additional describes given, typed⟩
      · exact Or.inr (Or.inr (Or.inl any))
  | whole plain typed _ noObject found =>
    cases List.mem_singleton.mp member
    exact Or.inl ⟨path, .object schema, .whole plain typed noObject, found⟩

end Model

end ClientGen
