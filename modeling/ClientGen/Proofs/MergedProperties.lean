import Mathlib
import ClientGen.Proofs.DeclaredProperties
import ClientGen.Proofs.DistinctKeys
import ClientGen.Proofs.SchemaPlaces
import ClientGen.Proofs.Tables

/-!
# Merged properties

The properties of an interface are a table by name: `Model.ListsDeclared` says which names are in
it, what each of them says, that the names increase strictly, and that the last property alone is
marked. No two lists do so for the same declarations (`ListsDeclared.unique`).

What the branches of a composition declare is merged from the first to the last, a later one taking
the place of an earlier one (`mergedValue?`). As long as no two branches declare the same name,
their order makes no difference to that (`mergedValue?_of_perm`), nor, therefore, to the properties
(`merged_properties`).
-/
namespace ClientGen

namespace Fields

theorem lookup_insert (fields : Fields) (key : Scalar) (v : Value) (name : String) :
    (fields.insert key v).lookup (.text name) =
      if key = .text name then some v else fields.lookup (.text name) := by
  induction fields with
  | nil =>
    rw [insert, List.lookup_cons]
    by_cases here : key = .text name
    · simp [here]
    · simp [here, beq_eq_false_iff_ne.mpr (Ne.symm here)]
  | cons entry rest ih =>
    obtain ⟨k, w⟩ := entry
    unfold insert
    by_cases same : sameKey k key = true
    · rw [if_pos same, List.lookup_cons, List.lookup_cons]
      by_cases here : key = .text name
      · subst here
        rw [sameKey_text] at same
        simp [same]
      · by_cases there : k = .text name
        · subst there
          exact absurd (text_sameKey.mp same) here
        · simp [here, beq_eq_false_iff_ne.mpr (Ne.symm there)]
    · rw [if_neg same, List.lookup_cons, List.lookup_cons, ih]
      by_cases there : k = .text name
      · have here : key ≠ .text name := by
          rintro rfl
          exact same (sameKey_text.mpr there)
        simp [there, here]
      · simp [beq_eq_false_iff_ne.mpr (Ne.symm there)]

/-- Of entries that are set one after another, the last one with a name counts. -/
theorem lookup_declareAll (fields : Fields) (entries : List (Scalar × Value)) (name : String) :
    (Model.declareAll fields entries).lookup (.text name) =
      (entries.reverse.lookup (.text name)).or (fields.lookup (.text name)) := by
  induction entries generalizing fields with
  | nil => rfl
  | cons entry rest ih =>
    obtain ⟨key, v⟩ := entry
    have last : [(key, v)].lookup (.text name) = if key = .text name then some v else none := by
      rw [List.lookup_cons]
      by_cases here : key = .text name
      · simp [here]
      · simp [here, beq_eq_false_iff_ne.mpr (Ne.symm here)]
    change (Model.declareAll (fields.insert key v) rest).lookup _ = _
    rw [ih, lookup_insert, List.reverse_cons, List.lookup_append, last, Option.or_assoc]
    split <;> rfl

theorem nodup_declareAll {fields : Fields} (distinct : (fields.map Prod.fst).Nodup)
    (entries : List (Scalar × Value)) :
    ((Model.declareAll fields entries).map Prod.fst).Nodup := by
  induction entries generalizing fields with
  | nil => exact distinct
  | cons entry rest ih => exact ih (nodup_insert distinct entry.1 entry.2)

def Texts (fields : Fields) : Prop := ∀ key ∈ fields.map Prod.fst, ∃ name, key = .text name

theorem texts_insert {fields : Fields} {key : Scalar} {v : Value} :
    Texts (fields.insert key v) ↔ Texts fields ∧ ∃ name, key = .text name := by
  unfold Texts
  induction fields with
  | nil => simp [insert]
  | cons entry rest ih =>
    obtain ⟨k, w⟩ := entry
    unfold insert
    split
    · rename_i same
      simp only [List.map_cons, List.forall_mem_cons]
      refine (and_iff_left_of_imp ?_).symm
      rintro ⟨⟨name, rfl⟩, -⟩
      exact ⟨name, text_sameKey.mp same⟩
    · simp only [List.map_cons, List.forall_mem_cons, ih, and_assoc]

theorem texts_declareAll {fields : Fields} {entries : List (Scalar × Value)} :
    Texts (Model.declareAll fields entries) ↔ Texts fields ∧ Texts entries := by
  induction entries generalizing fields with
  | nil => simp [Texts, Model.declareAll]
  | cons entry rest ih =>
    change Texts (Model.declareAll (fields.insert entry.1 entry.2) rest) ↔ _
    rw [ih, texts_insert, and_assoc]
    simp [Texts]

theorem declareAll_eq_nil {fields : Fields} {entries : List (Scalar × Value)} :
    Model.declareAll fields entries = [] ↔ fields = [] ∧ entries = [] := by
  induction entries generalizing fields with
  | nil => simp [Model.declareAll]
  | cons entry rest ih =>
    change Model.declareAll (fields.insert entry.1 entry.2) rest = [] ↔ _
    rw [ih]
    refine iff_of_false (fun both => ?_) (by simp)
    cases fields with
    | nil => cases both.1
    | cons first others =>
      have none := both.1
      unfold insert at none
      split at none <;> cases none

end Fields

namespace Model

/-- The properties are those that `declared` gives values for, the ones that satisfy `Required`
being required. -/
structure ListsDeclared (path : String) (declared : String → Option Value)
    (Required : String → Prop) (properties : List Property) : Prop where
  names : ∀ name, name ∈ properties.map Property.name ↔ (declared name).isSome = true
  values : ∀ p ∈ properties, ∃ v, declared p.name = some v ∧ p.key = Naming.propertyKey p.name ∧
    p.description = descriptionOf v ∧
    typeAt (Schema.memberPath path (.text p.name)) v = .ok p.type
  required : ∀ p ∈ properties, p.required = true ↔ Required p.name
  sorted : (properties.map Property.name).Pairwise (· < ·)
  marked : ∀ (index : Nat) (p : Property), properties[index]? = some p →
    (p.isLast = true ↔ index + 1 = properties.length)

/-- The same declarations are listed in one way only. -/
theorem ListsDeclared.unique {path : String} {declared : String → Option Value}
    {Required : String → Prop} {properties others : List Property}
    (listed : ListsDeclared path declared Required properties)
    (relisted : ListsDeclared path declared Required others) : properties = others := by
  have names : properties.map Property.name = others.map Property.name :=
    listed.sorted.eq_of_mem_iff relisted.sorted fun name => by
      rw [listed.names, relisted.names]
  have length : properties.length = others.length := by
    simpa using congrArg List.length names
  refine List.ext_getElem length fun index here there => ?_
  have first := List.getElem?_eq_getElem here
  have second := List.getElem?_eq_getElem there
  have name : properties[index].name = others[index].name := by
    simpa [first, second] using congrArg (·[index]?) names
  have within : properties[index] ∈ properties := List.getElem_mem here
  have among : others[index] ∈ others := List.getElem_mem there
  obtain ⟨v, found, key, description, typed⟩ := listed.values _ within
  obtain ⟨w, refound, key', description', typed'⟩ := relisted.values _ among
  rw [← name, found, Option.some.injEq] at refound
  subst refound
  rw [← name] at key' typed'
  have type : properties[index].type = others[index].type :=
    Except.ok.inj (typed.symm.trans typed')
  have required : properties[index].required = others[index].required := by
    rw [Bool.eq_iff_iff, listed.required _ within, relisted.required _ among, name]
  have mark : properties[index].isLast = others[index].isLast := by
    rw [Bool.eq_iff_iff, listed.marked _ _ first, relisted.marked _ _ second, length]
  exact Property.mk.injEq .. ▸ ⟨name, key.trans key'.symm, required,
    description.trans description'.symm, type, mark⟩

def sortedByName (properties : List Property) : List Property :=
  properties.mergeSort fun p q => decide (p.name ≤ q.name)

def asLast (p : Property) : Property := { p with isLast := true }

section Listed

variable {path : String} {required : Value} {fields : Fields} {properties read : List Property}

/-- The properties are read from the entries one by one, sorted, and the last one is marked. -/
theorem propertiesOf_eq_ok : propertiesOf path required fields = .ok properties ↔
    ∃ read, fields.mapM (fun e => property path required e.1 e.2) = .ok read ∧
      properties = markLast asLast (sortedByName read) := by
  unfold propertiesOf
  rw [bind_eq_ok]
  refine exists_congr fun read => and_congr_right fun _ => ?_
  change Except.ok (markLast asLast (sortedByName read)) = _ ↔ _
  rw [Except.ok.injEq, eq_comm]

/-- The names of the properties that are read from entries are the keys of the entries. -/
theorem keys_of_read
    (paired : List.Forall₂ (fun e p => property path required e.1 e.2 = .ok p) fields read) :
    fields.map Prod.fst = (read.map Property.name).map Scalar.text := by
  induction paired with
  | nil => rfl
  | cons head _ ih =>
    rw [List.map_cons, ih, (property_named head).1]
    rfl

theorem texts_of_propertiesOf (success : propertiesOf path required fields = .ok properties) :
    fields.Texts := by
  obtain ⟨read, passed, -⟩ := propertiesOf_eq_ok.mp success
  intro key member
  rw [keys_of_read (forall₂_of_mapM_ok passed)] at member
  obtain ⟨name, -, rfl⟩ := List.mem_map.mp member
  exact ⟨name, rfl⟩

/-- Sorting properties with distinct names orders the names strictly. -/
theorem names_sorted (distinct : (read.map Property.name).Nodup) :
    ((sortedByName read).map Property.name).Pairwise (· < ·) := by
  have ordered := @List.pairwise_mergeSort _ (fun p q : Property => decide (p.name ≤ q.name))
    (fun a b c ab bc => decide_eq_true ((of_decide_eq_true ab).trans (of_decide_eq_true bc)))
    (fun a b => by simpa using String.le_total a.name b.name) read
  have apart : ((sortedByName read).map Property.name).Nodup :=
    ((List.mergeSort_perm read _).map Property.name).nodup_iff.mpr distinct
  rw [List.pairwise_map]
  refine (ordered.and (List.pairwise_map.mp apart)).imp fun both => ?_
  exact lt_of_le_of_ne (of_decide_eq_true both.1) both.2

/-- Behind a property is the entry that it is read from. The last property is marked. -/
theorem source_of_propertiesOf (success : propertiesOf path required fields = .ok properties)
    {index : Nat} {p : Property} (there : properties[index]? = some p) :
    ∃ v, (.text p.name, v) ∈ fields ∧
      property path required (.text p.name) v = .ok { p with isLast := false } ∧
      (p.isLast = true ↔ index + 1 = properties.length) := by
  obtain ⟨read, passed, rfl⟩ := propertiesOf_eq_ok.mp success
  rw [length_markLast]
  rw [getElem?_markLast] at there
  have source : ∀ q, (sortedByName read)[index]? = some q → ∃ v, (.text q.name, v) ∈ fields ∧
      property path required (.text q.name) v = .ok q ∧ q.isLast = false := by
    intro q found
    have among := List.mem_mergeSort.mp (List.mem_of_getElem? found)
    obtain ⟨⟨key, v⟩, member, built⟩ := exists_of_forall₂ (forall₂_of_mapM_ok passed).flip among
    obtain ⟨name, isRequired, t, rfl, -, -, rfl⟩ := property_eq_ok.mp built
    exact ⟨v, member, built, rfl⟩
  split at there
  · rename_i last
    obtain ⟨q, found, rfl⟩ := Option.map_eq_some_iff.mp there
    obtain ⟨v, member, built, unmarked⟩ := source q found
    refine ⟨v, member, ?_, iff_of_true rfl last⟩
    rw [asLast, ← unmarked]
    exact built
  · rename_i notLast
    obtain ⟨v, member, built, unmarked⟩ := source p there
    refine ⟨v, member, ?_, iff_of_false (by simp [unmarked]) notLast⟩
    rw [← unmarked]
    exact built

/-- Entries with distinct names are listed as properties. -/
theorem listsDeclared_of_propertiesOf {Required : String → Prop}
    (distinct : (fields.map Prod.fst).Nodup)
    (asked : ∀ name named, required.names (.text name) = .ok named →
      (named = true ↔ Required name))
    (success : propertiesOf path required fields = .ok properties) :
    ListsDeclared path fields.get? Required properties := by
  have held : ∀ name v, fields.get? name = some v ↔ (.text name, v) ∈ fields := fun name v =>
    Table.lookup_eq_some distinct (.text name) v
  refine ⟨fun name => ?_, fun p member => ?_, fun p member => ?_, ?_, fun index p there => ?_⟩
  · rw [mem_names_propertiesOf success, Option.isSome_iff_exists]
    simp only [held, List.mem_map, Prod.exists]
    exact ⟨fun ⟨key, v, among, own⟩ => ⟨v, own ▸ among⟩, fun ⟨v, among⟩ => ⟨_, v, among, rfl⟩⟩
  · obtain ⟨index, there⟩ := List.mem_iff_getElem?.mp member
    obtain ⟨v, among, built, -⟩ := source_of_propertiesOf success there
    obtain ⟨name, isRequired, t, key, -, typed, own⟩ := property_eq_ok.mp built
    rw [Property.mk.injEq] at own
    obtain ⟨rfl, written, -, description, rfl, -⟩ := own
    exact ⟨v, (held _ v).mpr among, written, description, typed⟩
  · exact asked _ _ (required_of_propertiesOf success member)
  · obtain ⟨read, passed, rfl⟩ := propertiesOf_eq_ok.mp success
    have paired := forall₂_of_mapM_ok passed
    rw [keys_of_read paired] at distinct
    rw [@map_markLast _ _ asLast Property.name (fun _ => rfl)]
    exact names_sorted (distinct.of_map Scalar.text)
  · obtain ⟨v, -, -, marked⟩ := source_of_propertiesOf success there
    exact marked

end Listed

def declaredValue? (part : Fields) (name : String) : Option Value :=
  (declaredEntries part).reverse.lookup (.text name)

/-- The value that parts declare for a property, where a later part takes the place of an earlier
one. -/
def mergedValue? : List Fields → String → Option Value
  | [], _ => none
  | part :: rest, name => (mergedValue? rest name).or (declaredValue? part name)

example (v w : Value) : mergedValue? [
    [(.text "properties", .object [(.text "name", v)])],
    [(.text "properties", .object [(.text "name", w), (.text "color", v)])]] "name" = some w := rfl

/-- No property is declared by two of the parts. -/
def DeclareApart (parts : List Fields) : Prop :=
  parts.Pairwise fun part other => (declaredNames part).Disjoint (declaredNames other)

instance (parts : List Fields) : Decidable (DeclareApart parts) :=
  inferInstanceAs (Decidable (parts.Pairwise fun part other =>
    ∀ key ∈ declaredNames part, key ∈ declaredNames other → False))

theorem isSome_declaredValue? {part : Fields} {name : String} :
    (declaredValue? part name).isSome = true ↔ .text name ∈ declaredNames part := by
  rw [declaredValue?, List.lookup_isSome_iff, declaredNames_eq, List.mem_map]
  simp only [List.mem_reverse, beq_iff_eq, eq_comm (a := Scalar.text name)]

theorem lookup_flatMap_declaredEntries (parts : List Fields) (name : String) :
    (parts.flatMap declaredEntries).reverse.lookup (.text name) = mergedValue? parts name := by
  induction parts with
  | nil => rfl
  | cons part rest ih =>
    rw [List.flatMap_cons, List.reverse_append, List.lookup_append, ih]
    rfl

/-- Parts that declare no property together are merged to the same in any order. -/
theorem mergedValue?_of_perm {parts others : List Fields} (permuted : parts.Perm others)
    (apart : DeclareApart parts) (name : String) :
    mergedValue? parts name = mergedValue? others name := by
  induction permuted with
  | nil => rfl
  | cons part _ ih => rw [mergedValue?, mergedValue?, ih (List.pairwise_cons.mp apart).2]
  | swap part other rest =>
    simp only [mergedValue?, Option.or_assoc]
    congr 1
    have disjoint := (List.pairwise_cons.mp apart).1 part List.mem_cons_self
    cases first : declaredValue? part name with
    | none => simp
    | some v =>
      cases second : declaredValue? other name with
      | none => simp
      | some w =>
        have one : .text name ∈ declaredNames part := isSome_declaredValue?.mp (by simp [first])
        have two : .text name ∈ declaredNames other := isSome_declaredValue?.mp (by simp [second])
        exact (disjoint two one).elim
  | trans first _ ih ih' =>
    rw [ih apart]
    exact ih' ((first.pairwise_iff List.Disjoint.symm).mp apart)

/-- The type of other keys does not depend on where a part stands. -/
theorem additionalTypeOf_eq_additionalTypeOf (p q : String) (part : Fields) :
    additionalTypeOf p part = additionalTypeOf q part := by
  unfold additionalTypeOf
  split
  · rw [typeAt_eq_typeAt]
  · rfl

section Composed

variable {config : Config} {name : Scalar} {path : String} {schema : Fields} {m : Model}
  {c : Composition}

/-- What the branches say together is what their parts say one by one. -/
theorem Joins.effects (joins : Joins path schema c) :
    c.parents = (branchesOf schema).filterMap parentOf? ∧
    c.properties = declareAll [] ((declaringParts schema).flatMap declaredEntries) ∧
    c.required = (declaringParts schema).flatMap requiredValues := by
  obtain ⟨branches, listed, joined⟩ := joins.joined
  have own : branchesOf schema = branches := by rw [branchesOf, listed]
  rw [declaringParts, if_pos joins.composed, own]
  exact Composition.addAll_ok joined

theorem Joins.nodup_properties (joins : Joins path schema c) :
    (c.properties.map Prod.fst).Nodup := by
  rw [joins.effects.2.1]
  exact Fields.nodup_declareAll (by simp) _

theorem Joins.get?_properties (joins : Joins path schema c) :
    c.properties.get? = mergedValue? (declaringParts schema) := by
  funext name
  rw [Fields.get?, joins.effects.2.1, Fields.lookup_declareAll, lookup_flatMap_declaredEntries]
  exact Option.or_none ..

/-- The properties of a composition are merged from the parts that declare them. -/
theorem Joins.listsDeclared (joins : Joins path schema c) {properties : List Property}
    (written : propertiesOf path (.list c.required) c.properties = .ok properties) :
    ListsDeclared path (mergedValue? (declaringParts schema))
      (fun name => ∃ part ∈ declaringParts schema, Asks part name) properties := by
  rw [← joins.get?_properties]
  refine listsDeclared_of_propertiesOf joins.nodup_properties (fun name named asked => ?_) written
  rw [Value.names_list.mp asked, joins.effects.2.2, List.mem_flatMap]
  simp only [asks_iff]

/-- A composition is an interface exactly if what its branches say together makes it one, and then
has the properties that they declare together. -/
theorem joins_of_composed (success : ofDefinition config name schema = .ok m)
    (composed : (schema.get "allOf").isSet = true) :
    ∃ c, Joins (definitionPath m.name) schema c ∧ (m.kind = .object ↔ c.IsInterface schema) ∧
      (c.IsInterface schema → propertiesOf (definitionPath m.name) (.list c.required) c.properties =
        .ok m.properties) := by
  obtain ⟨text, rfl, rfl, -, read, -⟩ := ofDefinition_ok success
  have becomes := bodyOf_eq_ok.mp read
  unfold kind Model.properties
  generalize m.body = body at becomes ⊢
  cases becomes with
  | interface joins own written => exact ⟨_, joins, iff_of_true rfl own, fun _ => written⟩
  | constants joins noInterface | text joins noInterface =>
    exact ⟨_, joins, iff_of_false (by simp) noInterface, fun own => absurd own noInterface⟩
  | array plain | union plain | whole plain => simp [plain] at composed
  | object describes => simp [describes.1] at composed

section Permuted

variable {other : Fields} {d : Composition} (joins : Joins path schema c)
  (rejoins : Joins path other d) (permuted : (branchesOf schema).Perm (branchesOf other))

include joins rejoins permuted

theorem declaringParts_perm : (declaringParts schema).Perm (declaringParts other) := by
  rw [declaringParts, declaringParts, if_pos joins.composed, if_pos rejoins.composed]
  exact permuted.filterMap ownPart?

/-- Whether a composition is an interface does not depend on the order of its branches. -/
theorem isInterface_of_perm (constants : other.get "enum" = schema.get "enum")
    (interface : c.IsInterface schema) : d.IsInterface other := by
  obtain ⟨parents, properties, -⟩ := joins.effects
  obtain ⟨reparents, reproperties, -⟩ := rejoins.effects
  have sameParents := permuted.filterMap parentOf?
  rw [← parents, ← reparents] at sameParents
  have sameEntries := (declaringParts_perm joins rejoins permuted).flatMap_right declaredEntries
  rcases interface with extends' | ⟨declares, noConstants⟩
  · exact .inl fun none => extends' (none ▸ sameParents).eq_nil
  · refine .inr ⟨fun none => declares ?_, by rw [constants, noConstants]⟩
    rw [reproperties, Fields.declareAll_eq_nil] at none
    rw [properties, Fields.declareAll_eq_nil]
    exact ⟨rfl, (none.2 ▸ sameEntries).eq_nil⟩

/-- The properties of a composition can be read whatever the order of its branches. -/
theorem exists_propertiesOf_of_perm {properties : List Property}
    (apart : DeclareApart (declaringParts schema))
    (written : propertiesOf path (.list c.required) c.properties = .ok properties) :
    ∃ others, propertiesOf path (.list d.required) d.properties = .ok others := by
  have parts := declaringParts_perm joins rejoins permuted
  have texts : Fields.Texts d.properties := by
    have own : Fields.Texts c.properties := texts_of_propertiesOf written
    rw [joins.effects.2.1, Fields.texts_declareAll] at own
    rw [rejoins.effects.2.1, Fields.texts_declareAll]
    refine ⟨own.1, fun key member => own.2 key ?_⟩
    exact ((parts.flatMap_right declaredEntries).map Prod.fst).mem_iff.mpr member
  obtain ⟨read, passed, -⟩ := propertiesOf_eq_ok.mp written
  suffices each : ∀ e ∈ d.properties,
      ∃ p, property path (.list d.required) e.1 e.2 = .ok p by
    obtain ⟨others, reread⟩ := exists_mapM_eq_ok each
    exact ⟨_, propertiesOf_eq_ok.mpr ⟨others, reread, rfl⟩⟩
  rintro ⟨key, v⟩ member
  obtain ⟨name, rfl⟩ := texts key (List.mem_map_of_mem member)
  have found : c.properties.get? name = some v := by
    rw [joins.get?_properties, mergedValue?_of_perm parts apart, ← rejoins.get?_properties]
    exact (Table.lookup_eq_some rejoins.nodup_properties _ v).mpr member
  have among := (Table.lookup_eq_some joins.nodup_properties _ v).mp found
  obtain ⟨p, -, built⟩ := exists_of_forall₂ (forall₂_of_mapM_ok passed) among
  exact ⟨_, property_eq_ok.mpr ⟨name, _, p.type, rfl, rfl, property_ok built, rfl⟩⟩

end Permuted

def withBranches (schema : Fields) (branches : List Value) : Fields :=
  schema.replace "allOf" (.list branches)

section Reordered

variable {reordered : List Value} (composed : (schema.get "allOf").isSet = true)

include composed

theorem get_allOf_withBranches (branches : List Value) :
    (withBranches schema branches).get "allOf" = .list branches :=
  Fields.get_replace_self (fun none => by simp [none, Value.isSet] at composed) _

theorem branchesOf_withBranches (branches : List Value) :
    branchesOf (withBranches schema branches) = branches := by
  rw [branchesOf, get_allOf_withBranches composed]
  rfl

theorem isSet_allOf_withBranches (joins : Joins path schema c)
    (permuted : (branchesOf schema).Perm reordered) :
    ((withBranches schema reordered).get "allOf").isSet = true := by
  obtain ⟨branches, listed, -⟩ := joins.joined
  rw [branchesOf, listed] at permuted
  have filled : reordered ≠ [] := fun none =>
    Schema.ne_nil_of_elements composed listed (none ▸ permuted).eq_nil
  rw [get_allOf_withBranches composed]
  simpa [Value.isSet] using filled

/-- The branches can be joined in another order if all types of other keys can be printed. -/
theorem exists_joins_of_perm (joins : Joins path schema c)
    (permuted : (branchesOf schema).Perm reordered)
    (typed : ∀ part ∈ declaringParts schema, ∃ t, additionalTypeOf path part = .ok t) :
    ∃ d, Joins path (withBranches schema reordered) d := by
  have filled := isSet_allOf_withBranches composed joins permuted
  obtain ⟨branches, listed, joined⟩ := joins.joined
  have own : branchesOf schema = branches := by rw [branchesOf, listed]
  rw [declaringParts, if_pos composed, own] at typed
  rw [own] at permuted
  obtain ⟨d, rejoined⟩ : ∃ d, ({} : Composition).addAll path 0 reordered = .ok d := by
    refine Composition.exists_addAll (fun branch member => ?_) fun part member place => ?_
    · exact Composition.readable_of_addAll joined branch (permuted.mem_iff.mpr member)
    · rw [additionalTypeOf_eq_additionalTypeOf place path]
      exact typed part ((permuted.filterMap ownPart?).mem_iff.mpr member)
  refine ⟨d, filled, reordered, ?_, rejoined⟩
  rw [get_allOf_withBranches composed]
  rfl

end Reordered

/-- An interface that is composed of branches has the properties that are merged from those that
are no references, a later branch taking the place of an earlier one. They are required exactly if
one of the branches requires them, increase strictly by name, and the last one alone is marked. As
long as no two branches declare the same property, the definition has the same properties with its
branches in any other order, if a model is built for it; it is if the types of other keys can be
printed. -/
theorem merged_properties (success : ofDefinition config name schema = .ok m)
    (composed : (schema.get "allOf").isSet = true) (interface : m.kind = .object) :
    ListsDeclared (definitionPath m.name) (mergedValue? (declaringParts schema))
      (fun n => ∃ part ∈ declaringParts schema, Asks part n) m.properties ∧
    ∀ reordered, (branchesOf schema).Perm reordered → DeclareApart (declaringParts schema) →
      (∀ m', ofDefinition config name (withBranches schema reordered) = .ok m' →
        m'.kind = .object ∧ m'.properties = m.properties) ∧
      ((∀ part ∈ declaringParts schema,
          ∃ t, additionalTypeOf (definitionPath m.name) part = .ok t) →
        ∃ m', ofDefinition config name (withBranches schema reordered) = .ok m') := by
  obtain ⟨c, joins, isInterface, written⟩ := joins_of_composed success composed
  have own := isInterface.mp interface
  obtain ⟨text, rfl, named, -⟩ := ofDefinition_ok success
  rw [named] at joins written ⊢
  refine ⟨joins.listsDeclared (written own), fun reordered permuted apart => ?_⟩
  have filled := isSet_allOf_withBranches composed joins permuted
  have constants : (withBranches schema reordered).get "enum" = schema.get "enum" :=
    Fields.get_replace_of_ne (by decide) ..
  have shifted := permuted
  rw [← branchesOf_withBranches composed reordered] at shifted
  constructor
  · intro m' rebuilt
    obtain ⟨d, rejoins, isInterface', rewritten⟩ := joins_of_composed rebuilt filled
    obtain ⟨_, same, renamed, -⟩ := ofDefinition_ok rebuilt
    cases same
    rw [renamed] at rejoins rewritten
    have own' := isInterface_of_perm joins rejoins shifted constants own
    have parts := declaringParts_perm joins rejoins shifted
    refine ⟨isInterface'.mpr own', ?_⟩
    have merged := funext (mergedValue?_of_perm parts apart)
    have relisted := rejoins.listsDeclared (rewritten own')
    simp only [← merged, ← parts.mem_iff] at relisted
    exact relisted.unique (joins.listsDeclared (written own))
  · intro typed
    obtain ⟨d, rejoins⟩ := exists_joins_of_perm composed joins permuted typed
    obtain ⟨others, rewritten⟩ :=
      exists_propertiesOf_of_perm joins rejoins shifted apart (written own)
    have own' := isInterface_of_perm joins rejoins shifted constants own
    exact Becomes.exists_ofDefinition config (.interface rejoins own' rewritten)

end Composed

/-- The properties of a cat are merged from two of the three branches, and are the same when the
branches come in reverse order. -/
theorem merged_properties_cat : ∃ m m', ofDefinition {} (.text "Cat") catSchema = .ok m ∧
    ofDefinition {} (.text "Cat") (withBranches catSchema (branchesOf catSchema).reverse) = .ok m' ∧
    (catSchema.get "allOf").isSet = true ∧ m.kind = .object ∧
    DeclareApart (declaringParts catSchema) ∧
    ListsDeclared (definitionPath m.name) (mergedValue? (declaringParts catSchema))
      (fun n => ∃ part ∈ declaringParts catSchema, Asks part n) m.properties ∧
    m'.kind = .object ∧ m'.properties = m.properties := by
  obtain ⟨m, built, interface, -⟩ := exists_cat
  have composed : (catSchema.get "allOf").isSet = true := by decide
  have apart : DeclareApart (declaringParts catSchema) := by decide
  obtain ⟨listed, reordered⟩ := merged_properties built composed interface
  obtain ⟨same, builds⟩ := reordered _ (List.reverse_perm _).symm apart
  obtain ⟨m', rebuilt⟩ := builds fun part member => by
    have closed : part.get "additionalProperties" = .null := by
      revert part
      decide
    exact ⟨none, by rw [additionalTypeOf, closed]; rfl⟩
  exact ⟨m, m', built, rebuilt, composed, interface, apart, listed, same m' rebuilt⟩

end Model

end ClientGen
