import ClientGen.Proofs.CandidateOrder
import ClientGen.Proofs.ClosedModels
import ClientGen.Proofs.DeclaredProperties
import ClientGen.Proofs.FileStems
import ClientGen.Proofs.TypeSources

/-!
# Dependencies that a definition mentions

The dependencies of a model are collected from all names in its types, the words for built-in types
among them, and a definition may have the name of such a word. A model then depends on what its
definition never mentions: the dependencies are those that the definition mentions, and parents,
exactly if no word for a built-in type, and no literal for a number, leads to another model
(`dependencies_genuine_iff`).
-/
namespace ClientGen

open Value (Holds holds_get not_holds_scalar)

/-- What a value holds when it is gone through holds no other objects than the value. -/
theorem Value.holds_of_elements {v part : Value} {values : List Value} {inner : Fields}
    (listed : v.elements = .ok values) (member : part ∈ values)
    (holds : Holds part (.object inner)) : Holds v (.object inner) := by
  cases v with
  | list items =>
    cases listed
    exact .head member holds
  | object fields =>
    cases listed
    obtain ⟨⟨key, w⟩, -, rfl⟩ := List.mem_map.mp member
    exact absurd holds not_holds_scalar
  | scalar s =>
    cases s with
    | text s =>
      cases listed
      obtain ⟨c, -, rfl⟩ := List.mem_map.mp member
      exact absurd holds not_holds_scalar
    | null | bool _ | int _ | float _ | date _ => cases listed

namespace Fields

theorem mem_values_insert {fields : Fields} {key : Scalar} {v w : Value}
    (member : w ∈ (fields.insert key v).map Prod.snd) : w ∈ fields.map Prod.snd ∨ w = v := by
  induction fields with
  | nil => simpa [insert] using member
  | cons entry rest ih =>
    obtain ⟨k, old⟩ := entry
    rw [insert] at member
    split at member
    · rcases List.mem_cons.mp member with here | later
      · exact .inr here
      · exact .inl (List.mem_cons_of_mem _ later)
    · rcases List.mem_cons.mp member with here | later
      · exact .inl (here ▸ List.mem_cons_self)
      · exact (ih later).imp_left (List.mem_cons_of_mem _)

theorem mem_values_insertAll {entries : List (Scalar × Value)} {fields : Fields} {w : Value}
    (member : w ∈ (entries.foldl (fun fields (k, v) => fields.insert k v) fields).map Prod.snd) :
    w ∈ fields.map Prod.snd ∨ w ∈ entries.map Prod.snd := by
  induction entries generalizing fields with
  | nil => exact .inl member
  | cons entry rest ih =>
    rcases ih member with earlier | later
    · refine (mem_values_insert earlier).imp_right fun here => ?_
      rw [here]
      exact List.mem_cons_self
    · exact .inr (List.mem_cons_of_mem _ later)

end Fields

namespace Model

/-- The values of the entries that a value stands for hold no other objects than the value. -/
theorem holds_of_entriesOf {v w : Value} {entries : List (Scalar × Value)} {inner : Fields}
    (read : entriesOf v = .ok entries) (member : w ∈ entries.map Prod.snd)
    (holds : Holds w (.object inner)) : Holds v (.object inner) := by
  unfold entriesOf at read
  split at read
  · cases read
    exact .head member holds
  · obtain ⟨values, listed, read⟩ := bind_eq_ok.mp read
    obtain ⟨entry, among, rfl⟩ := List.mem_map.mp member
    obtain ⟨pair, within, read⟩ := exists_of_forall₂ (forall₂_of_mapM_ok read).flip among
    obtain ⟨sides, both, read⟩ := bind_eq_ok.mp read
    refine Value.holds_of_elements listed within (Value.holds_of_elements both ?_ holds)
    split at read
    · cases read
      simp
    · cases read
    · cases read

/-- The properties of an object hold no other objects than the object. -/
theorem holds_of_properties {part inner : Fields} {w : Value} {entries : List (Scalar × Value)}
    (declared : entriesOf ((part.get "properties").orElse (.object [])) = .ok entries)
    (member : w ∈ entries.map Prod.snd) (holds : Holds w (.object inner)) :
    Holds (.object part) (.object inner) := by
  unfold Value.orElse at declared
  split at declared
  · exact holds_get (holds_of_entriesOf declared member holds)
  · cases declared
    cases member

theorem holds_of_declaredEntries {part inner : Fields} {w : Value}
    (member : w ∈ (declaredEntries part).map Prod.snd) (holds : Holds w (.object inner)) :
    Holds (.object part) (.object inner) := by
  unfold declaredEntries at member
  split at member
  · rename_i entries declared
    exact holds_of_properties declared member holds
  · cases member

/-- The properties of a composition hold no other objects than its branches. -/
theorem Composition.holds_of_addAll {c last : Composition} {path : String} {w : Value}
    {inner : Fields} {start : Nat} {branches : List Value}
    (success : c.addAll path start branches = .ok last)
    (member : w ∈ last.properties.map Prod.snd) (holds : Holds w (.object inner)) :
    w ∈ c.properties.map Prod.snd ∨ ∃ branch ∈ branches, Holds branch (.object inner) := by
  obtain ⟨-, properties, -⟩ := addAll_ok success
  rw [properties] at member
  refine (Fields.mem_values_insertAll member).imp_right fun declared => ?_
  rw [List.map_flatMap, List.mem_flatMap] at declared
  obtain ⟨part, among, declared⟩ := declared
  obtain ⟨branch, listed, own⟩ := List.mem_filterMap.mp among
  obtain ⟨rfl, -⟩ := ownPart?_eq_some.mp own
  exact ⟨_, listed, holds_of_declaredEntries declared holds⟩

/-- A value that is written in a model holds no other objects than the definition. -/
theorem Renders.holds {path place : String} {schema inner : Fields} {v : Value}
    (renders : Renders path schema place v) (holds : Holds v (.object inner)) :
    Holds (.object schema) (.object inner) := by
  cases renders with
  | whole => exact holds
  | variant plain untyped varies listed member =>
    exact holds_get (Value.holds_of_elements listed (List.mem_of_getElem? member) holds)
  | property describes declared member =>
    refine holds_of_properties ?_ (List.mem_map_of_mem member) holds
    rw [declared]
    rfl
  | additional describes declared => exact holds_get (declared ▸ holds)
  | merged composed listed joined interface member =>
    rcases Composition.holds_of_addAll joined (List.mem_map_of_mem member) holds with none | some
    · cases none
    · obtain ⟨branch, among, inside⟩ := some
      exact holds_get (Value.holds_of_elements listed among inside)
  | mergedAdditional composed listed joined interface earlier first own declared =>
    have within := holds_get (declared ▸ holds)
    exact holds_get (Value.holds_of_elements listed (by simp) within)

end Model

namespace Models

open Schema (Mentions Basic mentions_or_basic_of_type exists_named)

variable {config : Config} {definitions : Fields} {models : Table Model} {key : String}
  {m : Model}

theorem types_of_typesOf {t : TypeExpr} (member : t ∈ typesOf m) : t ∈ m.body.types := by
  unfold typesOf at member
  cases body : m.body with
  | simple type =>
    rw [body] at member
    dsimp only at member
    split at member
    · exact member
    · cases member
  | object parents properties additional | enum constants | array element | union type =>
    rw [body] at member
    exact member

/-- A name that a type of a model depends on and that leads to a model is the word for a built-in
type or a literal for a number, or it comes from what stands in the definition. -/
theorem mentions_or_basic_of_typesOf {path name : String} {schema : Fields} {body : ModelBody}
    {parents : List String} (read : Model.bodyOf path schema = .ok body)
    (written : m.body = body.withParents parents) {t : TypeExpr} (member : t ∈ typesOf m)
    (among : name ∈ t.dependencyNames)
    (words : ∀ c ∈ (Dependencies.keyOf name).toList, Naming.isWord c = true) :
    Mentions (.object schema) (Dependencies.keyOf name) ∨
      Basic (.object schema) (Dependencies.keyOf name) := by
  obtain ⟨word, named, leads⟩ := exists_named among
  have rendered : ∀ {place v u}, Model.Renders path schema place v → typeAt place v = .ok u →
      u.Names word → Mentions (.object schema) (Dependencies.keyOf name) ∨
        Basic (.object schema) (Dependencies.keyOf name) := by
    intro place v u renders typed names
    have within : ∀ fields, Holds v (.object fields) → Holds (.object schema) (.object fields) :=
      fun fields => renders.holds
    exact (mentions_or_basic_of_type typed names leads words).imp (·.mono within) (·.mono within)
  have inBody : t ∈ body.types := by
    have types := types_of_typesOf member
    rwa [written, ModelBody.types_withParents] at types
  rcases Model.comesFrom_of_mem read inBody with
    ⟨place, v, renders, typed⟩ | ⟨ts, rfl, each⟩ | rfl | rfl
  · exact rendered renders typed named
  · obtain ⟨u, joined, names⟩ := TypeExpr.names_compound.mp named
    obtain ⟨place, v, renders, typed⟩ := each u joined
    exact rendered renders typed names
  · rw [← TypeExpr.names_scalar.mp named] at leads
    exact .inr (Schema.basic_of_any leads)
  · rw [← TypeExpr.names_scalar.mp named] at leads
    exact .inr (Schema.basic_of_leads leads (by cbv) (by cbv)
      (by decide : "string" ∈ Schema.builtInKeys))

/-- The key of a model that is read from a definition is made of word characters. -/
theorem ReadFrom.isWord_key (read : ReadFrom definitions key m) :
    ∀ c ∈ key.toList, Naming.isWord c = true := by
  have filed := read.filed
  obtain ⟨name, schema, body, parents, -, -, named, -, -, -⟩ := read
  have words : ∀ c ∈ (Naming.className name).toList, Naming.isWord c = true :=
    fun _ => Naming.isWord_of_mem_className
  rw [← filed, named, Naming.toList_key words]
  intro c member
  obtain ⟨d, inside, lower⟩ := List.mem_flatMap.mp member
  obtain ⟨e, single, stays, -⟩ := Naming.exists_lowerChar (words d inside)
  rw [single, List.mem_singleton] at lower
  exact lower ▸ stays

/-- A dependency of a model is collected from one of its names, and it is not the model itself. -/
theorem exists_name_of_dependency
    (success : (ofDefinitions config (.object definitions)).outcome = .ok models)
    (present : models.get? key = some m) {c : String} (depends : c ∈ m.dependencies) :
    (∃ name ∈ namesOf m, ∃ d, models.get? (Dependencies.keyOf name) = some d ∧ d.className = c) ∧
      Dependencies.ownerKey (some m.className) ≠ some (Naming.key c) := by
  obtain ⟨fields, filed, linked, -, -, -, rfl⟩ := ofDefinitions_eq_ok.mp success
  obtain ⟨bare, found, rfl⟩ := get?_withDependencies.mp present
  have gathered := Dependencies.gathered_collect linked (some bare.className) (candidatesOf bare)
  obtain ⟨name, used, d, there, same⟩ := gathered.sourced c depends
  exact ⟨⟨name, used, _, get?_withDependencies.mpr ⟨d, there, rfl⟩, same⟩,
    gathered.foreign c depends⟩

/-- A name of a model that leads to another model makes it a dependency. -/
theorem dependency_of_name
    (success : (ofDefinitions config (.object definitions)).outcome = .ok models)
    (present : models.get? key = some m) {name : String} (used : name ∈ namesOf m) {d : Model}
    (found : models.get? (Dependencies.keyOf name) = some d)
    (other : Dependencies.ownerKey (some m.className) ≠ some (Dependencies.keyOf name)) :
    d.className ∈ m.dependencies := by
  have keyed := (closed_ofDefinitions success).keyed
  obtain ⟨fields, filed, linked, -, -, -, rfl⟩ := ofDefinitions_eq_ok.mp success
  obtain ⟨bare, here, rfl⟩ := get?_withDependencies.mp present
  obtain ⟨target, there, rfl⟩ := get?_withDependencies.mp found
  have linkedKeyed : Keyed linked := by
    intro key m there
    have filed := keyed key _ (get?_withDependencies.mpr ⟨m, there, rfl⟩)
    exact filed
  have collected := Dependencies.collected_of_candidates linkedKeyed (some bare.className)
    (candidatesOf bare)
  exact collected.complete name used target there other

/-- The class is that of a parent of the model, or of a model that a reference or a type given word
for word in its definition leads to. -/
def Genuine (m : Model) (schema : Fields) (className : String) : Prop :=
  className ∈ m.parents ∨ Mentions (.object schema) (Naming.key className)

/-- The dependencies of a model are its parents and the models that its definition mentions, exactly
if each word for a built-in type and each literal for a number that its types depend on leads to no
model, to itself, or to one of these. -/
theorem dependencies_genuine_iff
    (success : (ofDefinitions config (.object definitions)).outcome = .ok models)
    (present : models.get? key = some m) :
    ∃ name schema, definitionOf key definitions = some (name, schema) ∧
      ((∀ c ∈ m.dependencies, Genuine m schema c) ↔
        ∀ t ∈ typesOf m, ∀ n ∈ t.dependencyNames,
          Basic (.object schema) (Dependencies.keyOf n) →
          ∀ d, models.get? (Dependencies.keyOf n) = some d →
            (d.className = m.className ∧ m.className ≠ "") ∨ Genuine m schema d.className) := by
  have closed := closed_ofDefinitions success
  have readFrom : ∀ {k d}, models.get? k = some d → ReadFrom definitions k d :=
    fun there => readFrom_ofDefinitions success there
  obtain ⟨name, schema, body, parents, behind, -, -, read, written, -⟩ := readFrom present
  refine ⟨name, schema, behind, ?_, ?_⟩
  · intro genuine t member n among _ d found
    by_cases own : Dependencies.ownerKey (some m.className) = some (Dependencies.keyOf n)
    · left
      have nonempty : m.className ≠ "" := by
        intro empty
        rw [empty] at own
        cases own
      rw [← ownerKey_eq_some own, closed.keyed key m present, present] at found
      cases found
      exact ⟨rfl, nonempty⟩
    · have used : n ∈ namesOf m :=
        namesOf_eq m ▸ List.mem_append_right _ (List.mem_flatMap.mpr ⟨t, member, among⟩)
      exact .inr (genuine _ (dependency_of_name success present used found own))
  · intro harmless c depends
    obtain ⟨⟨n, used, d, found, rfl⟩, foreign⟩ :=
      exists_name_of_dependency success present depends
    have filed : Naming.key d.className = Dependencies.keyOf n := closed.keyed _ d found
    rw [namesOf_eq] at used
    rcases List.mem_append.mp used with parent | typed
    · -- a parent is named by the class of its model, which no stripping changes
      obtain ⟨p, there, rfl, -⟩ := closed.parent key m present n parent
      rw [Dependencies.keyOf, (readFrom there).strip_className, there] at found
      cases found
      exact .inl parent
    · obtain ⟨t, member, among⟩ := List.mem_flatMap.mp typed
      have words := (readFrom found).isWord_key
      rcases mentions_or_basic_of_typesOf read written member among words with mentions | basic
      · exact .inr (filed ▸ mentions)
      · rcases harmless t member n among basic d found with ⟨own, nonempty⟩ | genuine
        · refine absurd ?_ foreign
          rw [own]
          unfold Dependencies.ownerKey
          split
          · rename_i empty
            exact absurd (Option.some.inj empty) nonempty
          · rename_i same
            rw [Option.some.inj same]
          · rename_i none
            cases none
        · exact genuine

/-- The definition of a pet, with one of an object called `other` before it. -/
def petBeside (other : String) (pet : Fields) : Fields :=
  [(.text other, .object [(.text "type", .text "object")]), (.text "Pet", .object pet)]

theorem definitionOf_petBeside (other : String) (pet : Fields) :
    definitionOf "pet" (petBeside other pet) = some ("Pet", pet) := by
  have filed : Naming.key (Naming.className "Pet") = "pet" := by cbv
  simp [petBeside, definitionOf, entryFor_eq_some.mpr ⟨rfl, rfl, filed⟩]

def withProperty (name : String) (schema : Fields) : Fields :=
  [(.text "type", .text "object"), (.text "properties", .object [(.text name, .object schema)])]

def ownerRef : Fields := [(.text "$ref", .text "#/definitions/Owner")]

theorem mentions_owner : Mentions (.object (withProperty "owner" ownerRef)) "owner" :=
  ⟨ownerRef, .head (.tail _ (.head _)) (.single (.head _)), .inl ⟨_, rfl, by cbv⟩⟩

/-- A pet depends on its owner, to which its definition refers. -/
theorem dependencies_genuine_owner : ∃ models m,
    (ofDefinitions {} (.object (petBeside "Owner" (withProperty "owner" ownerRef)))).outcome =
      .ok models ∧
    models.get? "pet" = some m ∧ m.dependencies = ["Owner"] ∧
    ∀ c ∈ m.dependencies, Genuine m (withProperty "owner" ownerRef) c := by
  obtain ⟨models, m, owner, success, present, there, depends, types, named⟩ :
      ∃ models m owner, (ofDefinitions {} (.object (petBeside "Owner"
          (withProperty "owner" ownerRef)))).outcome = .ok models ∧
        models.get? "pet" = some m ∧ models.get? "owner" = some owner ∧
        m.dependencies = ["Owner"] ∧ typesOf m = [.scalar "Owner"] ∧ owner.className = "Owner" :=
    ⟨_, _, _, by cbv, by cbv, by cbv, by cbv, by cbv, by cbv⟩
  obtain ⟨name, schema, behind, genuine⟩ := dependencies_genuine_iff success present
  rw [definitionOf_petBeside] at behind
  cases behind
  refine ⟨models, m, success, present, depends, genuine.mpr ?_⟩
  intro t member n among _ d found
  have key : Dependencies.keyOf n = "owner" := by
    rw [types, List.mem_singleton] at member
    rw [member, TypeExpr.dependencyNames, TypeExpr.scalar, Option.getD_none,
      List.mem_singleton] at among
    rw [among]
    cbv
  rw [key, there] at found
  cases found
  refine .inr (.inr ?_)
  rw [named]
  have same : Naming.key "Owner" = "owner" := by cbv
  exact same ▸ mentions_owner

/-- An object that is no reference and gives no type word for word. -/
def Silent (v : Value) : Prop :=
  ∀ fields : Fields, v = .object fields →
    fields.get "$ref" = .null ∧ fields.get "x-type" = .null

theorem not_mentions_of_silent {v : Value} (silent : Throughout Value.parts Silent v)
    (key : String) : ¬Mentions v key := by
  rintro ⟨fields, holds, ⟨ref, given, -⟩ | ⟨given, -⟩⟩
  · rw [(silent _ holds fields rfl).1] at given
    cases given
  · exact given (silent _ holds fields rfl).2

theorem silent_object {fields : Fields} (noRef : fields.get "$ref" = .null)
    (noText : fields.get "x-type" = .null)
    (inside : ∀ v ∈ fields.map Prod.snd, Throughout Value.parts Silent v) :
    Throughout Value.parts Silent (.object fields) := by
  refine throughout_iff.mpr ⟨?_, inside⟩
  rintro _ ⟨⟩
  exact ⟨noRef, noText⟩

theorem silent_scalar (s : Scalar) : Throughout Value.parts Silent (.scalar s) :=
  throughout_leaf rfl fun _ same => by cases same

def plainText : Fields := [(.text "type", .text "string")]

theorem silent_plainText :
    Throughout Value.parts Silent (.object (withProperty "name" plainText)) := by
  have text : Throughout Value.parts Silent (.object plainText) :=
    silent_object rfl rfl (by simp [plainText, silent_scalar])
  have properties : Throughout Value.parts Silent (.object [(.text "name", .object plainText)]) :=
    silent_object rfl rfl (by simp [text])
  exact silent_object rfl rfl (by simp [withProperty, silent_scalar, properties])

/-- A pet with a name depends on the definition that is called like the type of a text, although its
own definition mentions nothing. -/
theorem dependency_on_word : ∃ models m,
    (ofDefinitions {} (.object (petBeside "String" (withProperty "name" plainText)))).outcome =
      .ok models ∧
    models.get? "pet" = some m ∧ m.dependencies = ["String"] ∧
    ¬Genuine m (withProperty "name" plainText) "String" := by
  obtain ⟨models, m, success, present, depends, parents⟩ :
      ∃ models m, (ofDefinitions {} (.object (petBeside "String"
          (withProperty "name" plainText)))).outcome = .ok models ∧
        models.get? "pet" = some m ∧ m.dependencies = ["String"] ∧ m.parents = [] :=
    ⟨_, _, by cbv, by cbv, by cbv, by cbv⟩
  refine ⟨models, m, success, present, depends, ?_⟩
  rintro (parent | mentions)
  · rw [parents] at parent
    cases parent
  · exact not_mentions_of_silent silent_plainText _ mentions

end Models

end ClientGen
