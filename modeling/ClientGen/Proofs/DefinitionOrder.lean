import Mathlib
import ClientGen.Proofs.Hierarchy

/-!
# The order of the definitions

No key of the model table is given by two definitions, as long as their class names differ. What is
filed under a key then does not depend on the order of the definitions (`get?_filed_of_perm`), and
linking and collecting dependencies look models up by their keys alone. Only the subclasses of a
model are listed in the order of the table (`order_of_definitions`).
-/
namespace ClientGen

/-- The same model, but for the order in which its subclasses are listed. -/
structure Model.Alike (m n : Model) : Prop where
  subclasses : m.subclasses.Perm n.subclasses
  rest : n = { m with subclasses := n.subclasses }

theorem Model.Alike.depending {m n : Model} (same : m.Alike n) (names : List String) :
    Model.Alike { m with dependencies := names } { n with dependencies := names } :=
  ⟨same.subclasses, congrArg (fun o : Model => { o with dependencies := names }) same.rest⟩

namespace Models

/-- The key of the model table that a definition gives, if it is an object. -/
def givenKey? : Scalar → Value → Option String
  | .text name, .object _ => some (Naming.key (Naming.className name))
  | _, _ => none

/-- No two definitions give the same key of the model table. -/
def ClassesApart (definitions : Fields) : Prop :=
  (definitions.filterMap fun entry => givenKey? entry.1 entry.2).Nodup

instance (definitions : Fields) : Decidable (ClassesApart definitions) :=
  inferInstanceAs (Decidable (List.Nodup _))

section Filing

variable {config : Config} {definitions reordered : Fields} {models filed refiled : Table Model}

theorem ClassesApart.perm (apart : ClassesApart definitions)
    (permuted : definitions.Perm reordered) : ClassesApart reordered :=
  (permuted.filterMap _).nodup_iff.mp apart

theorem ClassesApart.eq_of_givenKey? (apart : ClassesApart definitions) {one other : Scalar × Value}
    (member : one ∈ definitions) (among : other ∈ definitions) {key : String}
    (given : givenKey? one.1 one.2 = some key) (same : givenKey? other.1 other.2 = some key) :
    one = other := by
  have pairs := List.pairwise_filterMap.mp apart
  have symmetric : Std.Symm fun one other : Scalar × Value => ∀ key,
      givenKey? one.1 one.2 = some key →
        ∀ more, givenKey? other.1 other.2 = some more → key ≠ more :=
    ⟨fun _ _ differ key given more same => (differ more same key given).symm⟩
  by_contra different
  exact pairs.forall member among different key given key same rfl

/-- With distinct class names, the definition behind a key is the one that gives it. -/
theorem definitionOf_eq_some (apart : ClassesApart definitions) {key name : String}
    {schema : Fields} : definitionOf key definitions = some (name, schema) ↔
      (.text name, .object schema) ∈ definitions ∧ Naming.key (Naming.className name) = key := by
  constructor
  · exact definitionOf_mem
  · rintro ⟨member, rfl⟩
    obtain ⟨⟨other, fields⟩, behind⟩ := definitionOf_isSome member
    obtain ⟨among, same⟩ := definitionOf_mem behind
    have equal := apart.eq_of_givenKey? among member rfl (congrArg some same).symm
    cases equal
    exact behind

theorem definitionOf_of_perm (apart : ClassesApart definitions)
    (permuted : definitions.Perm reordered) (key : String) :
    definitionOf key definitions = definitionOf key reordered := by
  refine Option.ext fun ⟨name, schema⟩ => ?_
  rw [definitionOf_eq_some apart, definitionOf_eq_some (apart.perm permuted),
    permuted.mem_iff]

/-- Definitions that are filed can all be read. -/
theorem read_of_fileAll (built : fileAll config models definitions = .ok filed) {name : Scalar}
    {schema : Fields} (member : (name, .object schema) ∈ definitions) :
    ∃ m, Model.ofDefinition config name schema = .ok m := by
  induction definitions generalizing models with
  | nil => cases member
  | cons entry rest ih =>
    obtain ⟨first, v⟩ := entry
    rw [fileAll] at built
    obtain ⟨next, filing, others⟩ := bind_eq_ok.mp built
    rcases List.mem_cons.mp member with here | later
    · cases here
      obtain ⟨m, read, -⟩ := bind_eq_ok.mp filing
      exact ⟨m, read⟩
    · exact ih others later

/-- Definitions can be filed in any order, or in none. -/
theorem exists_fileAll_of_perm (permuted : definitions.Perm reordered)
    (built : fileAll config .empty definitions = .ok filed) :
    ∃ refiled, fileAll config .empty reordered = .ok refiled :=
  exists_fileAll (fun _ _ member => read_of_fileAll built (permuted.mem_iff.mpr member)) .empty

/-- What is filed under a key does not depend on the order of the definitions. -/
theorem get?_filed_of_perm (apart : ClassesApart definitions)
    (permuted : definitions.Perm reordered)
    (built : fileAll config .empty definitions = .ok filed)
    (rebuilt : fileAll config .empty reordered = .ok refiled) (key : String) :
    filed.get? key = refiled.get? key := by
  obtain ⟨found, missing⟩ := get?_fileAll built key
  obtain ⟨foundAgain, missingAgain⟩ := get?_fileAll rebuilt key
  rw [← definitionOf_of_perm apart permuted] at foundAgain missingAgain
  cases behind : definitionOf key definitions with
  | none => rw [missing behind, missingAgain behind]
  | some definition =>
    obtain ⟨m, read, here⟩ := found definition.1 definition.2 behind
    obtain ⟨n, readAgain, there⟩ := foundAgain definition.1 definition.2 behind
    rw [read] at readAgain
    cases readAgain
    rw [here, there]

end Filing

section Linking

variable {models others linked relinked : Table Model} {m : Model} {key : String}

/-- Tables with the same lookups hold the same models. -/
theorem values_perm (same : ∀ key, models.get? key = others.get? key) :
    models.values.Perm others.values := by
  have entries : models.entries.Perm others.entries := by
    refine (List.perm_ext_iff_of_nodup models.nodup.of_map others.nodup.of_map).mpr ?_
    rintro ⟨key, m⟩
    rw [← Table.get?_eq_some, ← Table.get?_eq_some, same]
  exact entries.map _

theorem linkedParents_congr (same : ∀ key, models.get? key = others.get? key) (m : Model) :
    linkedParents models m = linkedParents others m := by
  have lookup : lookupParent models m.name = lookupParent others m.name := by
    funext parent
    rw [lookupParent, lookupParent, same]
  rw [linkedParents, linkedParents, lookup]

theorem subclassesOf_perm (same : ∀ key, models.get? key = others.get? key) (key : String) :
    (subclassesOf models.values key).Perm (subclassesOf others.values key) :=
  ((values_perm same).filter _).map _

theorem extendsUnknown_congr (same : ∀ key, models.get? key = others.get? key)
    {model parent : String} : ExtendsUnknown models model parent ↔
      ExtendsUnknown others model parent := by
  unfold ExtendsUnknown
  simp only [(values_perm same).mem_iff, same]

/-- One of two tables with the same lookups can be linked if the other one can. -/
theorem exists_linkedTable (same : ∀ key, models.get? key = others.get? key)
    (linking : linkedTable models = .ok linked) :
    ∃ relinked, linkedTable others = .ok relinked := by
  rcases linkedTable_cases others with ⟨success, -⟩ | ⟨model, parent, unknown, -⟩
  · exact success
  · rcases linkedTable_cases models with ⟨-, known⟩ | ⟨_, _, -, failed⟩
    · exact absurd ((extendsUnknown_congr same).mpr unknown) (known model parent)
    · rw [linking] at failed
      cases failed

/-- Linking tables with the same lookups gives the same models. -/
theorem alike_of_linkedTable (same : ∀ key, models.get? key = others.get? key)
    (linking : linkedTable models = .ok linked) (relinking : linkedTable others = .ok relinked)
    (key : String) :
    Option.Rel Model.Alike (linked.get? key) (relinked.get? key) := by
  cases found : linked.get? key with
  | none =>
    cases again : relinked.get? key with
    | none => exact .none
    | some n =>
      obtain ⟨rebuilt, -, there, -, -⟩ := linkedTable_ok relinking key n again
      obtain ⟨m, present⟩ := get?_linkedTable linking ((same key).trans there)
      rw [found] at present
      cases present
  | some m =>
    obtain ⟨built, parents, there, linkable, rfl⟩ := linkedTable_ok linking key m found
    obtain ⟨n, again⟩ := get?_linkedTable relinking (same key ▸ there)
    obtain ⟨rebuilt, more, thereAgain, relinkable, rfl⟩ := linkedTable_ok relinking key n again
    rw [← same, there] at thereAgain
    cases thereAgain
    rw [← linkedParents_congr same, linkable] at relinkable
    cases relinkable
    rw [again]
    refine .some ?_
    rw [Model.withParents_eq, Model.withParents_eq]
    exact ⟨subclassesOf_perm same key, rfl⟩

end Linking

section Dependencies

variable {models others : Table Model}

theorem className_of_alike
    (alike : ∀ key, Option.Rel Model.Alike (models.get? key) (others.get? key)) (key : String) :
    (models.get? key).map Model.className = (others.get? key).map Model.className := by
  have related := alike key
  generalize models.get? key = here at related ⊢
  generalize others.get? key = there at related ⊢
  cases related with
  | some same => rw [Option.map_some, Option.map_some, same.rest]
  | none => rfl

/-- Dependencies are collected from the class names in a table alone. -/
theorem addNames_congr (same : ∀ key, (models.get? key).map Model.className =
      (others.get? key).map Model.className)
    (owner : Option String) (d : Dependencies) (names : List String) :
    d.addNames models owner names = d.addNames others owner names := by
  have steps : Dependencies.addName models owner = Dependencies.addName others owner := by
    funext d name
    unfold Dependencies.addName Dependencies.addKey
    have found := same (Dependencies.keyOf name)
    cases here : models.get? (Dependencies.keyOf name) with
    | none =>
      rw [here, Option.map_none, eq_comm, Option.map_eq_none_iff] at found
      rw [found]
    | some m =>
      rw [here, Option.map_some, eq_comm, Option.map_eq_some_iff] at found
      obtain ⟨n, there, named⟩ := found
      rw [there]
      dsimp only
      rw [named]
  unfold Dependencies.addNames
  rw [steps]

/-- The order of the subclasses has no part in the dependencies. -/
theorem dependenciesOf_of_alike
    (alike : ∀ key, Option.Rel Model.Alike (models.get? key) (others.get? key)) {m n : Model}
    (same : m.Alike n) : dependenciesOf models m = dependenciesOf others n := by
  rw [same.rest]
  unfold dependenciesOf Dependencies.listing
  rw [Dependencies.collect_eq_addNames, Dependencies.collect_eq_addNames,
    addNames_congr (className_of_alike alike)]
  rfl

theorem alike_withDependencies
    (alike : ∀ key, Option.Rel Model.Alike (models.get? key) (others.get? key)) (key : String) :
    Option.Rel Model.Alike ((withDependencies models).get? key)
      ((withDependencies others).get? key) := by
  unfold withDependencies
  rw [Table.get?_map, Table.get?_map]
  have related := alike key
  generalize models.get? key = here at related ⊢
  generalize others.get? key = there at related ⊢
  cases related with
  | none => exact .none
  | some same =>
    refine .some ?_
    beta_reduce
    rw [← dependenciesOf_of_alike alike same]
    exact same.depending _

end Dependencies

section Build

variable {config : Config} {definitions reordered : Fields}

/-- A table that is built is built from the definitions in any other order. -/
theorem exists_ofDefinitions_of_perm (apart : ClassesApart definitions)
    (permuted : definitions.Perm reordered) {models : Table Model}
    (success : (ofDefinitions config (.object definitions)).outcome = .ok models) :
    ∃ others, (ofDefinitions config (.object reordered)).outcome = .ok others := by
  obtain ⟨fields, filed, linked, same, built, linking, -⟩ := ofDefinitions_eq_ok.mp success
  cases same
  obtain ⟨refiled, rebuilt⟩ := exists_fileAll_of_perm permuted built
  have filedAlike := get?_filed_of_perm apart permuted built rebuilt
  obtain ⟨relinked, relinking⟩ := exists_linkedTable filedAlike linking
  exact ⟨_, ofDefinitions_eq_ok.mpr ⟨_, _, _, rfl, rebuilt, relinking, rfl⟩⟩

/-- The order of definitions with distinct class names does not matter: their table is built in
every order or in none, and the models under a key are the same but for the order of their
subclasses. -/
theorem order_of_definitions (apart : ClassesApart definitions)
    (permuted : definitions.Perm reordered) :
    ((∃ models, (ofDefinitions config (.object definitions)).outcome = .ok models) ↔
      ∃ others, (ofDefinitions config (.object reordered)).outcome = .ok others) ∧
    ∀ models others, (ofDefinitions config (.object definitions)).outcome = .ok models →
      (ofDefinitions config (.object reordered)).outcome = .ok others →
      ∀ key, Option.Rel Model.Alike (models.get? key) (others.get? key) := by
  constructor
  · constructor
    · rintro ⟨models, success⟩
      exact exists_ofDefinitions_of_perm apart permuted success
    · rintro ⟨others, success⟩
      exact exists_ofDefinitions_of_perm (apart.perm permuted) permuted.symm success
  · intro models others success again
    obtain ⟨fields, filed, linked, same, built, linking, rfl⟩ := ofDefinitions_eq_ok.mp success
    cases same
    obtain ⟨fields, refiled, relinked, same, rebuilt, relinking, rfl⟩ :=
      ofDefinitions_eq_ok.mp again
    cases same
    have filedAlike := get?_filed_of_perm apart permuted built rebuilt
    exact alike_withDependencies (alike_of_linkedTable filedAlike linking relinking)

/-- Cats and dogs, both pets, and pets that hold a list of each. -/
def kennelDefinitions : Fields :=
  [(.text "Dog", .object (dogSchema "Pet")),
    (.text "Pet", .object [(.text "type", .text "object"),
      (.text "properties", .object [(.text "friends", .object [(.text "type", .text "array"),
        (.text "items", .object [(.text "$ref", .text (Model.definitionPath "Cat"))])])])]),
    (.text "Cat", .object (dogSchema "PET"))]

/-- The other way round the subclasses of pets are listed the other way round. -/
theorem order_of_definitions_kennel :
    ClassesApart kennelDefinitions ∧ kennelDefinitions.Perm kennelDefinitions.reverse ∧
      ∃ models others, (ofDefinitions {} (.object kennelDefinitions)).outcome = .ok models ∧
        (ofDefinitions {} (.object kennelDefinitions.reverse)).outcome = .ok others ∧
        models.values.map Model.subclasses = [[], ["Dog", "Cat"], []] ∧
        others.values.map Model.subclasses = [[], ["Cat", "Dog"], []] ∧
        ∀ key, Option.Rel Model.Alike (models.get? key) (others.get? key) := by
  have apart : ClassesApart kennelDefinitions := by decide +kernel
  have permuted : kennelDefinitions.Perm kennelDefinitions.reverse := (List.reverse_perm _).symm
  obtain ⟨models, others, built, rebuilt, subclasses, again⟩ : ∃ models others,
      (ofDefinitions {} (.object kennelDefinitions)).outcome = .ok models ∧
      (ofDefinitions {} (.object kennelDefinitions.reverse)).outcome = .ok others ∧
      models.values.map Model.subclasses = [[], ["Dog", "Cat"], []] ∧
      others.values.map Model.subclasses = [[], ["Cat", "Dog"], []] :=
    ⟨_, _, by cbv, by cbv, by cbv, by cbv⟩
  exact ⟨apart, permuted, models, others, built, rebuilt, subclasses, again,
    (order_of_definitions apart permuted).2 models others built rebuilt⟩

end Build

end Models

end ClientGen
