import Mathlib
import ClientGen.Proofs.SchemaParts

/-!
# The leaves of a type

`Schema.scalars` are the parts of a schema whose types have no constituents, from left to right. A
type that is made up of others lists the texts of these, each in its first place
(`Schema.lists_type`), so that no reference among them is lost.
-/
namespace ClientGen

namespace TypeExpr

variable {names more : List String}

/-- What is kept of a list is each item in its first place. -/
theorem distinct_eq_eraseDups (names : List String) : distinct names = names.eraseDups := by
  induction names using List.reverseRecOn with
  | nil => rfl
  | append_singleton names name ih =>
    have single : [name].eraseDups = [name] := rfl
    rw [distinct_concat, ih, List.eraseDups_append]
    by_cases known : name ∈ names
    · rw [if_pos known]
      simp [List.removeAll, known]
    · rw [if_neg known]
      simp [List.removeAll, known, single]

/-- It makes no difference whether repetitions are dropped before more items come. -/
theorem distinct_distinct_append :
    distinct (distinct names ++ more) = distinct (names ++ more) := by
  induction more using List.reverseRecOn with
  | nil => rw [List.append_nil, List.append_nil, distinct_of_nodup (nodup_distinct names)]
  | append_singleton more name ih =>
    rw [← List.append_assoc, ← List.append_assoc, distinct_concat, distinct_concat, ih]
    simp only [List.mem_append, mem_distinct]

theorem distinct_append_distinct :
    distinct (names ++ distinct more) = distinct (names ++ more) := by
  induction more using List.reverseRecOn with
  | nil => rfl
  | append_singleton more name ih =>
    rw [← List.append_assoc names more, distinct_concat more, distinct_concat (names ++ more)]
    by_cases known : name ∈ more
    · rw [if_pos known, if_pos (List.mem_append_right names known), ih]
    · rw [if_neg known, ← List.append_assoc, distinct_concat, ih]
      simp only [List.mem_append, mem_distinct]

end TypeExpr

namespace Schema

/-- Whether the type of a schema is made up of others: it is a union, an intersection, an array, a
tuple of bounded length or an object, or one of these that may be null. -/
def isComposite : Schema → Bool
  | .nullable _ inner => inner.isComposite
  | .union _ _ _ | .intersection _ _ | .array _ _ | .record _ _ _ _ => true
  | .tuple _ _ _ maxItems _ => maxItems != .null && maxItems != .int 0
  | _ => false

def placeCount (maxItems : Value) : Nat :=
  match maxItems with
  | .int n => n.toNat
  | _ => 0

/-- The schemas that a composite one is made up of, from left to right. -/
def components : Schema → List Schema
  | .tuple o items _ maxItems additional =>
    (items ++ [additional.getD (.any o none)]).take (placeCount maxItems)
  | s => s.parts

theorem components_subset_parts (s : Schema) : s.components ⊆ s.parts := by
  cases s with
  | tuple o items minItems maxItems additional => exact List.take_subset _ _
  | _ => exact List.Subset.refl _

/-- The parts of a schema that are not made up of others, from left to right. -/
def scalars (s : Schema) : List Schema :=
  if s.isComposite then s.components.attach.flatMap fun part => part.1.scalars else [s]
termination_by sizeOf s
decreasing_by exact sizeOf_lt_of_mem_parts (s.components_subset_parts part.2)

theorem scalars_of_composite {s : Schema} (composite : s.isComposite = true) :
    s.scalars = s.components.flatMap scalars := by
  rw [scalars, if_pos composite, List.flatMap_subtype fun part _ => rfl, List.unattach_attach]

theorem scalars_of_not_composite {s : Schema} (scalar : s.isComposite = false) :
    s.scalars = [s] := by
  rw [scalars, scalar]
  rfl

/-- The target of a reference, which may be null. -/
def referenceOf? : Schema → Option Value
  | .ref _ target => some target
  | .nullable _ inner => inner.referenceOf?
  | _ => none

/-- A count that is missing, or an integer from zero on. -/
def IsCount (v : Value) : Prop := v = .null ∨ ∃ n : Nat, v = .int n

/-- The lengths of a tuple are counts. -/
def Counted : Schema → Prop
  | .tuple _ _ minItems maxItems _ => IsCount minItems ∧ IsCount maxItems
  | _ => True

theorem IsCount.isSet_iff {v : Value} (count : IsCount v) :
    v.isSet = true ↔ (v != .null && v != .int 0) = true := by
  rcases count with rfl | ⟨n, rfl⟩
  · decide
  · rw [Bool.and_eq_true, bne_iff_ne, bne_iff_ne]
    constructor
    · intro given
      refine ⟨by simp, ?_⟩
      intro zero
      rw [zero] at given
      cases given
    · rintro ⟨-, other⟩
      simpa [Value.isSet] using other

theorem IsCount.bound {v : Value} (count : IsCount v) (given : v.isSet = true) :
    Schema.bound v = .ok (placeCount v : Int) := by
  rcases count with rfl | ⟨n, rfl⟩
  · cases given
  · rfl

theorem IsCount.leastLength {v : Value} (count : IsCount v) :
    ∃ least, Schema.leastLength v = .ok least := by
  unfold Schema.leastLength
  split
  · rename_i given
    exact ⟨_, count.bound given⟩
  · exact ⟨0, rfl⟩

/-- The type of a schema without constituents has this text. -/
def HasText (s : Schema) (text : String) : Prop := s.type = .ok (.scalar text)

/-- The type `t` lists the texts of the scalars of a schema, each in its first place. -/
def Lists (s : Schema) (t : TypeExpr) : Prop :=
  ∃ texts, List.Forall₂ HasText s.scalars texts ∧ t.leaves = texts.eraseDups

/-- What is made up of parts that list their scalars lists them all. -/
theorem lists_merge {parts : List Schema} {types : List TypeExpr}
    (each : List.Forall₂ Lists parts types) :
    ∃ texts, List.Forall₂ HasText (parts.flatMap scalars) texts ∧
      TypeExpr.merge types = texts.eraseDups := by
  induction each with
  | nil => exact ⟨[], .nil, rfl⟩
  | @cons s t _ types first _ ih =>
    obtain ⟨own, ownTexts, listed⟩ := first
    obtain ⟨others, otherTexts, merged⟩ := ih
    refine ⟨own ++ others, List.rel_append ownTexts otherTexts, ?_⟩
    rw [← TypeExpr.distinct_eq_eraseDups] at listed merged ⊢
    calc TypeExpr.merge (t :: types)
        = TypeExpr.distinct (t.leaves ++ types.flatMap TypeExpr.leaves) := rfl
      _ = TypeExpr.distinct (t.leaves ++ TypeExpr.merge types) :=
        TypeExpr.distinct_append_distinct.symm
      _ = TypeExpr.distinct (own ++ others) := by
        rw [listed, merged, TypeExpr.distinct_distinct_append, TypeExpr.distinct_append_distinct]

theorem lists_scalar {s : Schema} {text : String} (scalar : s.isComposite = false)
    (typed : s.type = .ok (.scalar text)) : s.Lists (.scalar text) := by
  refine ⟨[text], ?_, rfl⟩
  rw [scalars_of_not_composite scalar]
  exact .cons typed .nil

theorem lists_compound {s : Schema} {types : List TypeExpr} (text : String)
    (composite : s.isComposite = true) (each : List.Forall₂ Lists s.components types) :
    s.Lists (.compound text types) := by
  obtain ⟨texts, paired, merged⟩ := lists_merge each
  rw [← scalars_of_composite composite] at paired
  exact ⟨texts, paired, merged⟩

/-- The type `t` mirrors a schema: it has constituents exactly if the schema is composite, and lists
its scalars. -/
structure Mirrors (s : Schema) (t : TypeExpr) : Prop where
  isCompound : t.isCompound = s.isComposite
  lists : s.Lists t

theorem mirrors_scalar {s : Schema} {t : TypeExpr} (scalar : s.isComposite = false)
    (own : ∃ text, t = .scalar text) (typed : s.type = .ok t) : s.Mirrors t := by
  obtain ⟨text, rfl⟩ := own
  exact ⟨scalar.symm, lists_scalar scalar typed⟩

theorem mirrors_compound {s : Schema} {types : List TypeExpr} (text : String)
    (composite : s.isComposite = true) (typed : List.Forall₂ Mirrors s.components types) :
    s.Mirrors (.compound text types) :=
  ⟨composite.symm, lists_compound text composite (typed.imp fun _ _ => Mirrors.lists)⟩

/-- A null mark lengthens the text of a scalar, and leaves what a compound lists alone. -/
theorem mirrors_nullable {o : Origin} {inner : Schema} {u : TypeExpr} (own : inner.Mirrors u)
    (typed : inner.type = .ok u) : (Schema.nullable o inner).Mirrors u.nullable := by
  have whole : (Schema.nullable o inner).type = .ok u.nullable := by
    rw [type, typed]
    rfl
  have same : (Schema.nullable o inner).isComposite = inner.isComposite := rfl
  obtain ⟨isCompound, texts, paired, listed⟩ := own
  cases composite : inner.isComposite with
  | false =>
    refine mirrors_scalar (same.trans composite) ⟨"null | " ++ u.text, ?_⟩ whole
    rw [composite, TypeExpr.isCompound, Option.isSome_eq_false_iff, Option.isNone_iff_eq_none]
      at isCompound
    rw [TypeExpr.nullable, isCompound, TypeExpr.scalar]
  | true =>
    rw [composite, TypeExpr.isCompound, Option.isSome_iff_exists] at isCompound
    obtain ⟨names, constituents⟩ := isCompound
    refine ⟨?_, texts, ?_, ?_⟩
    · rw [same, composite, TypeExpr.isCompound, TypeExpr.nullable, constituents]
      rfl
    · have only : (Schema.nullable o inner).components = [inner] := rfl
      rw [scalars_of_composite (same.trans composite), only, List.flatMap_singleton]
      exact paired
    · rw [← listed, TypeExpr.leaves, TypeExpr.leaves, TypeExpr.nullable, constituents]
      rfl

theorem forall₂_mirrors {schemas : List Schema} {types : List TypeExpr}
    (typed : List.Forall₂ (fun s t => s.type = .ok t) schemas types)
    (each : ∀ s ∈ schemas, ∀ t, s.type = .ok t → s.Mirrors t) :
    List.Forall₂ Mirrors schemas types := by
  induction typed with
  | nil => exact .nil
  | cons head _ ih =>
    obtain ⟨first, later⟩ := List.forall_mem_cons.mp each
    exact .cons (first _ head) (ih later)

/-- The type of a schema lists the scalars of the schema. -/
theorem mirrors_type (s : Schema) (counted : s.Everywhere Counted) {t : TypeExpr}
    (typed : s.type = .ok t) : s.Mirrors t := by
  induction s using induction_on_parts generalizing t with
  | step s ih =>
    obtain ⟨own, inside⟩ := everywhere_iff.mp counted
    have each : ∀ part ∈ s.components, ∀ u, part.type = .ok u → part.Mirrors u :=
      fun part member u partTyped =>
        ih part (s.components_subset_parts member) (inside part (s.components_subset_parts member))
          partTyped
    cases hasType_of_type typed with
    | null | file | any => exact mirrors_scalar rfl ⟨_, rfl⟩ typed
    | ref | override => exact mirrors_scalar rfl (exists_scalar_typeOfText _) typed
    | @primitive o kind enum const =>
      exact mirrors_scalar rfl (exists_scalar_primitiveType kind enum const) typed
    | @nullable o inner u innerTyped =>
      exact mirrors_nullable (each inner (List.mem_singleton_self inner) u innerTyped) innerTyped
    | union variantTypes => exact mirrors_compound _ rfl (forall₂_mirrors variantTypes each)
    | intersection branchTypes => exact mirrors_compound _ rfl (forall₂_mirrors branchTypes each)
    | array itemTyped => exact mirrors_compound _ rfl (forall₂_mirrors (.cons itemTyped .nil) each)
    | @bounded o items minItems maxItems additional places least most given _ greatest placeTypes =>
      rw [own.2.bound given, Except.ok.injEq] at greatest
      subst greatest
      have composite : (Schema.tuple o items minItems maxItems additional).isComposite = true :=
        own.2.isSet_iff.mp given
      have listed := forall₂_firstItems placeTypes (placeCount maxItems : Int)
      exact mirrors_compound _ composite (forall₂_mirrors listed each)
    | @unbounded o items minItems maxItems additional missing =>
      have scalar : (Schema.tuple o items minItems maxItems additional).isComposite = false := by
        rw [← missing, Bool.eq_iff_iff]
        exact own.2.isSet_iff.symm
      exact mirrors_scalar scalar ⟨_, rfl⟩ typed
    | record written free =>
      exact mirrors_compound _ rfl (forall₂_mirrors (forall₂_entries written free) each)

/-- The parts of a schema that are given types: all, but none of a tuple of unbounded length. -/
def typedParts : Schema → List Schema
  | .tuple o items minItems maxItems additional =>
    if (Schema.tuple o items minItems maxItems additional).isComposite then
      items ++ [additional.getD (.any o none)]
    else []
  | s => s.parts

/-- A reference is a text, unless it says nothing, and the names of members are texts. -/
def IsNamed : Schema → Prop
  | .ref _ target => target.isSet = true → ∃ ref, target = .text ref
  | .record _ members _ _ => ∀ m ∈ members, ∃ name, m.1.name = .text name
  | _ => True

theorem exists_classOfRef?_iff {target : Value} :
    (∃ name, Naming.classOfRef? target = .ok name) ↔
      (target.isSet = true → ∃ ref, target = .text ref) := by
  constructor
  · rintro ⟨name, read⟩ given
    unfold Naming.classOfRef? at read
    rw [if_pos given] at read
    obtain ⟨ref, text, -⟩ := bind_eq_ok.mp read
    cases target with
    | scalar value =>
      cases value with
      | text ref => exact ⟨ref, rfl⟩
      | _ => cases text
    | _ => cases text
  · intro isText
    by_cases given : target.isSet = true
    · obtain ⟨ref, rfl⟩ := isText given
      exact exists_classOfRef? ref
    · exact ⟨none, by rw [Naming.classOfRef?, if_neg given]⟩

theorem Counted.typedParts_eq {s : Schema} (counted : s.Counted) :
    s.typedParts = s.neededParts := by
  cases s with
  | tuple o items minItems maxItems additional =>
    have composite : (Schema.tuple o items minItems maxItems additional).isComposite = true ↔
        maxItems.isSet = true := counted.2.isSet_iff.symm
    simp only [typedParts, neededParts, composite]
  | _ => rfl

theorem Counted.saysEnough_iff {s : Schema} (counted : s.Counted) : s.SaysEnough ↔ s.IsNamed := by
  cases s with
  | ref o target => exact exists_classOfRef?_iff
  | tuple o items minItems maxItems additional =>
    obtain ⟨least, smallest⟩ := counted.1.leastLength
    exact iff_of_true (fun given => ⟨least, _, smallest, counted.2.bound given⟩) trivial
  | _ => exact Iff.rfl

/-- A schema has a type exactly if everything in it that is given one has the names it needs. -/
theorem exists_type_iff (s : Schema) (counted : s.Everywhere Counted) :
    (∃ t, s.type = .ok t) ↔ Throughout typedParts IsNamed s := by
  induction s using induction_on_parts with
  | step s ih =>
    obtain ⟨own, inside⟩ := everywhere_iff.mp counted
    rw [throughout_iff, exists_type_iff_needed, own.saysEnough_iff, own.typedParts_eq]
    refine and_congr_right fun _ => forall₂_congr fun part member => ?_
    have within := s.neededParts_subset_parts member
    exact ih part within (inside part within)

/-- The text of a reference is the class behind it, also where it may be null. -/
theorem strip_of_referenceOf? {s : Schema} {target : Value} {name text : String}
    (refers : s.referenceOf? = some target) (read : Naming.classOfRef? target = .ok (some name))
    (present : name ≠ "") (written : s.HasText text) : TypeExpr.strip text = name := by
  induction s using induction_on_parts generalizing text with
  | step s ih =>
    rw [HasText] at written
    generalize typed : TypeExpr.scalar text = t at written
    cases hasType_of_type written with
    | @ref o own _ leads =>
      cases refers
      cases read.symm.trans leads
      rw [Option.getD_some, typeOfText, if_neg present] at typed
      cases typed
      exact strip_of_classOfRef? read
    | @nullable o inner u innerTyped =>
      obtain ⟨own, constituents⟩ := u
      cases typed
      rw [TypeExpr.strip_null_mark]
      exact ih inner (List.mem_singleton_self inner) refers innerTyped
    | _ => cases refers

/-- A text that a type lists is among the names that it may depend on, as far as these are
stripped. -/
theorem mem_dependencyNames {t : TypeExpr} {text name : String} (listed : text ∈ t.leaves)
    (stripped : TypeExpr.strip text = name) (plain : TypeExpr.strip name = name) :
    name ∈ t.dependencyNames.map TypeExpr.strip := by
  unfold TypeExpr.dependencyNames
  unfold TypeExpr.leaves at listed
  cases constituents : t.constituents with
  | none =>
    rw [constituents, Option.getD_none, List.mem_singleton] at listed
    rw [Option.getD_none, List.map_singleton, List.mem_singleton, ← listed, stripped, plain]
  | some names =>
    rw [constituents, Option.getD_some] at listed
    exact List.mem_map.mpr ⟨text, listed, stripped⟩

end Schema

open Schema

/-- A schema whose tuples have counts for lengths has a type exactly if everything in it that is
given one has the names it needs. The type is a compound exactly if the schema is composite, and
then has for its constituents the texts of the scalars of the schema, each in its first place. The
classes of the references among these are among the dependencies of the type. -/
theorem typeAt_lists_scalars {path : String} {v : Value} {s : Schema}
    (parsed : Schema.parse path v = .ok s) (counted : s.Everywhere Counted) :
    ((∃ t, typeAt path v = .ok t) ↔ Throughout typedParts IsNamed s) ∧
    ∀ t, typeAt path v = .ok t →
      (t.isCompound = true ↔ s.isComposite = true) ∧
      ∃ texts, List.Forall₂ (fun leaf text => leaf.type = .ok (.scalar text)) s.scalars texts ∧
        (s.isComposite = true → t.constituents = some texts.eraseDups) ∧
        ∀ leaf ∈ s.scalars, ∀ target name, leaf.referenceOf? = some target →
          Naming.classOfRef? target = .ok (some name) → name ≠ "" →
            name ∈ t.dependencyNames.map TypeExpr.strip := by
  have typed_iff : ∀ t, typeAt path v = .ok t ↔ s.type = .ok t := by
    intro t
    rw [typeAt, parsed]
    exact Iff.rfl
  simp only [typed_iff]
  refine ⟨exists_type_iff s counted, ?_⟩
  intro t typed
  obtain ⟨isCompound, texts, paired, listed⟩ := mirrors_type s counted typed
  refine ⟨by rw [isCompound], texts, paired, ?_, ?_⟩
  · intro composite
    rw [composite, TypeExpr.isCompound, Option.isSome_iff_exists] at isCompound
    obtain ⟨names, constituents⟩ := isCompound
    rw [TypeExpr.leaves, constituents, Option.getD_some] at listed
    rw [constituents, listed]
  · intro leaf member target name refers read present
    obtain ⟨text, among, written⟩ := exists_of_forall₂ paired member
    have stripped := strip_of_referenceOf? refers read present written
    refine mem_dependencyNames ?_ stripped (strip_of_classOfRef? read)
    rw [listed]
    exact List.mem_eraseDups.mpr among

/-- A kennel has a pair of a dog and a text, with one more place, and names that may be null. -/
def kennelSchema : Value :=
  .object [(.text "properties", .object [
    (.text "pair", .object [(.text "type", .text "array"), (.text "maxItems", .int 3),
      (.text "items", .list [.object [(.text "$ref", .text "#/definitions/Dog")],
        .object [(.text "type", .text "string")]])]),
    (.text "names", .object [(.text "type", .text "array"),
      (.text "items", .object [(.text "type", .text "string"),
        (.text "x-nullable", .bool true)])]),
    (.text "first", .object [(.text "$ref", .text "#/definitions/Dog")])])]

def dogNode (path : String) : Schema :=
  .ref ⟨path, .null⟩ (.text "#/definitions/Dog")

def textNode (path : String) : Schema :=
  .primitive ⟨path, .null⟩ .string none .null

def maybeNode (path : String) : Schema :=
  .nullable ⟨path, .null⟩ (textNode path)

def kennelNode : Schema :=
  .record ⟨"#", .null⟩ [
    (⟨.text "pair", false⟩, .tuple ⟨"#/properties/pair", .null⟩
      [dogNode "#/properties/pair/items/0", textNode "#/properties/pair/items/1"]
      .null (.int 3) none),
    (⟨.text "names", false⟩, .array ⟨"#/properties/names", .null⟩
      (maybeNode "#/properties/names/items")),
    (⟨.text "first", false⟩, dogNode "#/properties/first")] [] none

theorem counted_kennelNode : kennelNode.Everywhere Counted := by
  have dog : ∀ path, (dogNode path).Everywhere Counted := fun _ => throughout_leaf rfl trivial
  have text : ∀ path, (textNode path).Everywhere Counted := fun _ => throughout_leaf rfl trivial
  have any : ∀ o, (Schema.any o none).Everywhere Counted := fun _ => throughout_leaf rfl trivial
  have maybe : ∀ path, (maybeNode path).Everywhere Counted := fun path =>
    everywhere_iff.mpr ⟨trivial, List.forall_mem_singleton.mpr (text path)⟩
  have names : (Schema.array ⟨"#/properties/names", .null⟩
      (maybeNode "#/properties/names/items")).Everywhere Counted :=
    everywhere_iff.mpr ⟨trivial, List.forall_mem_singleton.mpr (maybe _)⟩
  have pair : (Schema.tuple ⟨"#/properties/pair", .null⟩
      [dogNode "#/properties/pair/items/0", textNode "#/properties/pair/items/1"]
      .null (.int 3) none).Everywhere Counted :=
    everywhere_iff.mpr ⟨⟨.inl rfl, .inr ⟨3, rfl⟩⟩, by simp [parts, dog, text, any]⟩
  exact everywhere_iff.mpr ⟨trivial, by simp [kennelNode, parts, pair, names, dog]⟩

/-- The places of the tuple, and then the other members, are listed once each. -/
theorem typeAt_lists_scalars_kennel : Schema.parse "#" kennelSchema = .ok kennelNode ∧
    kennelNode.Everywhere Counted ∧
    kennelNode.scalars =
      [dogNode "#/properties/pair/items/0", textNode "#/properties/pair/items/1",
        .any ⟨"#/properties/pair", .null⟩ none, maybeNode "#/properties/names/items",
        dogNode "#/properties/first"] ∧
    ∃ t, typeAt "#" kennelSchema = .ok t ∧ t.isCompound = true ∧
      t.constituents = some ["Dog", "string", "any", "null | string"] ∧
      "Dog" ∈ t.dependencyNames.map TypeExpr.strip := by
  have parsed : Schema.parse "#" kennelSchema = .ok kennelNode := by cbv
  have scalars : kennelNode.scalars =
      [dogNode "#/properties/pair/items/0", textNode "#/properties/pair/items/1",
        .any ⟨"#/properties/pair", .null⟩ none, maybeNode "#/properties/names/items",
        dogNode "#/properties/first"] := by
    cbv
  obtain ⟨t, typed, constituents⟩ : ∃ t, typeAt "#" kennelSchema = .ok t ∧
      t.constituents = some ["Dog", "string", "any", "null | string"] := by
    refine ⟨⟨"\x7bpair?: [] | [Dog] | [Dog, string] | [Dog, string, any], " ++
      "names?: Array<null | string>, first?: Dog\x7d", some ["Dog", "string", "any",
      "null | string"]⟩, ?_, rfl⟩
    rw [typeAt, parsed]
    cbv
  obtain ⟨isCompound, _, -, -, refers⟩ :=
    (typeAt_lists_scalars parsed counted_kennelNode).2 t typed
  have dog : dogNode "#/properties/first" ∈ kennelNode.scalars := by simp [scalars]
  exact ⟨parsed, counted_kennelNode, scalars, t, typed, isCompound.mpr rfl, constituents,
    refers _ dog _ "Dog" rfl (by decide +kernel) (by decide)⟩

end ClientGen
