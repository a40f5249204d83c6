import ClientGen.Proofs.SchemaParts
import ClientGen.Proofs.TypeReader

/-!
# What a schema means

`Schema.meaning` is the type that a schema stands for, as a tree: a union for a union, an
intersection for an intersection, the tuples of all allowed lengths for a tuple. It is defined on
the schema alone, without regard to how types are printed. In regular schemas it is kept flat
(`Schema.normal_meaning`).

Of a tuple not all places are printed: it is printed as an array when it may have no place at all,
and no longer than its items and one more place (`Schema.Fits`). The tokens that are printed for a
schema are those of its meaning or have fewer places (`Schema.Renders`).
-/
namespace ClientGen.Schema

open TypeTree (joinOf all_iff normal_joinOf normal_of_single)

/-- The type behind a reference: the class of its target, or null where that has none. -/
def referenceTree (target : Value) : TypeTree :=
  match Naming.classOfRef? target with
  | .ok (some name) => if name = "" then .name "null" else .name name
  | _ => .name "null"

def restrictedTree (name : String) (literal : Value → TypeTree) (enum : Option (List Value))
    (const : Value) : TypeTree :=
  match enum with
  | some (v :: rest) => joinOf .union ((v :: rest).map literal)
  | _ => if const = .null then .name name else literal const

def primitiveTree (type : PrimitiveType) (enum : Option (List Value)) (const : Value) : TypeTree :=
  match type with
  | .string => restrictedTree "string" (fun v => .literal v.display) enum const
  | .integer | .number => restrictedTree "number" (fun v => .number (numberLiteral v)) enum const
  | .boolean => .name "boolean"
  | .null => .name "null"

/-- The first `length` places of a tuple; behind its items all have the type `rest`. -/
def padded (items : List TypeTree) (rest : TypeTree) (length : Nat) : List TypeTree :=
  items.take length ++ List.replicate (length - items.length) rest

def lengths (least most : Int) : List Nat :=
  List.range' least.toNat (most + 1 - least).toNat

/-- The tuples of all allowed lengths, or any array if there is no greatest length. -/
def tupleTree (items : List TypeTree) (rest : TypeTree) (minItems maxItems : Value) : TypeTree :=
  match leastLength minItems, bound maxItems with
  | .ok least, .ok most =>
    joinOf .union ((lengths least most).map fun length => .tuple (padded items rest length))
  | _, _ => .array (.name "any")

/-- What an object type says about a member. -/
def entryOf (m : Member) : ObjectEntry := .member m.name.display m.required

mutual

def meaning : Schema → TypeTree
  | .null _ => .name "null"
  | .ref _ target => referenceTree target
  | .override _ text => .name text
  | .nullable _ inner => joinOf .union [.name "null", meaning inner]
  | .union _ _ variants => joinOf .union (meanings variants)
  | .intersection _ branches => joinOf .intersection (meanings branches)
  | .primitive _ kind enum const => primitiveTree kind enum const
  | .file _ => .name "Blob"
  | .array _ items => .array (meaning items)
  | .tuple _ items minItems maxItems additional =>
    tupleTree (meanings items) ((additionalMeaning additional).getD (.name "any")) minItems maxItems
  | .record _ members _ additional =>
    .object (memberMeanings members ++
      (additionalMeaning additional).toList.map (ObjectEntry.others, ·))
  | .any _ _ => .name "any"

def meanings : List Schema → List TypeTree
  | [] => []
  | s :: rest => meaning s :: meanings rest

def memberMeanings : List (Member × Schema) → List (ObjectEntry × TypeTree)
  | [] => []
  | (m, s) :: rest => (entryOf m, meaning s) :: memberMeanings rest

def additionalMeaning : Option Schema → Option TypeTree
  | none => none
  | some s => some (meaning s)

end

@[simp] theorem meanings_eq_map (schemas : List Schema) :
    meanings schemas = schemas.map meaning := by
  induction schemas with
  | nil => rfl
  | cons s rest ih => rw [meanings, ih, List.map_cons]

@[simp] theorem memberMeanings_eq_map (members : List (Member × Schema)) :
    memberMeanings members = members.map fun m => (entryOf m.1, m.2.meaning) := by
  induction members with
  | nil => rfl
  | cons m rest ih => rw [memberMeanings, ih, List.map_cons]

@[simp] theorem additionalMeaning_eq_map (additional : Option Schema) :
    additionalMeaning additional = additional.map meaning := by
  cases additional <;> rfl

theorem meaning_tuple (o : Origin) (items : List Schema) (minItems maxItems : Value)
    (additional : Option Schema) :
    (Schema.tuple o items minItems maxItems additional).meaning =
      tupleTree (items.map meaning) (additional.getD (.any o none)).meaning minItems maxItems := by
  cases additional with
  | none => simp [meaning]
  | some s => simp [meaning]

theorem meaning_record (o : Origin) (members : List (Member × Schema)) (required : List Value)
    (additional : Option Schema) :
    (Schema.record o members required additional).meaning =
      .object ((members.map fun m => (entryOf m.1, m.2.meaning)) ++
        additional.toList.map fun s => (ObjectEntry.others, s.meaning)) := by
  cases additional <;> simp [meaning]

/-- If a tuple has a greatest length, it may have a place, and it has at most one more than
items. -/
def Fits : Schema → Prop
  | .tuple _ items _ maxItems _ =>
    ∀ most, bound maxItems = .ok most → 0 < most ∧ most ≤ items.length + 1
  | _ => True

/-- Every tuple that is printed inside the type of a schema fits. -/
def TuplesFit (s : Schema) : Prop :=
  ∀ inner, Relation.ReflTransGen Prints s inner → inner.Fits

theorem tuplesFit_iff {s : Schema} :
    s.TuplesFit ↔ s.Fits ∧ ∀ part, s.Prints part → part.TuplesFit := by
  constructor
  · intro all
    exact ⟨all s .refl, fun part prints inner within => all inner (.head prints within)⟩
  · rintro ⟨own, each⟩ inner within
    rcases within.cases_head with rfl | ⟨part, prints, further⟩
    · exact own
    · exact each part prints inner further

/-- Apart from a tuple, a schema prints all of its parts, and fits whenever these do. -/
theorem tuplesFit_iff_parts {s : Schema}
    (plain : ∀ o items least most additional, s ≠ .tuple o items least most additional) :
    s.TuplesFit ↔ ∀ part ∈ s.parts, part.TuplesFit := by
  have fits : s.Fits := by
    cases s with
    | tuple o items least most additional => exact absurd rfl (plain o items least most additional)
    | _ => trivial
  have prints : ∀ part ∈ s.parts, s.Prints part := by
    intro part member
    cases s with
    | nullable o inner =>
      rw [List.mem_singleton.mp member]
      exact .inner
    | union o keyword variants => exact .variant member
    | intersection o branches => exact .branch member
    | array o items =>
      rw [List.mem_singleton.mp member]
      exact .items
    | tuple o items least most additional => exact absurd rfl (plain o items least most additional)
    | record o members required additional =>
      rcases List.mem_append.mp member with listed | last
      · obtain ⟨⟨m, s⟩, among, rfl⟩ := List.mem_map.mp listed
        exact .member among
      · rw [Option.mem_toList] at last
        cases last
        exact .additional
    | _ => cases member
  rw [tuplesFit_iff, and_iff_right fits]
  exact ⟨fun each part member => each part (prints part member),
    fun each part printed => each part (mem_parts_of_prints printed)⟩

section Normal

theorem all_normal_of_single {t : TypeTree} (single : t.junction? = none)
    (each : ∀ part ∈ t.parts, part.All TypeTree.Normal) : t.All TypeTree.Normal :=
  all_iff.mpr ⟨normal_of_single single, each⟩

theorem normal_name (word : String) : (TypeTree.name word).All TypeTree.Normal :=
  all_normal_of_single rfl (by simp [TypeTree.parts])

theorem normal_restrictedTree {name : String} {literal : Value → TypeTree}
    (normal : ∀ v, (literal v).All TypeTree.Normal) (enum : Option (List Value)) (const : Value) :
    (restrictedTree name literal enum const).All TypeTree.Normal := by
  unfold restrictedTree
  split
  · refine normal_joinOf (by simp) fun t member => ?_
    obtain ⟨v, -, rfl⟩ := List.mem_map.mp member
    exact normal v
  · split
    · exact normal_name name
    · exact normal const

theorem normal_primitiveTree (kind : PrimitiveType) (enum : Option (List Value)) (const : Value) :
    (primitiveTree kind enum const).All TypeTree.Normal := by
  have number : ∀ v, (TypeTree.number (numberLiteral v)).All TypeTree.Normal := fun v =>
    all_normal_of_single rfl (by simp [TypeTree.parts])
  have literal : ∀ v : Value, (TypeTree.literal v.display).All TypeTree.Normal := fun v =>
    all_normal_of_single rfl (by simp [TypeTree.parts])
  cases kind with
  | string => exact normal_restrictedTree literal enum const
  | integer => exact normal_restrictedTree number enum const
  | number => exact normal_restrictedTree number enum const
  | boolean => exact normal_name _
  | null => exact normal_name _

theorem mem_padded {items : List TypeTree} {rest t : TypeTree} {length : Nat}
    (member : t ∈ padded items rest length) : t ∈ items ++ [rest] := by
  rcases List.mem_append.mp member with item | last
  · exact List.mem_append_left _ (List.mem_of_mem_take item)
  · exact List.mem_append_right _ (List.mem_singleton.mpr (List.eq_of_mem_replicate last))

theorem lengths_ne_nil {least most : Int} (le : least ≤ most) : lengths least most ≠ [] := by
  have present : (most + 1 - least).toNat ≠ 0 := by omega
  simpa [lengths] using present

/-- Everything that a regular schema stands for is kept flat. -/
theorem normal_meaning (s : Schema) (regular : s.Everywhere Regular) :
    s.meaning.All TypeTree.Normal := by
  induction s using induction_on_parts with
  | step s ih =>
    obtain ⟨own, inside⟩ := everywhere_iff.mp regular
    have each : ∀ part ∈ s.parts, part.meaning.All TypeTree.Normal := fun part member =>
      ih part member (inside part member)
    have joined : ∀ schemas ⊆ s.parts, ∀ t ∈ schemas.map meaning, t.All TypeTree.Normal := by
      intro schemas among t member
      obtain ⟨part, listed, rfl⟩ := List.mem_map.mp member
      exact each part (among listed)
    cases s with
    | null | file | any | override =>
      rw [meaning]
      exact normal_name _
    | ref o target =>
      rw [meaning, referenceTree]
      split
      · split <;> exact normal_name _
      · exact normal_name _
    | nullable o inner =>
      rw [meaning]
      refine normal_joinOf (by simp) (List.forall_mem_cons.mpr ⟨normal_name _, ?_⟩)
      exact joined [inner] (by simp [parts])
    | union o keyword variants =>
      rw [meaning, meanings_eq_map]
      have present : variants ≠ [] := own
      exact normal_joinOf (by simpa using present) (joined variants (List.Subset.refl _))
    | intersection o branches =>
      rw [meaning, meanings_eq_map]
      have present : branches ≠ [] := own
      exact normal_joinOf (by simpa using present) (joined branches (List.Subset.refl _))
    | primitive o kind enum const =>
      rw [meaning]
      exact normal_primitiveTree kind enum const
    | array o items =>
      rw [meaning]
      exact all_normal_of_single rfl (joined [items] (by simp [parts]))
    | tuple o items minItems maxItems additional =>
      rw [meaning_tuple, tupleTree]
      split
      · rename_i least most smallest greatest
        rcases own with rfl | ⟨_, _, sameLeast, sameMost, -, le⟩
        · cases greatest
        · cases smallest.symm.trans sameLeast
          cases greatest.symm.trans sameMost
          refine normal_joinOf (by simpa using lengths_ne_nil le) fun t member => ?_
          obtain ⟨length, -, rfl⟩ := List.mem_map.mp member
          refine all_normal_of_single rfl fun place listed => ?_
          have among := mem_padded listed
          rw [← List.map_singleton, ← List.map_append] at among
          exact joined _ (List.Subset.refl _) place among
      · exact all_normal_of_single rfl (by simpa [TypeTree.parts] using normal_name "any")
    | record o members required additional =>
      rw [meaning_record]
      refine all_normal_of_single rfl fun part listed => ?_
      refine joined _ (List.Subset.refl _) part ?_
      rw [TypeTree.parts, List.map_append, List.map_map, List.map_map] at listed
      rw [parts, List.map_append, List.map_map]
      exact listed

end Normal

def meant (schemas : List Schema) : List (List Token) :=
  schemas.map fun s => s.meaning.tokens

/-- The tokens are those of the type that a schema stands for if its tuples fit. Otherwise there are
fewer places among them. -/
structure Renders (s : Schema) (tokens : List Token) : Prop where
  atMost : places tokens ≤ places s.meaning.tokens
  same : s.TuplesFit → tokens = s.meaning.tokens
  only : places s.meaning.tokens ≤ places tokens → s.TuplesFit

theorem renders_meaning {s : Schema} (fit : s.TuplesFit) : s.Renders s.meaning.tokens :=
  ⟨Nat.le_refl _, fun _ => rfl, fun _ => fit⟩

section Parts

variable {schemas : List Schema} {pieces : List (List Token)}

theorem eq_meant (each : List.Forall₂ Renders schemas pieces) (fit : ∀ s ∈ schemas, s.TuplesFit) :
    pieces = meant schemas := by
  induction each with
  | nil => rfl
  | cons first _ ih =>
    obtain ⟨own, later⟩ := List.forall_mem_cons.mp fit
    rw [first.same own, ih later]
    rfl

theorem sum_places_le (each : List.Forall₂ Renders schemas pieces) :
    (pieces.map places).sum ≤ ((meant schemas).map places).sum := by
  induction each with
  | nil => exact Nat.le_refl _
  | @cons s tokens schemas pieces first _ ih =>
    have own := first.atMost
    simp only [meant, List.map_cons, List.sum_cons] at ih ⊢
    omega

theorem tuplesFit_of_sum_places (each : List.Forall₂ Renders schemas pieces)
    (all : ((meant schemas).map places).sum ≤ (pieces.map places).sum) :
    ∀ s ∈ schemas, s.TuplesFit := by
  induction each with
  | nil => simp
  | @cons s tokens schemas pieces first later ih =>
    have own := first.atMost
    have others := sum_places_le later
    simp only [meant, List.map_cons, List.sum_cons] at all others ih
    exact List.forall_mem_cons.mpr ⟨first.only (by omega), ih (by omega)⟩

/-- What is written around the parts of a schema is written for the schema. -/
theorem renders_of_parts {s : Schema} {frame : List (List Token) → List Token} {own : Nat}
    (fit : s.TuplesFit ↔ ∀ part ∈ schemas, part.TuplesFit)
    (whole : s.meaning.tokens = frame (meant schemas))
    (counted : ∀ pieces : List (List Token), pieces.length = schemas.length →
      places (frame pieces) = own + (pieces.map places).sum)
    (each : List.Forall₂ Renders schemas pieces) : s.Renders (frame pieces) := by
  have ofPieces := counted pieces each.length_eq.symm
  have ofMeant := counted (meant schemas) (by simp [meant])
  have le := sum_places_le each
  refine ⟨?_, ?_, ?_⟩
  · rw [whole]
    omega
  · intro fits
    rw [whole, eq_meant each (fit.mp fits)]
  · rw [whole]
    intro all
    exact fit.mpr (tuplesFit_of_sum_places each (by omega))

end Parts

end ClientGen.Schema
