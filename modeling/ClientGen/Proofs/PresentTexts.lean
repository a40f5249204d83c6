import ClientGen.Proofs.SchemaSources
import ClientGen.Proofs.WrittenTypes

/-!
# Types without a text

A type is printed as an empty text if there is nothing to join: no type in a list of types, no
branch of a composition that is not marked to allow null, no length of a tuple. It is printed so,
too, for a number that is restricted to the empty text. These are the only schemas without a text
(`text_ne_empty_iff`), so whether a text is missing anywhere in a type can be told from the schema,
and from the objects that it is read from.
-/
namespace ClientGen

namespace Text

theorem natText_ne_empty (n : Nat) : natText n ≠ "" := by
  rw [natText, ne_eq, String.ofList_eq_empty_iff]
  exact Nat.toDigits_ne_nil

theorem intText_ne_empty (n : Int) : intText n ≠ "" := by
  cases n with
  | ofNat n => exact natText_ne_empty n
  | negSucc n => simp [intText]

end Text

namespace Decimal

theorem Scaled.text_ne_nil (d : Scaled) : d.text ≠ [] := by
  unfold Scaled.text
  dsimp only
  split
  · unfold positional
    split
    · simp
    · simp
    · split <;> simp
  · simp [scientific]

theorem Binary64.text_ne_empty (x : Binary64) : x.text .plain ≠ "" := by
  cases x with
  | nan => decide
  | infinite negative => cases negative <;> decide
  | finite negative m e =>
    have size : (if m = 0 then "0.0" else String.ofList (shortest m e).text) ≠ "" := by
      split <;> simp [Scaled.text_ne_nil]
    simp [Binary64.text, size]

end Decimal

/-- Only the empty text is shown as nothing. -/
theorem Value.display_eq_empty_iff {v : Value} : v.display = "" ↔ v = .text "" := by
  refine ⟨fun empty => ?_, fun same => same ▸ rfl⟩
  cases v with
  | list items => simp [display, inspect] at empty
  | object fields => simp [display, inspect] at empty
  | scalar s =>
    cases s with
    | null => exact absurd empty (by decide)
    | bool b => cases b <;> exact absurd empty (by decide)
    | int n => exact absurd empty (Text.intText_ne_empty n)
    | float x => exact absurd empty x.text_ne_empty
    | text s => exact congrArg Value.text empty
    | date d => simp [display, Scalar.display, Date.text] at empty

namespace Schema

open Relation (ReflTransGen)

theorem numberLiteral_eq_empty_iff {v : Value} : numberLiteral v = "" ↔ v = .text "" := by
  unfold numberLiteral
  split
  · rename_i x
    split
    · rename_i n _
      simp [Text.intText_ne_empty n]
    · exact Value.display_eq_empty_iff
  · exact Value.display_eq_empty_iff

theorem stringLiteral_ne_empty (v : Value) : stringLiteral v ≠ "" := by
  simp [stringLiteral, Naming.literal]

/-- A schema for which there is nothing to print. -/
def Blank : Schema → Prop
  | .union _ _ variants => variants = []
  | .intersection _ branches => branches = []
  | .primitive _ kind enum const => (kind = .integer ∨ kind = .number) ∧
    (enum = some [.text ""] ∨ (enum = none ∨ enum = some []) ∧ const = .text "")
  | .tuple _ _ minItems maxItems _ => maxItems.isSet = true ∧
    ∃ least most, leastLength minItems = .ok least ∧ bound maxItems = .ok most ∧ most < least
  | _ => False

/-- Texts with separators between them are empty together only if there is none, or one empty
text. -/
theorem intercalate_eq_empty_iff {separator : String} (visible : separator ≠ "")
    {texts : List String} : separator.intercalate texts = "" ↔ texts = [] ∨ texts = [""] := by
  cases texts with
  | nil => simp
  | cons first rest =>
    cases rest with
    | nil => simp
    | cons second rest => simp [String.intercalate_cons_cons, visible]

theorem restricted_text_eq_empty_iff {name : String} (named : name ≠ "")
    {literal : Value → String} {enum : Option (List Value)} {const : Value} :
    (restricted name literal enum const).text = "" ↔
      (∃ v, enum = some [v] ∧ literal v = "") ∨
        (enum = none ∨ enum = some []) ∧ const ≠ .null ∧ literal const = "" := by
  unfold restricted
  split
  · rename_i v rest
    have parted : " | " ≠ "" := by decide
    simp only [TypeExpr.scalar, intercalate_eq_empty_iff parted, List.map_cons]
    cases rest <;> simp
  · rename_i unlisted
    have none_or_nil : enum = none ∨ enum = some [] := by
      cases enum with
      | none => exact .inl rfl
      | some values =>
        cases values with
        | nil => exact .inr rfl
        | cons v rest => exact absurd rfl (unlisted v rest)
    have unlisted : ¬∃ v, enum = some [v] ∧ literal v = "" := by
      rintro ⟨v, rfl, -⟩
      simp at none_or_nil
    split
    · rename_i free
      simp [TypeExpr.scalar, named, free, unlisted]
    · rename_i fixed
      simp [TypeExpr.scalar, none_or_nil, fixed, unlisted]

/-- A primitive type has no text exactly if it is a number that is restricted to the empty text. -/
theorem primitiveType_text_eq_empty_iff {o : Origin} {kind : PrimitiveType}
    {enum : Option (List Value)} {const : Value} :
    (primitiveType kind enum const).text = "" ↔ (primitive o kind enum const).Blank := by
  have number : (restricted "number" numberLiteral enum const).text = "" ↔
      enum = some [.text ""] ∨ (enum = none ∨ enum = some []) ∧ const = .text "" := by
    rw [restricted_text_eq_empty_iff (by decide)]
    simp only [numberLiteral_eq_empty_iff]
    constructor
    · rintro (⟨v, listed, rfl⟩ | ⟨unlisted, -, empty⟩)
      · exact .inl listed
      · exact .inr ⟨unlisted, empty⟩
    · rintro (listed | ⟨unlisted, rfl⟩)
      · exact .inl ⟨_, listed, rfl⟩
      · exact .inr ⟨unlisted, by simp, rfl⟩
  cases kind with
  | string =>
    rw [primitiveType, restricted_text_eq_empty_iff (by decide)]
    simp [Blank, stringLiteral_ne_empty]
  | integer => simpa [primitiveType, Blank] using number
  | number => simpa [primitiveType, Blank] using number
  | boolean => simp [primitiveType, Blank, TypeExpr.scalar]
  | null => simp [primitiveType, Blank, TypeExpr.nullType, TypeExpr.scalar]

theorem typeOfText_ne_empty (text : String) : (typeOfText text).text ≠ "" := by
  unfold typeOfText
  split
  · decide
  · assumption

theorem joined_ne_empty {separator : String} {types : List TypeExpr} (given : types ≠ [])
    (each : ∀ t ∈ types, t.text ≠ "") : TypeExpr.joined separator types ≠ "" := by
  obtain ⟨t, rest, rfl⟩ := List.exists_cons_of_ne_nil given
  exact intercalate_ne_empty (List.mem_map_of_mem List.mem_cons_self)
    (each t List.mem_cons_self)

/-- The tuples of all lengths have no text together exactly if there is no length. -/
theorem tupleTexts_eq_empty_iff {places : List TypeExpr} {least most : Int} :
    " | ".intercalate (tupleTexts places least most) = "" ↔ most < least := by
  have visible : ∀ types, tupleText types ≠ "" := by simp [tupleText]
  have listed : tupleTexts places least most = [] ↔ most < least := by
    rw [List.eq_nil_iff_forall_not_mem]
    simp only [tupleTexts, TypeExpr.mem_distinct, ← List.eq_nil_iff_forall_not_mem,
      List.map_eq_nil_iff, List.range_eq_nil]
    omega
  rw [← listed]
  constructor
  · intro empty
    by_contra given
    obtain ⟨text, rest, same⟩ := List.exists_cons_of_ne_nil given
    refine intercalate_ne_empty (same ▸ List.mem_cons_self) ?_ empty
    have member : text ∈ tupleTexts places least most := same ▸ List.mem_cons_self
    obtain ⟨length, -, rfl⟩ := List.mem_map.mp (TypeExpr.mem_distinct.mp member)
    exact visible _
  · intro none
    rw [none]
    rfl

variable {s : Schema} {t : TypeExpr}

/-- A schema for which there is nothing to print has no text. -/
theorem Blank.text_eq (blank : s.Blank) (typed : s.type = .ok t) : t.text = "" := by
  cases hasType_of_type typed with
  | union each | intersection each =>
    cases blank
    cases each
    rfl
  | primitive => exact primitiveType_text_eq_empty_iff.mpr blank
  | bounded _ sameLeast sameMost =>
    obtain ⟨-, least, most, smallest, greatest, inverted⟩ := blank
    cases smallest.symm.trans sameLeast
    cases greatest.symm.trans sameMost
    exact tupleTexts_eq_empty_iff.mpr inverted
  | unbounded missing =>
    obtain ⟨given, -⟩ := blank
    rw [missing] at given
    cases given
  | _ => exact blank.elim

/-- A schema has a text if there is something to print and what is printed in it has one. -/
theorem text_ne_empty_of_prints (typed : s.type = .ok t) (filled : ¬s.Blank)
    (inside : ∀ part, s.Prints part → ∀ u, part.type = .ok u → u.text ≠ "") : t.text ≠ "" := by
  have parts : ∀ {schemas ts}, List.Forall₂ (fun s t => s.type = .ok t) schemas ts →
      schemas ≠ [] → (∀ part ∈ schemas, s.Prints part) →
        ∀ separator, TypeExpr.joined separator ts ≠ "" := by
    intro schemas ts paired given printed separator
    refine joined_ne_empty ?_ fun u among => ?_
    · rintro rfl
      cases paired
      exact given rfl
    · obtain ⟨part, member, own⟩ := exists_of_forall₂ paired.flip among
      exact inside part (printed part member) u own
  cases hasType_of_type typed with
  | null | file | any => decide
  | ref | override => exact typeOfText_ne_empty _
  | nullable => simp [TypeExpr.nullable]
  | union each => exact parts each filled (fun _ member => .variant member) " | "
  | intersection each => exact parts each filled (fun _ member => .branch member) " & "
  | primitive => exact fun empty => filled (primitiveType_text_eq_empty_iff.mp empty)
  | array => simp [TypeExpr.arrayOf, TypeExpr.compound]
  | bounded given smallest greatest =>
    intro empty
    exact filled ⟨given, _, _, smallest, greatest, tupleTexts_eq_empty_iff.mp empty⟩
  | unbounded => simp [TypeExpr.scalar]
  | record => simp [TypeExpr.compound, recordText]

/-- No text is missing in a type exactly if there is something to print everywhere. -/
theorem texts_ne_empty_iff (typed : s.type = .ok t) :
    (∀ part, ReflTransGen Prints s part → ∀ u, part.type = .ok u → u.text ≠ "") ↔
      ∀ part, ReflTransGen Prints s part → ¬part.Blank := by
  constructor
  · intro present part printed blank
    obtain ⟨u, own, -⟩ := inside_of_printed printed typed
    exact present part printed u own (blank.text_eq own)
  · intro filled part printed
    induction part using induction_on_parts with
    | step part ih =>
      intro u own
      refine text_ne_empty_of_prints own (filled part printed) fun inner prints => ?_
      exact ih inner (mem_parts_of_prints prints) (printed.tail prints)

/-- An object for which there is nothing to print when it is read as a schema: it lists no types,
all branches of its composition are marked to allow null, it restricts a number to the empty text,
or its greatest length is below the least. -/
inductive SaysNothing (schema : Fields) : Prop
  | noType (listed : schema.get? "type" = some (.list []))
  | nullMarked {branches : List Value} (listed : schema.get "allOf" = .list branches)
      (given : branches ≠ []) (marked : ∀ v ∈ branches, isNullMarked v = true)
  | emptyNumber {kind : PrimitiveType} {enum : Option (List Value)}
      (number : kind = .integer ∨ kind = .number)
      (typed : schema.get? "type" = some (.text kind.name)) (values : enumValues schema = .ok enum)
      (empty : enum = some [.text ""] ∨
        (enum = none ∨ enum = some []) ∧ schema.get "const" = .text "")
  | noLength {least most : Int} (bounded : (schema.get "maxItems").isSet = true)
      (smallest : leastLength (schema.get "minItems") = .ok least)
      (greatest : bound (schema.get "maxItems") = .ok most) (inverted : most < least)

theorem saysNothing_of_tells {schema : Fields} (tells : Tells schema s) (blank : s.Blank) :
    SaysNothing schema := by
  cases s with
  | union o keyword variants => exact .noType (tells blank)
  | intersection o branches =>
    obtain ⟨values, listed, given, marked⟩ := tells blank
    exact .nullMarked listed given marked
  | primitive o kind enum const =>
    obtain ⟨typed, values, rfl⟩ := tells
    exact .emptyNumber blank.1 typed values blank.2
  | tuple o items minItems maxItems additional =>
    obtain ⟨rfl, rfl⟩ := tells
    obtain ⟨bounded, least, most, smallest, greatest, inverted⟩ := blank
    exact .noLength bounded smallest greatest inverted
  | _ => exact blank.elim

/-- The text of a type and the texts of all types that are printed in it are there exactly if there
is something to print for each schema that is printed. Where there is not, an object that the value
describes says nothing. -/
theorem text_ne_empty_iff {path : String} {v : Value} (read : parse path v = .ok s)
    (typed : s.type = .ok t) :
    ((∀ part, ReflTransGen Prints s part → ∀ u, part.type = .ok u → u.text ≠ "") ↔
      ∀ part, ReflTransGen Prints s part → ¬part.Blank) ∧
    ∀ part, ReflTransGen Prints s part → part.Blank →
      ∃ schema, Describes v schema ∧ SaysNothing schema := by
  refine ⟨texts_ne_empty_iff typed, fun part printed blank => ?_⟩
  have within := ReflTransGen.mono (fun _ _ => mem_parts_of_prints) _ _ printed
  rcases everywhere_sourced read part within with implied | ⟨schema, describes, tells⟩
  · rcases implied with ⟨o, rfl⟩ | ⟨o, rfl⟩ <;> exact blank.elim
  · exact ⟨schema, describes, saysNothing_of_tells tells blank⟩

def nullableText : Value :=
  .object [(.text "type", .text "string"), (.text "x-nullable", .bool true)]

/-- A pet, or null. -/
def possiblePet : Value := .object [(.text "allOf", .list [referenceTo "Pet", nullableText])]

def possiblePetNode : Schema := .intersection ⟨"#", .null⟩ [referenceNode "#/allOf/0" "Pet"]

theorem not_blank_possiblePet (part : Schema) (printed : ReflTransGen Prints possiblePetNode part) :
    ¬part.Blank := by
  have everywhere : possiblePetNode.Everywhere fun part => ¬part.Blank :=
    everywhere_iff.mpr ⟨List.cons_ne_nil _ _,
      List.forall_mem_singleton.mpr (throughout_leaf rfl id)⟩
  exact everywhere part (ReflTransGen.mono (fun _ _ => mem_parts_of_prints) _ _ printed)

/-- Besides a branch that is marked to allow null, the branches of a pet are printed. -/
theorem text_ne_empty_pet : ∃ t, parse "#" possiblePet = .ok possiblePetNode ∧
    possiblePetNode.type = .ok t ∧ t.text = "Pet" ∧
    ∀ part, ReflTransGen Prints possiblePetNode part → ∀ u, part.type = .ok u → u.text ≠ "" := by
  have read : parse "#" possiblePet = .ok possiblePetNode := by cbv
  obtain ⟨t, typed, text⟩ : ∃ t, possiblePetNode.type = .ok t ∧ t.text = "Pet" := ⟨_, by cbv, rfl⟩
  exact ⟨t, read, typed, text, (text_ne_empty_iff read typed).1.mpr not_blank_possiblePet⟩

/-- Where a branch that is marked to allow null is the only one, nothing is printed, and as the type
of the items of an array it leaves a gap. -/
theorem text_empty_nullMarked :
    typeAt "#" (.object [(.text "allOf", .list [nullableText])]) = .ok ⟨"", some []⟩ ∧
    typeAt "#" (.object [(.text "type", .text "array"),
      (.text "items", .object [(.text "allOf", .list [nullableText])])]) =
        .ok ⟨"Array<>", some []⟩ :=
  ⟨by cbv, by cbv⟩

end Schema

end ClientGen
