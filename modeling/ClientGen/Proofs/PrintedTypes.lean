import Mathlib.Data.String.Basic
import Mathlib.Logic.Relation
import ClientGen.Client.Layout
import ClientGen.Proofs.Constituents
import ClientGen.Proofs.TypedSchemas

/-!
# Schemas inside printed types

`Schema.Prints` relates a schema to the parts whose types are written inside its own. The text of
such a part stands in the text of the whole (`Prints.infix`), and the classes that it names are
among those of the whole (`Prints.names`), as long as no tuple has a negative length.
-/
namespace ClientGen

/-- The pieces that a text is put together from stand in the text. -/
theorem Text.infix_intercalate {separator piece : String} {pieces : List String}
    (member : piece ∈ pieces) : piece.toList <:+: (separator.intercalate pieces).toList := by
  have among : piece.toList ∈ pieces.map String.toList := List.mem_map_of_mem member
  rw [String.toList_intercalate, List.intercalate]
  apply List.infix_of_mem_flatten
  generalize pieces.map String.toList = texts at among
  induction texts with
  | nil => simp at among
  | cons first rest ih =>
    cases rest with
    | nil => simpa using among
    | cons second rest =>
      rw [List.intersperse_cons_cons]
      rcases List.mem_cons.mp among with rfl | later
      · simp
      · exact List.mem_cons_of_mem _ (List.mem_cons_of_mem _ (ih later))

theorem Text.infix_append_self (front part : String) : part.toList <:+: (front ++ part).toList := by
  rw [String.toList_append]
  exact (List.suffix_append front.toList part.toList).isInfix

theorem Text.infix_append_of_left {part front : String} (within : part.toList <:+: front.toList)
    (back : String) : part.toList <:+: (front ++ back).toList := by
  rw [String.toList_append]
  exact within.trans (List.prefix_append front.toList back.toList).isInfix

theorem Text.infix_join {part : String} {parts : List String} (member : part ∈ parts) :
    part.toList <:+: (String.join parts).toList := by
  rw [String.join_eq, String.toList_ofList]
  exact List.infix_of_mem_flatten (List.mem_map_of_mem member)

theorem Text.contains_iff {part s : String} :
    contains part s = true ↔ part.toList <:+: s.toList := by
  unfold contains
  generalize part.toList = p
  induction s.toList with
  | nil => simp [containsChars]
  | cons c rest ih =>
    rw [containsChars, Bool.or_eq_true, ih, List.isPrefixOf_iff_prefix, List.infix_cons_iff]

/-- What lacks the character between two lists stands in one of them. -/
theorem Text.infix_append_cons_iff {p xs ys : List Char} {c : Char} (absent : c ∉ p) :
    p <:+: xs ++ c :: ys ↔ p <:+: xs ∨ p <:+: ys := by
  have nothing (q : List Char) (lacks : c ∉ q) (starts : q <+: c :: ys) : q = [] := by
    rcases List.prefix_cons_iff.mp starts with rfl | ⟨rest, rfl, -⟩
    · rfl
    · simp at lacks
  rw [List.infix_append_iff, List.infix_cons_iff]
  constructor
  · rintro (left | (starts | right) | ⟨front, back, rfl, ends, starts⟩)
    · exact Or.inl left
    · rw [nothing p absent starts]
      exact Or.inl List.nil_infix
    · exact Or.inr right
    · rw [nothing back (fun member => absent (List.mem_append_right _ member)) starts,
        List.append_nil]
      exact Or.inl ends.isInfix
  · rintro (left | right)
    · exact Or.inl left
    · exact Or.inr (Or.inl (Or.inr right))

theorem Client.infix_unlines {line : String} {lines : List String} (member : line ∈ lines) :
    (line ++ "\n").toList <:+: (unlines lines).toList :=
  Text.infix_join (List.mem_map_of_mem member)

theorem TypeExpr.infix_joined {separator : String} {types : List TypeExpr} {t : TypeExpr}
    (member : t ∈ types) : t.text.toList <:+: (joined separator types).toList :=
  Text.infix_intercalate (List.mem_map_of_mem member)

namespace Schema

/-- The parts of a schema whose types are written inside its own. A tuple without a greatest length
writes none of its places. -/
inductive Prints : Schema → Schema → Prop
  | inner {o : Origin} {inner : Schema} : Prints (.nullable o inner) inner
  | variant {o : Origin} {keyword : UnionKeyword} {variants : List Schema} {v : Schema}
      (member : v ∈ variants) : Prints (.union o keyword variants) v
  | branch {o : Origin} {branches : List Schema} {b : Schema} (member : b ∈ branches) :
      Prints (.intersection o branches) b
  | items {o : Origin} {items : Schema} : Prints (.array o items) items
  | place {o : Origin} {items : List Schema} {minItems maxItems : Value}
      {additional : Option Schema} {least most length : Int} {s : Schema}
      (bounded : maxItems.isSet = true) (greatest : bound maxItems = .ok most)
      (smallest : leastLength minItems = .ok least) (atLeast : least ≤ length)
      (atMost : length ≤ most)
      (member : s ∈ firstItems length (items ++ [additional.getD (.any o none)])) :
      Prints (.tuple o items minItems maxItems additional) s
  | member {o : Origin} {members : List (Member × Schema)} {required : List Value}
      {additional : Option Schema} {m : Member} {s : Schema} (member : (m, s) ∈ members) :
      Prints (.record o members required additional) s
  | additional {o : Origin} {members : List (Member × Schema)} {required : List Value}
      {s : Schema} : Prints (.record o members required (some s)) s

def Counts : Schema → Prop
  | .tuple _ _ minItems _ _ => ∀ least, leastLength minItems = .ok least → 0 ≤ least
  | _ => True

theorem forall₂_firstItems {α β : Type} {related : α → β → Prop} {xs : List α} {ys : List β}
    (paired : List.Forall₂ related xs ys) (count : Int) :
    List.Forall₂ related (firstItems count xs) (firstItems count ys) := by
  cases count with
  | ofNat n => exact List.forall₂_take n paired
  | negSucc n =>
    simp only [firstItems, paired.length_eq]
    exact List.forall₂_take _ paired

/-- A tuple of fewer places has the first of them only. -/
theorem firstItems_subset {α : Type} {fewer more : Int} (items : List α) (counts : 0 ≤ fewer)
    (le : fewer ≤ more) : firstItems fewer items ⊆ firstItems more items := by
  obtain ⟨m, rfl⟩ := Int.eq_ofNat_of_zero_le counts
  obtain ⟨n, rfl⟩ := Int.eq_ofNat_of_zero_le (Int.le_trans counts le)
  exact List.take_subset_take_left items (by omega)

/-- The class of a reference is a class name, which stripping leaves as it is. -/
theorem strip_of_classOfRef? {target : Value} {name : String}
    (leads : Naming.classOfRef? target = .ok (some name)) : TypeExpr.strip name = name := by
  unfold Naming.classOfRef? at leads
  split at leads
  · obtain ⟨ref, -, leads⟩ := bind_eq_ok.mp leads
    have same : Naming.classOfRef ref = name := Option.some.inj (Except.ok.inj leads)
    rw [← same, Naming.classOfRef, Naming.strip_className]
  · cases leads

/-- The type `u` is written inside the type `t`: its text stands there, and if nothing is lost,
`t` names what it names. -/
structure Inside (u t : TypeExpr) (kept : Prop) : Prop where
  written : u.text.toList <:+: t.text.toList
  names : kept → ∀ name, u.Names name → t.Names name

theorem inside_combine {separator : String} {types : List TypeExpr} {t : TypeExpr} {kept : Prop}
    (member : t ∈ types) : Inside t (.combine separator types) kept :=
  ⟨TypeExpr.infix_joined member, fun _ _ named => TypeExpr.names_compound.mpr ⟨t, member, named⟩⟩

theorem inside_tupleTexts {places : List TypeExpr} {u : TypeExpr} {least most length : Int}
    (atLeast : least ≤ length) (atMost : length ≤ most) (member : u ∈ firstItems length places) :
    Inside u (.compound (" | ".intercalate (tupleTexts places least most))
      (firstItems most places)) (0 ≤ least) := by
  refine ⟨?_, ?_⟩
  · have inTuple : u.text.toList <:+: (tupleText (firstItems length places)).toList := by
      have joined : u.text.toList <:+: (TypeExpr.joined ", " (firstItems length places)).toList :=
        TypeExpr.infix_joined member
      rw [tupleText, String.toList_append, String.toList_append]
      exact joined.trans ⟨_, _, rfl⟩
    have isPrinted : tupleText (firstItems length places) ∈ tupleTexts places least most := by
      refine TypeExpr.mem_distinct.mpr (List.mem_map.mpr ⟨(length - least).toNat, ?_, ?_⟩)
      · rw [List.mem_range]
        omega
      · have same : least + ((length - least).toNat : Int) = length := by omega
        rw [same]
    exact inTuple.trans (Text.infix_intercalate isPrinted)
  · intro counts name named
    have inLongest := firstItems_subset places (Int.le_trans counts atLeast) atMost member
    exact TypeExpr.names_compound.mpr ⟨u, inLongest, named⟩

theorem memberText_ok {m : Member} {t : TypeExpr} {text : String}
    (success : memberText m t = .ok text) : t.text.toList <:+: text.toList := by
  unfold memberText at success
  obtain ⟨key, -, success⟩ := bind_eq_ok.mp success
  cases success
  rw [String.toList_append]
  exact (List.suffix_append _ _).isInfix

/-- The type of a record is written around the types of its members and of its other keys. -/
theorem inside_record {parts : List (String × TypeExpr)} {text : String} {u : TypeExpr}
    {kept : Prop} (member : (text, u) ∈ parts) (written : u.text.toList <:+: text.toList) :
    Inside u (.compound (recordText (parts.map Prod.fst)) (parts.map Prod.snd)) kept := by
  refine ⟨?_, ?_⟩
  · have listed : text.toList <:+: (", ".intercalate (parts.map Prod.fst)).toList :=
      Text.infix_intercalate (List.mem_map_of_mem member)
    have enclosed : (", ".intercalate (parts.map Prod.fst)).toList <:+:
        (recordText (parts.map Prod.fst)).toList := by
      rw [recordText, String.toList_append, String.toList_append]
      exact ⟨_, _, rfl⟩
    exact written.trans (listed.trans enclosed)
  · intro _ name named
    exact TypeExpr.names_compound.mpr ⟨u, List.mem_map_of_mem member, named⟩

/-- A printed part has a type of its own, which is written inside the whole. -/
theorem Prints.inside {s part : Schema} {t : TypeExpr} (prints : s.Prints part)
    (typed : s.type = .ok t) : ∃ u, part.type = .ok u ∧ Inside u t s.Counts := by
  have built := hasType_of_type typed
  cases prints with
  | inner =>
    cases built with
    | @nullable _ _ u own =>
      refine ⟨u, own, ?_, fun _ _ named => TypeExpr.names_nullable.mpr named⟩
      rw [TypeExpr.nullable, String.toList_append]
      exact (List.suffix_append _ _).isInfix
  | variant member =>
    cases built with
    | union each =>
      obtain ⟨u, among, own⟩ := exists_of_forall₂ each member
      exact ⟨u, own, inside_combine among⟩
  | branch member =>
    cases built with
    | intersection each =>
      obtain ⟨u, among, own⟩ := exists_of_forall₂ each member
      exact ⟨u, own, inside_combine among⟩
  | items =>
    cases built with
    | @array _ _ u own =>
      refine ⟨u, own, ?_, fun _ _ named => TypeExpr.names_compound.mpr ⟨u, by simp, named⟩⟩
      rw [TypeExpr.arrayOf, TypeExpr.compound, String.toList_append, String.toList_append]
      exact ⟨_, _, rfl⟩
  | place bounded greatest smallest atLeast atMost member =>
    cases built with
    | unbounded missing =>
      rw [missing] at bounded
      cases bounded
    | bounded _ sameLeast sameMost each =>
      cases smallest.symm.trans sameLeast
      cases greatest.symm.trans sameMost
      obtain ⟨u, among, own⟩ := exists_of_forall₂ (forall₂_firstItems each _) member
      have within := inside_tupleTexts atLeast atMost among
      exact ⟨u, own, within.written, fun counts => within.names (counts _ smallest)⟩
  | member member =>
    cases built with
    | record written =>
      obtain ⟨⟨text, u⟩, among, own, written⟩ := exists_of_forall₂ written member
      exact ⟨u, own, inside_record (List.mem_append_left _ among) (memberText_ok written)⟩
  | additional =>
    cases built with
    | record _ free =>
      obtain ⟨_, among, u, own, rfl⟩ := exists_of_forall₂ free (List.mem_singleton_self _)
      exact ⟨u, own, inside_record (List.mem_append_right _ among) (Text.infix_append_self _ _)⟩

/-- Every schema that is printed anywhere in a type has a type of its own, which is written inside
the whole. -/
theorem inside_of_printed {s part : Schema} (printed : Relation.ReflTransGen Prints s part)
    {t : TypeExpr} (typed : s.type = .ok t) :
    ∃ u, part.type = .ok u ∧
      Inside u t (∀ inner, Relation.ReflTransGen Prints s inner → inner.Counts) := by
  induction printed with
  | refl => exact ⟨t, typed, List.infix_rfl, fun _ _ named => named⟩
  | tail before last ih =>
    obtain ⟨v, middle, outer⟩ := ih
    obtain ⟨u, own, inner⟩ := last.inside middle
    refine ⟨u, own, inner.written.trans outer.written, ?_⟩
    intro counts name named
    exact outer.names counts name (inner.names (counts _ before) name named)

end Schema

end ClientGen
