import Mathlib
import ClientGen.Proofs.RepeatedResults
import ClientGen.Proofs.ServiceImports
import ClientGen.Proofs.TypeLeaves

/-!
# Form values

A form value is sent as JSON unless its type is text or binary content, behind null marks. The type
is known by its only constituent, and a compound of one constituent is taken for that: an array of
texts is sent like a text. `Parameter.encodesForm_iff` says for which types nothing is mistaken:
those that have another constituent, and those that are printed as their only constituent.
-/
namespace ClientGen

namespace Text

/-- The pieces of a text hold all of its characters but the separators. -/
theorem exists_piece {sep c : Char} {s : List Char} (member : c ∈ s) (other : c ≠ sep) :
    ∃ piece ∈ splitOn sep s, c ∈ piece := by
  induction s with
  | nil => cases member
  | cons d rest ih =>
    by_cases found : d = sep
    · have later := (List.mem_cons.mp member).resolve_left fun same => other (same.trans found)
      obtain ⟨piece, among, held⟩ := ih later
      exact ⟨piece, by simp [splitOn, found, among], held⟩
    · cases pieces : splitOn sep rest with
      | nil => exact absurd pieces (splitOn_ne_nil sep rest)
      | cons first others =>
        have cut : splitOn sep (d :: rest) = (d :: first) :: others := by
          simp [splitOn, found, pieces]
        rw [cut]
        rcases List.mem_cons.mp member with rfl | later
        · exact ⟨_, List.mem_cons_self, List.mem_cons_self⟩
        · obtain ⟨piece, among, held⟩ := ih later
          rw [pieces] at among
          rcases List.mem_cons.mp among with rfl | behind
          · exact ⟨_, List.mem_cons_self, List.mem_cons_of_mem d held⟩
          · exact ⟨piece, List.mem_cons_of_mem _ behind, held⟩

end Text

namespace TypeExpr

/-- Text or binary content, perhaps behind null marks: the types of form values that are sent as
they are. -/
def SentPlainly (text : String) : Prop := stripNull text = "string" ∨ stripNull text = "Blob"

/-- The type has only one constituent, and this is sent as it is. -/
def HoldsOnlyPlain (t : TypeExpr) : Prop := ∃ leaf, t.leaves = [leaf] ∧ SentPlainly leaf

def alternatives (text : String) : List (List Char) :=
  Text.splitOn '|' (text.toList.filter (· != ' '))

/-- The alternatives that are dropped as null marks at the start of a text. -/
def nullWords : List (List Char) := ["null".toList, "undefined".toList]

/-- The alternatives that are sent as they are. -/
def plainWords : List (List Char) := ["string".toList, "Blob".toList]

def OnlyMarks (text : String) : Prop := ∀ word ∈ alternatives text, word ∈ nullWords

/-- Whether the characters of a text can stand in that of a type that is sent as it is. -/
def isPlainChar (c : Char) : Bool := c == ' ' || c == '|' || Naming.isAlnum c

theorem alternatives_ne_nil (text : String) : alternatives text ≠ [] :=
  Text.splitOn_ne_nil '|' _

theorem alternatives_append (first rest : String) :
    alternatives (first ++ " | " ++ rest) = alternatives first ++ alternatives rest := by
  have marked : (first ++ " | " ++ rest).toList.filter (· != ' ') =
      first.toList.filter (· != ' ') ++ '|' :: rest.toList.filter (· != ' ') := by
    simp
  rw [alternatives, marked, Text.splitOn_append_cons]
  rfl

/-- The alternatives before the null marks are dropped are the null marks and the others. -/
theorem exists_marks (s : List Char) : ∃ marks, (∀ word ∈ marks, word ∈ nullWords) ∧
    Text.splitOn '|' s = marks ++ Text.splitOn '|' (dropNullMarks s) := by
  have dropped : ∀ (word rest : List Char), '|' ∉ word → Text.splitOn '|' (word ++ '|' :: rest) =
      word :: Text.splitOn '|' rest := by
    intro word rest whole
    rw [Text.splitOn_append_cons, Text.splitOn_of_absent whole]
    rfl
  induction s using dropNullMarks.induct with
  | case1 s starts ih =>
    obtain ⟨rest, rfl⟩ := starts
    obtain ⟨marks, words, split⟩ := ih
    refine ⟨"null".toList :: marks, ?_, ?_⟩
    · exact List.forall_mem_cons.mpr ⟨by decide, words⟩
    · rw [dropNullMarks, if_pos (List.prefix_append _ _), List.cons_append, ← split]
      exact dropped "null".toList rest (by decide)
  | case2 s other starts ih =>
    obtain ⟨rest, rfl⟩ := starts
    obtain ⟨marks, words, split⟩ := ih
    refine ⟨"undefined".toList :: marks, ?_, ?_⟩
    · exact List.forall_mem_cons.mpr ⟨by decide, words⟩
    · rw [dropNullMarks, if_neg other, if_pos (List.prefix_append _ _), List.cons_append, ← split]
      exact dropped "undefined".toList rest (by decide)
  | case3 s other more =>
    refine ⟨[], by simp, ?_⟩
    rw [dropNullMarks, if_neg other, if_neg more]
    rfl

/-- A text that is sent as it is gives null marks and then one of two words. -/
theorem SentPlainly.alternatives_eq {text : String} (plain : SentPlainly text) :
    ∃ marks word, (∀ mark ∈ marks, mark ∈ nullWords) ∧
      word ∈ plainWords ∧ alternatives text = marks ++ [word] := by
  obtain ⟨marks, words, split⟩ := exists_marks (text.toList.filter (· != ' '))
  rw [SentPlainly, stripNull, ← String.toList_inj, ← String.toList_inj, String.toList_ofList,
    withoutNull] at plain
  rcases plain with same | same
  · rw [same] at split
    exact ⟨marks, "string".toList, words, List.mem_cons_self, split⟩
  · rw [same] at split
    exact ⟨marks, "Blob".toList, words, List.mem_cons_of_mem _ List.mem_cons_self, split⟩

/-- A text that is sent as it is gives more than null marks. -/
theorem SentPlainly.not_onlyMarks {text : String} (plain : SentPlainly text) : ¬OnlyMarks text := by
  obtain ⟨marks, word, -, named, split⟩ := plain.alternatives_eq
  intro only
  have marked : word ∈ nullWords := only word (by simp [split])
  have apart : ∀ word ∈ plainWords, word ∉ nullWords := by decide
  exact apart word named marked

/-- A text whose alternatives are plain has only plain characters. -/
theorem isPlainChar_of_alternatives {text : String} {c : Char}
    (plain : ∀ word ∈ alternatives text, word ∈ nullWords ∨ word ∈ plainWords)
    (member : c ∈ text.toList) : isPlainChar c = true := by
  by_cases blank : c = ' '
  · simp [isPlainChar, blank]
  · by_cases bar : c = '|'
    · simp [isPlainChar, bar]
    · have kept : c ∈ text.toList.filter (· != ' ') :=
        List.mem_filter.mpr ⟨member, bne_iff_ne.mpr blank⟩
      obtain ⟨word, among, held⟩ := Text.exists_piece kept bar
      have letters : (nullWords ++ plainWords).all (·.all isPlainChar) = true := by decide
      have allowed := List.all_eq_true.mp letters word (List.mem_append.mpr (plain word among))
      exact List.all_eq_true.mp allowed c held

theorem SentPlainly.isPlainChar {text : String} {c : Char} (plain : SentPlainly text)
    (member : c ∈ text.toList) : isPlainChar c = true := by
  obtain ⟨marks, word, words, named, split⟩ := plain.alternatives_eq
  refine isPlainChar_of_alternatives ?_ member
  intro other among
  rw [split] at among
  rcases List.mem_append.mp among with mark | last
  · exact .inl (words other mark)
  · exact .inr (List.mem_singleton.mp last ▸ named)

theorem OnlyMarks.isPlainChar {text : String} {c : Char} (only : OnlyMarks text)
    (member : c ∈ text.toList) : isPlainChar c = true :=
  isPlainChar_of_alternatives (fun word among => .inl (only word among)) member

/-- A text that gives nothing but null marks does so on both sides of a bar. -/
theorem OnlyMarks.sides {first rest : String} (only : OnlyMarks (first ++ " | " ++ rest)) :
    OnlyMarks first ∧ OnlyMarks rest := by
  rw [OnlyMarks, alternatives_append] at only
  exact ⟨fun word among => only word (List.mem_append_left _ among),
    fun word among => only word (List.mem_append_right _ among)⟩

/-- In a text that is sent as it is null marks stand before a bar. -/
theorem SentPlainly.onlyMarks_before {first rest : String}
    (plain : SentPlainly (first ++ " | " ++ rest)) : OnlyMarks first := by
  obtain ⟨marks, word, words, -, split⟩ := plain.alternatives_eq
  rw [alternatives_append] at split
  have shorter := congrArg List.dropLast split
  rw [List.dropLast_append_of_ne_nil (alternatives_ne_nil rest), List.dropLast_concat] at shorter
  intro other among
  exact words other (shorter ▸ List.mem_append_left _ among)

theorem not_onlyMarks_empty : ¬OnlyMarks "" := by
  intro only
  exact absurd (only [] (by decide)) (by decide)

theorem not_sentPlainly_empty : ¬SentPlainly "" := by
  have stripped : stripNull "" = "" := by cbv
  rw [SentPlainly, stripped]
  decide

/-- A null mark at the start makes no difference. -/
theorem stripNull_null_mark (text : String) : stripNull ("null | " ++ text) = stripNull text := by
  rw [stripNull, withoutNull_null_mark, stripNull]

theorem sentPlainly_nullable {t : TypeExpr} :
    SentPlainly t.nullable.text ↔ SentPlainly t.text := by
  have same : stripNull t.nullable.text = stripNull t.text := stripNull_null_mark t.text
  rw [SentPlainly, same, SentPlainly]

/-- A type is taken for text or binary content exactly if it has no other constituent. -/
theorem nonNullName_mem_iff (t : TypeExpr) :
    t.nonNullName ∈ ["Blob", "string"] ↔ t.HoldsOnlyPlain := by
  obtain ⟨text, constituents⟩ := t
  unfold nonNullName nameBy HoldsOnlyPlain SentPlainly leaves
  rcases constituents with _ | (_ | ⟨name, _ | ⟨other, rest⟩⟩)
  · simp [or_comm]
  · simp
  · simp [or_comm]
  · simp

end TypeExpr

namespace Schema

/-- The schema describes an array, a tuple or an inline object, or one of these that may be null. -/
def isCollection : Schema → Bool
  | .nullable _ inner => inner.isCollection
  | .array _ _ | .tuple _ _ _ _ _ | .record _ _ _ _ => true
  | _ => false

/-- A schema is printed as its only part that is no compound, perhaps behind null marks: it has a
text of its own, or it joins one schema only, which is printed so. -/
inductive PrintsOne : Schema → Prop
  | own {s : Schema} {text : String} (typed : s.HasText text) : PrintsOne s
  | nullable {o : Origin} {inner : Schema} (one : PrintsOne inner) : PrintsOne (.nullable o inner)
  | union {o : Origin} {keyword : UnionKeyword} {variant : Schema} (one : PrintsOne variant) :
      PrintsOne (.union o keyword [variant])
  | intersection {o : Origin} {branch : Schema} (one : PrintsOne branch) :
      PrintsOne (.intersection o [branch])

/-- The text is empty, or has a character that no plain type has. -/
def Unplain (text : String) : Prop :=
  text = "" ∨ ∃ c ∈ text.toList, TypeExpr.isPlainChar c = false

/-- How the type of a schema is made: from a text of its own, as that of one schema with a null
mark, as one that joins others, or as a text that says that it is a collection. -/
inductive Shape : Schema → TypeExpr → Prop
  | own {s : Schema} {text : String} (typed : s.HasText text)
      (unplain : s.isCollection = true → Unplain text) : Shape s (.scalar text)
  | nullable {o : Origin} {inner : Schema} {u : TypeExpr} (typed : inner.type = .ok u) :
      Shape (.nullable o inner) u.nullable
  | union {o : Origin} {keyword : UnionKeyword} {variants : List Schema} {types : List TypeExpr}
      (typed : List.Forall₂ (fun s t => s.type = .ok t) variants types) :
      Shape (.union o keyword variants) (.union types)
  | intersection {o : Origin} {branches : List Schema} {types : List TypeExpr}
      (typed : List.Forall₂ (fun s t => s.type = .ok t) branches types) :
      Shape (.intersection o branches) (.intersection types)
  | collection {s : Schema} {text : String} {types : List TypeExpr} (unplain : Unplain text) :
      Shape s (.compound text types)

theorem unplain_of_mem {text : String} {c : Char} (other : TypeExpr.isPlainChar c = false)
    (member : c ∈ text.toList) : Unplain text :=
  .inr ⟨c, member, other⟩

theorem unplain_tuples (types : List TypeExpr) (least most : Int) :
    Unplain (" | ".intercalate (tupleTexts types least most)) := by
  cases texts : tupleTexts types least most with
  | nil => exact .inl rfl
  | cons text rest =>
    have opens : '[' ∈ text.toList := by
      have member : text ∈ tupleTexts types least most := texts ▸ List.mem_cons_self
      rw [tupleTexts, TypeExpr.mem_distinct, List.mem_map] at member
      obtain ⟨i, -, rfl⟩ := member
      simp [tupleText]
    exact unplain_of_mem (by decide) ((Text.infix_intercalate List.mem_cons_self).subset opens)

theorem shape_of_type {s : Schema} {t : TypeExpr} (typed : s.type = .ok t) : Shape s t := by
  cases hasType_of_type typed with
  | null | file | any => exact .own typed (by simp [isCollection])
  | ref | override =>
    obtain ⟨text, same⟩ := exists_scalar_typeOfText _
    rw [same] at typed ⊢
    exact .own typed (by simp [isCollection])
  | @primitive o kind enum const =>
    obtain ⟨text, same⟩ := exists_scalar_primitiveType kind enum const
    rw [same] at typed ⊢
    exact .own typed (by simp [isCollection])
  | nullable inside => exact .nullable inside
  | union each => exact .union each
  | intersection each => exact .intersection each
  | array => exact .collection (unplain_of_mem (c := '<') (by decide) (by simp))
  | bounded => exact .collection (unplain_tuples _ _ _)
  | unbounded => exact .own typed fun _ => unplain_of_mem (c := '<') (by decide) (by simp)
  | record => exact .collection (unplain_of_mem (c := '\x7b') (by decide) (by simp [recordText]))

theorem not_sentPlainly_of_unplain {text : String} (unplain : Unplain text) :
    ¬TypeExpr.SentPlainly text := by
  intro plain
  rcases unplain with rfl | ⟨c, member, other⟩
  · exact TypeExpr.not_sentPlainly_empty plain
  · rw [plain.isPlainChar member] at other
    cases other

theorem not_onlyMarks_of_unplain {text : String} (unplain : Unplain text) :
    ¬TypeExpr.OnlyMarks text := by
  intro only
  rcases unplain with rfl | ⟨c, member, other⟩
  · exact TypeExpr.not_onlyMarks_empty only
  · rw [only.isPlainChar member] at other
    cases other

theorem unplain_several (t u : TypeExpr) (rest : List TypeExpr) :
    Unplain (TypeExpr.intersection (t :: u :: rest)).text := by
  refine unplain_of_mem (c := '&') (by decide) ?_
  simp [TypeExpr.intersection, TypeExpr.combine, TypeExpr.compound, TypeExpr.joined,
    String.intercalate_cons_cons]

@[simp] theorem combine_single_text (separator : String) (t : TypeExpr) :
    (TypeExpr.combine separator [t]).text = t.text := by
  simp [TypeExpr.combine, TypeExpr.compound, TypeExpr.joined]

theorem union_cons_text (t u : TypeExpr) (rest : List TypeExpr) :
    (TypeExpr.union (t :: u :: rest)).text =
      t.text ++ " | " ++ (TypeExpr.union (u :: rest)).text := by
  simp [TypeExpr.union, TypeExpr.combine, TypeExpr.compound, TypeExpr.joined,
    String.intercalate_cons_cons]

theorem mem_leaves_combine {separator leaf : String} {types : List TypeExpr} {t : TypeExpr}
    (among : t ∈ types) (member : leaf ∈ t.leaves) :
    leaf ∈ (TypeExpr.combine separator types).leaves := by
  show leaf ∈ TypeExpr.merge types
  rw [TypeExpr.merge, TypeExpr.mem_distinct, List.mem_flatMap]
  exact ⟨t, among, member⟩

variable {s : Schema} {t : TypeExpr}

/-- Where the text of a type gives nothing but null marks, so does that of a constituent. -/
theorem exists_onlyMarks_leaf (typed : s.type = .ok t) (only : TypeExpr.OnlyMarks t.text) :
    ∃ leaf ∈ t.leaves, TypeExpr.OnlyMarks leaf := by
  induction s using induction_on_parts generalizing t with
  | step s ih =>
    cases shape_of_type typed with
    | own => exact ⟨_, List.mem_singleton_self _, only⟩
    | @nullable o inner u inside =>
      cases listed : u.constituents with
      | none => exact ⟨_, by simp [TypeExpr.nullable, TypeExpr.leaves, listed], only⟩
      | some names =>
        have marked : u.nullable.text = "null" ++ " | " ++ u.text := rfl
        have behind : TypeExpr.OnlyMarks u.text := by
          rw [marked] at only
          exact only.sides.2
        obtain ⟨leaf, member, marks⟩ := ih inner (List.mem_singleton_self inner) inside behind
        refine ⟨leaf, ?_, marks⟩
        simpa [TypeExpr.nullable, TypeExpr.leaves, listed] using member
    | @union o keyword variants types each =>
      cases each with
      | nil => exact absurd only TypeExpr.not_onlyMarks_empty
      | @cons v u variants rest head tail =>
        have first : TypeExpr.OnlyMarks u.text := by
          cases rest with
          | nil => simpa [TypeExpr.union] using only
          | cons second others =>
            rw [union_cons_text] at only
            exact only.sides.1
        obtain ⟨leaf, member, marks⟩ := ih v List.mem_cons_self head first
        exact ⟨leaf, mem_leaves_combine List.mem_cons_self member, marks⟩
    | @intersection o branches types each =>
      cases each with
      | nil => exact absurd only TypeExpr.not_onlyMarks_empty
      | @cons b u branches rest head tail =>
        cases rest with
        | nil =>
          have same : TypeExpr.OnlyMarks u.text := by simpa [TypeExpr.intersection] using only
          obtain ⟨leaf, member, marks⟩ := ih b List.mem_cons_self head same
          exact ⟨leaf, mem_leaves_combine List.mem_cons_self member, marks⟩
        | cons second others => exact absurd only (not_onlyMarks_of_unplain (unplain_several _ _ _))
    | collection unplain => exact absurd only (not_onlyMarks_of_unplain unplain)

/-- Where the type of a schema has only one constituent and both are sent as they are, the schema is
printed as that. -/
theorem printsOne_of_sentPlainly {leaf : String} (typed : s.type = .ok t)
    (only : ∀ other ∈ t.leaves, other = leaf) (plainLeaf : TypeExpr.SentPlainly leaf)
    (plain : TypeExpr.SentPlainly t.text) : s.PrintsOne := by
  induction s using induction_on_parts generalizing t leaf with
  | step s ih =>
    cases shape_of_type typed with
    | own typed => exact .own typed
    | @nullable o inner u inside =>
      have behind : TypeExpr.SentPlainly u.text := TypeExpr.sentPlainly_nullable.mp plain
      refine .nullable ?_
      cases listed : u.constituents with
      | none =>
        refine ih inner (List.mem_singleton_self inner) inside ?_ behind behind
        simp [TypeExpr.leaves, listed]
      | some names =>
        refine ih inner (List.mem_singleton_self inner) inside ?_ plainLeaf behind
        simpa [TypeExpr.nullable, TypeExpr.leaves, listed] using only
    | @union o keyword variants types each =>
      cases each with
      | nil => exact absurd plain TypeExpr.not_sentPlainly_empty
      | @cons v u variants rest head tail =>
        have same : ∀ other ∈ u.leaves, other = leaf := fun other member =>
          only other (mem_leaves_combine List.mem_cons_self member)
        cases tail with
        | nil =>
          refine .union (ih v List.mem_cons_self head same plainLeaf ?_)
          simpa [TypeExpr.union] using plain
        | @cons _ second _ others =>
          -- Only null marks may stand before the last variant, and the leaf gives more.
          rw [union_cons_text] at plain
          obtain ⟨other, member, marked⟩ := exists_onlyMarks_leaf head plain.onlyMarks_before
          rw [same other member] at marked
          exact absurd marked plainLeaf.not_onlyMarks
    | @intersection o branches types each =>
      cases each with
      | nil => exact absurd plain TypeExpr.not_sentPlainly_empty
      | @cons b u branches rest head tail =>
        cases tail with
        | nil =>
          have same : ∀ other ∈ u.leaves, other = leaf := fun other member =>
            only other (mem_leaves_combine List.mem_cons_self member)
          refine .intersection (ih b List.mem_cons_self head same plainLeaf ?_)
          simpa [TypeExpr.intersection] using plain
        | cons => exact absurd plain (not_sentPlainly_of_unplain (unplain_several _ _ _))
    | collection unplain => exact absurd plain (not_sentPlainly_of_unplain unplain)

theorem leaves_combine_single {separator : String} (typed : s.type = .ok t) :
    (TypeExpr.combine separator [t]).leaves = t.leaves := by
  show TypeExpr.merge [t] = t.leaves
  have nodup : t.leaves.Nodup := s.nodup_leaves_type typed
  rw [TypeExpr.merge, List.flatMap_singleton, TypeExpr.distinct_of_nodup nodup]

theorem sentPlainly_combine_single {separator : String} (typed : s.type = .ok t)
    (part : t.HoldsOnlyPlain → TypeExpr.SentPlainly t.text)
    (plain : (TypeExpr.combine separator [t]).HoldsOnlyPlain) :
    TypeExpr.SentPlainly (TypeExpr.combine separator [t]).text := by
  rw [TypeExpr.HoldsOnlyPlain, leaves_combine_single typed] at plain
  rw [combine_single_text]
  exact part plain

/-- What is printed as its only constituent is sent as it is if that is. -/
theorem PrintsOne.sentPlainly (one : s.PrintsOne) (typed : s.type = .ok t)
    (plain : t.HoldsOnlyPlain) : TypeExpr.SentPlainly t.text := by
  induction one generalizing t with
  | own has =>
    rw [has] at typed
    cases typed
    obtain ⟨leaf, single, plain⟩ := plain
    cases single
    exact plain
  | nullable one ih =>
    cases hasType_of_type typed with
    | @nullable _ _ u inside =>
      obtain ⟨leaf, single, plain⟩ := plain
      cases listed : u.constituents with
      | none =>
        have same : u.nullable.text = leaf := by
          simpa [TypeExpr.nullable, TypeExpr.leaves, listed] using single
        rwa [same]
      | some names =>
        have behind := ih inside ⟨leaf, by simpa [TypeExpr.nullable, TypeExpr.leaves, listed] using
          single, plain⟩
        exact TypeExpr.sentPlainly_nullable.mpr behind
  | union one ih =>
    cases hasType_of_type typed with
    | union each =>
      cases each with
      | cons head tail =>
        cases tail
        exact sentPlainly_combine_single head (ih head) plain
  | intersection one ih =>
    cases hasType_of_type typed with
    | intersection each =>
      cases each with
      | cons head tail =>
        cases tail
        exact sentPlainly_combine_single head (ih head) plain

/-- A type that is sent as it is is no collection. -/
theorem isCollection_of_sentPlainly (typed : s.type = .ok t) (plain : TypeExpr.SentPlainly t.text) :
    s.isCollection = false := by
  induction s using induction_on_parts generalizing t with
  | step s ih =>
    cases shape_of_type typed with
    | own _ unplain =>
      rw [Bool.eq_false_iff]
      intro collection
      exact not_sentPlainly_of_unplain (unplain collection) plain
    | @nullable o inner u inside =>
      exact ih inner (List.mem_singleton_self inner) inside (TypeExpr.sentPlainly_nullable.mp plain)
    | union | intersection => rfl
    | collection unplain => exact absurd plain (not_sentPlainly_of_unplain unplain)

end Schema

namespace Parameter

open TypeExpr Schema

/-- The parameter `p` is read from the fields that a value leads to, as a form value that is not one
of several constants. -/
structure FormValue (document v : Value) (inContainer : Bool) (fields : Fields) (p : Parameter) :
    Prop where
  followed : Reference.follow document v = .ok (.object fields)
  read : ofValue document v inContainer = .ok p
  inForm : p.location = .text "formData"
  free : (fields.get "enum").isSet = false

/-- A form value with the schema `s` is sent as it is only if it is text or binary content, and as
JSON if it is a collection. -/
def EncodesForm (s : Schema) (p : Parameter) : Prop :=
  (p.toJson = false → SentPlainly p.type.text) ∧ (s.isCollection = true → p.toJson = true)

variable {document v : Value} {inContainer : Bool} {fields : Fields} {p : Parameter}

/-- What is known of a form value is the only constituent of its type. -/
theorem FormValue.toJson_iff (form : FormValue document v inContainer fields p) :
    p.toJson = false ↔ p.type.HoldsOnlyPlain := by
  obtain ⟨_, pieces, read⟩ := ofValue_ok form.read
  cases read.followed.symm.trans form.followed
  rw [read.toJson, ← nonNullName_mem_iff]
  simp [needsJson, form.inForm, form.free, or_iff_not_imp_left]

/-- A form value that is not one of several constants is sent as it is exactly if its type has only
one constituent, which is text or binary content. This is right exactly if the type is printed as
that: any other type around one of these two is taken for it. -/
theorem encodesForm_iff (form : FormValue document v inContainer fields p) :
    ∃ s, Schema.parse (schemaAt fields).1 (schemaAt fields).2 = .ok s ∧ s.type = .ok p.type ∧
      (p.toJson = false ↔ p.type.HoldsOnlyPlain) ∧
      (p.EncodesForm s ↔ (p.type.HoldsOnlyPlain → s.PrintsOne)) := by
  obtain ⟨s, parsed, typed⟩ := bind_eq_ok.mp (type_of_ofValue form.followed form.read)
  have plainly := form.toJson_iff
  refine ⟨s, parsed, typed, plainly, ?_⟩
  constructor
  · rintro ⟨sentPlainly, -⟩ ⟨leaf, single, plain⟩
    refine printsOne_of_sentPlainly typed ?_ plain (sentPlainly (plainly.mpr ⟨leaf, single, plain⟩))
    simp [single]
  · intro one
    have text : p.toJson = false → SentPlainly p.type.text :=
      fun sent => (one (plainly.mp sent)).sentPlainly typed (plainly.mp sent)
    refine ⟨text, fun collection => ?_⟩
    by_contra sent
    rw [isCollection_of_sentPlainly typed (text (Bool.eq_false_iff.mpr sent))] at collection
    cases collection

def listValue (type : String) : Fields :=
  [(.text "name", .text "tags"), (.text "in", .text "formData"), (.text "type", .text "array"),
    (.text "items", .object [(.text "type", .text type)])]

/-- The form value that is an array of items of a type is read as `p`, with the schema `s`. -/
def ListRead (type : String) (s : Schema) (p : Parameter) : Prop :=
  FormValue (.object []) (.object (listValue type)) false (listValue type) p ∧
    Schema.parse (schemaAt (listValue type)).1 (schemaAt (listValue type)).2 = .ok s ∧
    s.isCollection = true

/-- Some types of items, with the words that are printed for them. -/
def itemTypes : List (String × String) :=
  [("integer", "number"), ("string", "string"), ("file", "Blob")]

theorem exists_listRead {type word : String} (known : (type, word) ∈ itemTypes) :
    ∃ s p, ListRead type s p ∧ p.type = ⟨"Array<" ++ word ++ ">", some [word]⟩ := by
  simp only [itemTypes, List.mem_cons, Prod.mk.injEq, List.not_mem_nil, or_false] at known
  rcases known with ⟨rfl, rfl⟩ | ⟨rfl, rfl⟩ | ⟨rfl, rfl⟩
  · exact ⟨_, _, ⟨⟨by cbv, by cbv, by cbv, by cbv⟩, by cbv, by cbv⟩, by cbv⟩
  · exact ⟨_, _, ⟨⟨by cbv, by cbv, by cbv, by cbv⟩, by cbv, by cbv⟩, by cbv⟩
  · exact ⟨_, _, ⟨⟨by cbv, by cbv, by cbv, by cbv⟩, by cbv, by cbv⟩, by cbv⟩

/-- An array of numbers is sent as JSON. -/
theorem encodesForm_numbers :
    ∃ s p, ListRead "integer" s p ∧ p.toJson = true ∧ p.EncodesForm s := by
  obtain ⟨s, p, ⟨form, parsed, collection⟩, same⟩ :=
    exists_listRead (by decide : ("integer", "number") ∈ itemTypes)
  obtain ⟨_, again, -, plainly, encodes⟩ := encodesForm_iff form
  cases parsed.symm.trans again
  have other : ¬p.type.HoldsOnlyPlain := by
    rintro ⟨leaf, single, plain⟩
    rw [same] at single
    cases single
    have stripped : stripNull "number" = "number" := by cbv
    rw [SentPlainly, stripped] at plain
    exact absurd plain (by decide)
  refine ⟨s, p, ⟨form, parsed, collection⟩, ?_, encodes.mpr fun only => absurd only other⟩
  rw [← Bool.not_eq_false, plainly]
  exact other

theorem sentPlainly_of_listRead {type word : String} (plain : SentPlainly word)
    (known : (type, word) ∈ itemTypes) : ∃ s p, ListRead type s p ∧ p.toJson = false ∧
      ¬SentPlainly p.type.text ∧ ¬p.EncodesForm s := by
  obtain ⟨s, p, ⟨form, parsed, collection⟩, same⟩ := exists_listRead known
  have sent : p.toJson = false := by
    rw [form.toJson_iff, same]
    exact ⟨word, rfl, plain⟩
  have array : ¬SentPlainly p.type.text := by
    rw [same]
    exact not_sentPlainly_of_unplain (unplain_of_mem (c := '<') (by decide) (by simp))
  exact ⟨s, p, ⟨form, parsed, collection⟩, sent, array, fun encodes => array (encodes.1 sent)⟩

/-- An array of texts, and one of files, is sent as it is, like its items. -/
theorem lists_sentPlainly :
    (∃ s p, ListRead "string" s p ∧ p.toJson = false ∧ ¬SentPlainly p.type.text ∧
      ¬p.EncodesForm s) ∧
    ∃ s p, ListRead "file" s p ∧ p.toJson = false ∧ ¬SentPlainly p.type.text ∧
      ¬p.EncodesForm s :=
  ⟨sentPlainly_of_listRead (.inl (by cbv)) (by decide : ("string", "string") ∈ itemTypes),
    sentPlainly_of_listRead (.inr (by cbv)) (by decide : ("file", "Blob") ∈ itemTypes)⟩

end Parameter

end ClientGen
