import Mathlib
import ClientGen.Dependency
import ClientGen.Proofs.ClassNames
import ClientGen.Proofs.Tables

/-!
# Stripped types

Stripping drops the null marks of a type, then its array marks, then its brackets. What a later
step uncovers is not looked at again: a null mark inside an array, or an array in front of brackets.
Exactly the types that hide such a wrapper change when they are stripped twice, and are looked up
as dependencies under another name than their constituents (`TypeExpr.strip_strip_iff`).
-/
namespace ClientGen

namespace Text

/-- The number of characters in the lower case form of a character. -/
def lowerLength (c : Char) : Nat := if c = 'Σ' then 1 else (lowerChar c).length

theorem lowerLength_pos (c : Char) : 0 < lowerLength c := by
  have expansions : ∀ entry ∈ CaseTable.lowerExpansions, entry.2 ≠ [] := by decide
  unfold lowerLength lowerChar
  split
  · exact Nat.one_pos
  · dsimp only
    split
    · exact Nat.one_pos
    · split
      · rename_i codes found
        have listed := List.lookup_eq_some_iff.mp found
        obtain ⟨before, after, split, -⟩ := listed
        have member : (c.toNat, codes) ∈ CaseTable.lowerExpansions := by
          rw [split]
          exact List.mem_append_right _ List.mem_cons_self
        rw [List.length_map]
        exact List.length_pos_iff.mpr (expansions _ member)
      · exact Nat.one_pos

theorem length_lowerAfter (before s : List Char) :
    (lowerAfter before s).length = (s.map lowerLength).sum := by
  induction s generalizing before with
  | nil => rfl
  | cons c rest ih =>
    rw [lowerAfter, List.length_append, ih, List.map_cons, List.sum_cons, lowerLength]
    split <;> rfl

/-- Fewer characters have a shorter lower case form. -/
theorem lowerLength_of_sublist {s t : List Char} (part : s.Sublist t) :
    (s.map lowerLength).sum ≤ (t.map lowerLength).sum ∧
      ((s.map lowerLength).sum = (t.map lowerLength).sum → s = t) := by
  induction part with
  | slnil => exact ⟨le_rfl, fun _ => rfl⟩
  | @cons xs ys c inside ih =>
    have more := lowerLength_pos c
    rw [List.map_cons, List.sum_cons]
    exact ⟨by omega, fun same => by omega⟩
  | @cons_cons xs ys c inside ih =>
    rw [List.map_cons, List.sum_cons, List.map_cons, List.sum_cons]
    exact ⟨Nat.add_le_add_left ih.1 _, fun same => by rw [ih.2 (Nat.add_left_cancel same)]⟩

/-- A text that is part of another one has a lower case form of its own, unless it is all of it. -/
theorem lower_eq_iff_of_sublist {s t : String} (part : s.toList.Sublist t.toList) :
    lower s = lower t ↔ s = t := by
  refine ⟨fun same => ?_, congrArg lower⟩
  have lengths := congrArg (fun lowered : String => lowered.toList.length) same
  simp only [lower, lowerChars, String.toList_ofList, length_lowerAfter] at lengths
  exact String.toList_inj.mp ((lowerLength_of_sublist part).2 lengths)

end Text

namespace TypeExpr

def IsNullMarked (s : List Char) : Prop :=
  "null|".toList <+: s ∨ "undefined|".toList <+: s

def IsArray (s : List Char) : Prop := "Array<".toList <+: s ∧ s.getLast? = some '>'

def IsBracketedArray (s : List Char) : Prop :=
  "Array<".toList <+: s ∧ ∃ front rest, s = front ++ '>' :: '[' :: rest ∧ '[' ∉ front

/-- Behind the null marks and inside the array marks of the type there is one more null mark, or an
array with brackets. -/
def HidesWrapper (text : String) : Prop :=
  let inner := dropArrayMarks (withoutNull text.toList)
  IsNullMarked inner ∨ IsBracketedArray inner

variable {s : List Char} {text : String}

theorem dropNullMarks_of_not (unmarked : ¬IsNullMarked s) : dropNullMarks s = s := by
  rw [IsNullMarked, not_or] at unmarked
  rw [dropNullMarks, if_neg unmarked.1, if_neg unmarked.2]

theorem not_isNullMarked_dropNullMarks : ¬IsNullMarked (dropNullMarks s) := by
  induction s using dropNullMarks.induct with
  | case1 s marked ih => rwa [dropNullMarks, if_pos marked]
  | case2 s other marked ih => rwa [dropNullMarks, if_neg other, if_pos marked]
  | case3 s other more =>
    have unmarked : ¬IsNullMarked s := not_or.mpr ⟨other, more⟩
    rwa [dropNullMarks_of_not unmarked]

theorem dropNullMarks_suffix : dropNullMarks s <:+ s := by
  induction s using dropNullMarks.induct with
  | case1 s marked ih =>
    rw [dropNullMarks, if_pos marked]
    exact ih.trans (List.drop_suffix 5 s)
  | case2 s other marked ih =>
    rw [dropNullMarks, if_neg other, if_pos marked]
    exact ih.trans (List.drop_suffix 10 s)
  | case3 s other more =>
    exact (dropNullMarks_of_not (not_or.mpr ⟨other, more⟩)).symm ▸ List.suffix_rfl

theorem dropArrayMarks_of_not (bare : ¬IsArray s) : dropArrayMarks s = s := by
  rw [dropArrayMarks]
  exact if_neg bare

theorem not_isArray_dropArrayMarks : ¬IsArray (dropArrayMarks s) := by
  induction s using dropArrayMarks.induct with
  | case1 s array ih => rwa [dropArrayMarks, if_pos array]
  | case2 s bare => rwa [dropArrayMarks, if_neg bare]

theorem dropArrayMarks_sublist : (dropArrayMarks s).Sublist s := by
  induction s using dropArrayMarks.induct with
  | case1 s array ih =>
    rw [dropArrayMarks, if_pos array]
    exact ih.trans ((List.dropLast_sublist _).trans (List.drop_sublist 6 s))
  | case2 s bare => exact (dropArrayMarks_of_not bare).symm ▸ List.Sublist.refl s

/-- A type without brackets, or with the first one at its start, keeps all characters; else those
before the first bracket are kept. -/
theorem dropBrackets_cases (s : List Char) : dropBrackets s = s ∨
    ∃ rest, s = dropBrackets s ++ '[' :: rest ∧ '[' ∉ dropBrackets s := by
  unfold dropBrackets
  dsimp only
  split
  · exact .inl rfl
  · cases behind : s.dropWhile (· != '[') with
    | nil =>
      left
      have whole := List.takeWhile_append_dropWhile (p := (· != '[')) (l := s)
      rwa [behind, List.append_nil] at whole
    | cons c rest =>
      right
      have bracket : c = '[' := by
        have stops := List.head?_dropWhile_not (· != '[') s
        rw [behind] at stops
        simpa using stops
      subst bracket
      refine ⟨rest, ?_, ?_⟩
      · rw [← behind, List.takeWhile_append_dropWhile]
      · intro inside
        have kept := List.mem_takeWhile_imp inside
        simp at kept

theorem dropBrackets_prefix : dropBrackets s <+: s := by
  rcases dropBrackets_cases s with whole | ⟨rest, split, -⟩
  · exact whole.symm ▸ List.prefix_rfl
  · exact ⟨_, split.symm⟩

/-- A mark without brackets is cut off by none. -/
theorem prefix_dropBrackets_iff {mark : List Char} (bare : '[' ∉ mark) :
    mark <+: dropBrackets s ↔ mark <+: s := by
  refine ⟨fun starts => starts.trans dropBrackets_prefix, fun starts => ?_⟩
  rcases dropBrackets_cases s with whole | ⟨rest, split, -⟩
  · rwa [whole]
  · have cut : dropBrackets s ++ ['['] <+: s := ⟨rest, by rw [List.append_assoc]; exact split.symm⟩
    rcases Nat.lt_or_ge (dropBrackets s).length mark.length with longer | short
    · have inside := List.prefix_of_prefix_length_le cut starts
        (by rw [List.length_append]; exact longer)
      exact absurd (inside.subset (by simp)) bare
    · exact List.prefix_of_prefix_length_le starts dropBrackets_prefix short

/-- What stands before the first bracket is kept. -/
theorem dropBrackets_append {front rest : List Char} (present : front ≠ []) (bare : '[' ∉ front) :
    dropBrackets (front ++ '[' :: rest) = front := by
  have kept : (front ++ '[' :: rest).takeWhile (· != '[') = front := by
    rw [List.takeWhile_append_of_pos, List.takeWhile_cons_of_neg (by decide), List.append_nil]
    intro c member
    rw [bne_iff_ne]
    rintro rfl
    exact bare member
  unfold dropBrackets
  dsimp only
  rw [kept, if_neg]
  simpa using present

theorem dropBrackets_dropBrackets : dropBrackets (dropBrackets s) = dropBrackets s := by
  rcases dropBrackets_cases s with whole | ⟨rest, -, bare⟩
  · rw [whole, whole]
  · exact dropBrackets_of_absent bare

/-- What is left before the first bracket has the null marks of the whole. -/
theorem isNullMarked_dropBrackets_iff : IsNullMarked (dropBrackets s) ↔ IsNullMarked s := by
  rw [IsNullMarked, IsNullMarked, prefix_dropBrackets_iff (by decide),
    prefix_dropBrackets_iff (by decide)]

/-- An array is left before the first bracket exactly if brackets follow one. -/
theorem isArray_dropBrackets_iff (bare : ¬IsArray s) :
    IsArray (dropBrackets s) ↔ IsBracketedArray s := by
  rw [IsArray, IsBracketedArray, prefix_dropBrackets_iff (by decide)]
  refine and_congr_right fun starts => ⟨fun ends => ?_, ?_⟩
  · rcases dropBrackets_cases s with whole | ⟨rest, split, absent⟩
    · rw [whole] at ends
      exact absurd ⟨starts, ends⟩ bare
    · obtain ⟨front, same⟩ := List.getLast?_eq_some_iff.mp ends
      rw [same] at split absent
      refine ⟨front, rest, ?_, fun inside => absent (List.mem_append_left _ inside)⟩
      rw [split, List.append_assoc]
      rfl
  · rintro ⟨front, rest, rfl, absent⟩
    have kept : dropBrackets ((front ++ ['>']) ++ '[' :: rest) = front ++ ['>'] :=
      dropBrackets_append (by simp) (by simp [absent])
    rw [List.append_assoc] at kept
    exact (congrArg List.getLast? kept).trans List.getLast?_concat

theorem withoutWrappers_sublist : (withoutWrappers s).Sublist (withoutNull s) :=
  dropBrackets_prefix.sublist.trans dropArrayMarks_sublist

theorem withoutNull_sublist : (withoutNull s).Sublist (s.filter (· != ' ')) :=
  dropNullMarks_suffix.sublist

theorem space_not_mem_withoutWrappers : ' ' ∉ withoutWrappers s := by
  intro member
  have kept := withoutNull_sublist.subset (withoutWrappers_sublist.subset member)
  simp at kept

/-- Stripping changes nothing in a type without blanks exactly if no step does. -/
theorem withoutWrappers_eq_self_iff (solid : ' ' ∉ s) (cut : dropBrackets s = s) :
    withoutWrappers s = s ↔ ¬IsNullMarked s ∧ ¬IsArray s := by
  rw [withoutWrappers, withoutNull_of_absent solid]
  constructor
  · intro same
    have whole : dropNullMarks s = s := by
      refine dropNullMarks_suffix.eq_of_length_le ?_
      calc s.length = (dropBrackets (dropArrayMarks (dropNullMarks s))).length := by rw [same]
        _ ≤ (dropArrayMarks (dropNullMarks s)).length := dropBrackets_prefix.length_le
        _ ≤ (dropNullMarks s).length := dropArrayMarks_sublist.length_le
    rw [whole] at same
    have bare : dropArrayMarks s = s := by
      refine dropArrayMarks_sublist.eq_of_length_le ?_
      calc s.length = (dropBrackets (dropArrayMarks s)).length := by rw [same]
        _ ≤ (dropArrayMarks s).length := dropBrackets_prefix.length_le
    exact ⟨whole ▸ not_isNullMarked_dropNullMarks, bare ▸ not_isArray_dropArrayMarks⟩
  · rintro ⟨unmarked, bare⟩
    rw [dropNullMarks_of_not unmarked, dropArrayMarks_of_not bare, cut]

/-- Stripping twice is stripping once exactly if the type hides no wrapper. -/
theorem strip_strip_eq_iff : strip (strip text) = strip text ↔ ¬HidesWrapper text := by
  have cut : dropBrackets (withoutWrappers text.toList) = withoutWrappers text.toList :=
    dropBrackets_dropBrackets
  rw [strip, strip, String.toList_ofList, String.ofList_inj,
    withoutWrappers_eq_self_iff space_not_mem_withoutWrappers cut, withoutWrappers,
    isNullMarked_dropBrackets_iff, isArray_dropBrackets_iff not_isArray_dropArrayMarks,
    HidesWrapper, not_or]

/-- A type that is stripped twice leads to the model that it leads to when it is stripped once,
exactly if it hides no wrapper. -/
theorem keyOf_strip_eq_iff :
    Dependencies.keyOf (strip text) = Dependencies.keyOf text ↔ ¬HidesWrapper text := by
  have part : (strip (strip text)).toList.Sublist (strip text).toList := by
    rw [strip, String.toList_ofList]
    exact withoutWrappers_sublist.trans (withoutNull_sublist.trans List.filter_sublist)
  rw [Dependencies.keyOf, Dependencies.keyOf, Naming.key, Naming.key,
    Text.lower_eq_iff_of_sublist part, strip_strip_eq_iff]

section Collecting

variable {models : Table Model} {owner : Option String} {d : Dependencies}

theorem addType_scalar :
    d.addType models owner (scalar text) =
      d.addKey models owner (Dependencies.keyOf (strip text)) := rfl

/-- A constituent is handed on as it stands. -/
theorem addType_constituent (whole : String) :
    d.addType models owner (compound whole [scalar text]) =
      d.addKey models owner (Dependencies.keyOf text) := rfl

def tableOf (key className : String) : Table Model :=
  Table.empty.insert key { name := className, className }

/-- A key is told by what it leads to in the tables of one model. -/
theorem eq_of_addKey {key other : String}
    (same : ∀ models : Table Model, ({} : Dependencies).addKey models none key =
      ({} : Dependencies).addKey models none other) : key = other := by
  have found : ∀ k, (tableOf other other).get? k =
      if k = other then some { name := other, className := other } else none :=
    fun k => Table.get?_insert _ _ _ _
  have classes := congrArg Dependencies.classes (same (tableOf other other))
  by_contra apart
  simp [Dependencies.addKey, Dependencies.addClass, found, apart] at classes

end Collecting

/-- A type that is stripped twice stays as it is when stripped once, and leads as a scalar to the
models that it leads to as a constituent, exactly if it hides no wrapper. -/
theorem strip_strip_iff (text : String) :
    (strip (strip text) = strip text ↔ ¬HidesWrapper text) ∧
      (Dependencies.keyOf (strip text) = Dependencies.keyOf text ↔ ¬HidesWrapper text) ∧
      ((∀ models owner (d : Dependencies) whole, d.addType models owner (scalar text) =
        d.addType models owner (compound whole [scalar text])) ↔ ¬HidesWrapper text) := by
  refine ⟨strip_strip_eq_iff, keyOf_strip_eq_iff, ?_⟩
  rw [← keyOf_strip_eq_iff]
  constructor
  · intro alike
    exact eq_of_addKey fun models => alike models none {} ""
  · intro same models owner d whole
    rw [addType_scalar, same, addType_constituent]

/-- An array of what may be null loses its null mark only when it is stripped again, and so do
brackets behind an array: as a scalar the type leads to the model, as a constituent it does not. -/
theorem strip_uncovers_null :
    strip "Array<null | Pet>" = "null|Pet" ∧ strip "null|Pet" = "Pet" ∧
      strip "Array<Pet>[]" = "Array<Pet>" ∧ strip "Array<Pet>" = "Pet" ∧
      (({} : Dependencies).addType (tableOf "pet" "Pet") none
        (scalar "Array<null | Pet>")).classes = ["Pet"] ∧
      (({} : Dependencies).addType (tableOf "pet" "Pet") none
        (compound "Array<Array<null | Pet>>" [scalar "Array<null | Pet>"])).classes = [] ∧
      ¬∀ text, strip (strip text) = strip text := by
  have null : strip "Array<null | Pet>" = "null|Pet" := by cbv
  have pet : strip "null|Pet" = "Pet" := by cbv
  refine ⟨null, pet, by cbv, by cbv, by cbv, by cbv, ?_⟩
  intro settled
  have again := settled "Array<null | Pet>"
  rw [null, pet] at again
  exact absurd again (by decide)

end TypeExpr

end ClientGen
