import ClientGen.Proofs.ClassIdentifiers
import ClientGen.Proofs.ConstantNames
import ClientGen.Proofs.ParameterIdentifiers

/-!
# The names of constants are identifiers

The upper case form of a character may have several characters, and most of them are no ASCII
characters. Whatever it is, it has no small ASCII letter, and no ASCII digit but that of the
character itself (`Naming.of_mem_upperChar`). So what is left of the text of a value has capitals,
digits and underscores only, and a digit comes first only if it does in the text, where it is
guarded by an underscore. The names of constants are identifiers of this form, and all of them are
names of constants (`Naming.constantName_identifiers`).
-/
namespace ClientGen

namespace Text

/-- The code point of a capital letter, or one beyond ASCII. -/
def IsUpperCode (code : Nat) : Prop := 65 ≤ code ∧ code ≤ 90 ∨ 128 ≤ code

instance : DecidablePred IsUpperCode := fun _ => inferInstanceAs (Decidable (_ ∨ _))

/-- A shift to upper case leads from beyond ASCII to a capital letter, or stays beyond ASCII. -/
theorem isUpperCode_shifted {code : Nat} (beyond : 128 ≤ code) :
    IsUpperCode (shifted CaseTable.upperShifts code) := by
  have table : ∀ s ∈ CaseTable.upperShifts, 65 ≤ s.first + s.offset ∧ s.last + s.offset ≤ 90 ∨
      128 ≤ s.first + s.offset := by decide +kernel
  rw [shifted]
  cases found : CaseTable.upperShifts.find? (·.applies code) with
  | none => exact .inr beyond
  | some s =>
    have image := table s (List.mem_of_find?_eq_some found)
    have within := List.find?_some found
    simp only [Shift.applies, Bool.and_eq_true, decide_eq_true_eq] at within
    dsimp only [IsUpperCode]
    omega

theorem isUpperCode_expansion {code : Nat} {codes : List Nat}
    (found : CaseTable.upperExpansions.lookup code = some codes) :
    codes ≠ [] ∧ ∀ image ∈ codes, IsUpperCode image := by
  have table : ∀ entry ∈ CaseTable.upperExpansions,
      entry.2 ≠ [] ∧ ∀ image ∈ entry.2, IsUpperCode image := by decide +kernel
  obtain ⟨front, back, entries, -⟩ := List.lookup_eq_some_iff.mp found
  exact table (code, codes) (by simp [entries])

/-- The upper case form of a character is that of ASCII, or is made of capital letters and of
characters beyond ASCII. -/
theorem upperChar_cases (c : Char) :
    upperChar c = [if 97 ≤ c.toNat ∧ c.toNat ≤ 122 then Char.ofNat (c.toNat - 32) else c] ∨
      ∃ codes, codes ≠ [] ∧ (∀ code ∈ codes, IsUpperCode code) ∧
        upperChar c = codes.map Char.ofNat := by
  by_cases ascii : c.toNat < 128
  · left
    simp only [upperChar, if_pos ascii, Bool.and_eq_true, decide_eq_true_eq]
  · right
    cases found : CaseTable.upperExpansions.lookup c.toNat with
    | some codes =>
      obtain ⟨present, images⟩ := isUpperCode_expansion found
      exact ⟨codes, present, images, by simp only [upperChar, if_neg ascii, found]⟩
    | none =>
      refine ⟨[shifted CaseTable.upperShifts c.toNat], List.cons_ne_nil _ _, ?_, ?_⟩
      · rw [List.forall_mem_singleton]
        exact isUpperCode_shifted (Nat.le_of_not_lt ascii)
      · simp only [upperChar, if_neg ascii, found, List.map_cons, List.map_nil]

theorem upperChar_ne_nil (c : Char) : upperChar c ≠ [] := by
  rcases upperChar_cases c with upper | ⟨codes, present, -, upper⟩
  · rw [upper]
    exact List.cons_ne_nil _ _
  · rw [upper, Ne, List.map_eq_nil_iff]
    exact present

end Text

namespace Naming

/-- An identifier without small letters, in which no two underscores stand side by side. -/
structure IsConstantName (name : String) : Prop extends IsAsciiIdentifier name where
  noSmall : ∀ c ∈ name.toList, c.isLower = false
  apart : ¬['_', '_'] <:+: name.toList

variable {c d : Char} {s : List Char} {name : String}

/-- The letters of an upper case form are capitals, and a digit is the character itself. -/
theorem of_mem_upperChar (alnum : isAlnum d = true) (member : d ∈ Text.upperChar c) :
    d.isLower = false ∧ (d.isDigit = true → d = c) := by
  rw [isAlnum_iff] at alnum
  rw [Bool.eq_false_iff, Ne, isLower_iff, isDigit_iff]
  rcases Text.upperChar_cases c with upper | ⟨codes, -, images, upper⟩
  · rw [upper, List.mem_singleton] at member
    split at member
    · rename_i small
      rw [member, toNat_ofNat_of_lt (by omega)]
      omega
    · rename_i notSmall
      exact ⟨member ▸ notSmall, fun _ => member⟩
  · rw [upper, List.mem_map] at member
    obtain ⟨code, image, rfl⟩ := member
    have range : 65 ≤ code ∧ code ≤ 90 ∨ 128 ≤ code := images code image
    rw [Char.toNat_ofNat] at alnum ⊢
    by_cases valid : code.isValidChar
    · rw [if_pos valid] at alnum ⊢
      omega
    · rw [if_neg valid] at alnum
      omega

/-- A character leaves word characters in a name, which are no small letters, and a digit only if it
is one. -/
theorem of_mem_traces (member : d ∈ traces c) :
    isWord d = true ∧ d.isLower = false ∧ (d.isDigit = true → d = c) := by
  obtain ⟨image, among, rfl⟩ := List.mem_map.mp member
  by_cases alnum : isAlnum image = true
  · rw [if_pos alnum]
    exact ⟨isWord_of_isAlnum alnum, of_mem_upperChar alnum among⟩
  · rw [if_neg alnum]
    exact ⟨rfl, rfl, fun digit => by cases digit⟩

theorem traces_ne_nil (c : Char) : traces c ≠ [] := by
  rw [traces, Ne, List.map_eq_nil_iff]
  exact Text.upperChar_ne_nil c

theorem of_mem_outlineFrom (member : d ∈ outlineFrom s) : isWord d = true ∧ d.isLower = false := by
  have traced {c : Char} (among : d ∈ traces c) : isWord d = true ∧ d.isLower = false :=
    ⟨(of_mem_traces among).1, (of_mem_traces among).2.1⟩
  fun_induction outlineFrom s with
  | case1 => cases member
  | case2 c => exact traced member
  | case3 c next rest ih =>
    rcases List.mem_append.mp member with front | back
    · rcases List.mem_append.mp front with own | gap
      · exact traced own
      · split at gap
        · rw [List.mem_singleton.mp gap]
          exact ⟨rfl, rfl⟩
        · cases gap
    · exact ih back

/-- Word characters that are no small letters make up an outline. -/
theorem of_mem_outline (member : d ∈ outline s) : isWord d = true ∧ d.isLower = false := by
  unfold outline at member
  split at member
  · rcases List.mem_cons.mp member with rfl | back
    · exact ⟨rfl, rfl⟩
    · exact of_mem_outlineFrom back
  · exact of_mem_outlineFrom member

theorem head?_outlineFrom (c : Char) (s : List Char) :
    (outlineFrom (c :: s)).head? = (traces c).head? := by
  cases s with
  | nil => rfl
  | cons next rest =>
    rw [outlineFrom, List.append_assoc]
    exact List.head?_append_of_ne_nil _ (traces_ne_nil c)

/-- An outline is not empty and starts with no digit. -/
theorem exists_head_outline (s : List Char) :
    ∃ d, (outline s).head? = some d ∧ d.isDigit = false := by
  unfold outline
  split
  · exact ⟨'_', rfl, rfl⟩
  · rename_i unguarded
    cases s with
    | nil => exact absurd rfl unguarded
    | cons c rest =>
      obtain ⟨d, more, left⟩ := List.exists_cons_of_ne_nil (traces_ne_nil c)
      refine ⟨d, by rw [head?_outlineFrom, left, List.head?_cons], ?_⟩
      rw [Bool.eq_false_iff]
      intro digit
      -- The first trace of a character is a digit only if the character is, and then it is guarded.
      obtain rfl := (of_mem_traces (c := c) (d := d) (by simp [left])).2.2 digit
      simp [needsUnderscore, Text.isDigit_of_ascii digit] at unguarded

theorem mergeUnderscores_subset (s : List Char) : mergeUnderscores s ⊆ s := by
  fun_induction mergeUnderscores s with
  | case1 rest ih => exact List.subset_cons_of_subset _ ih
  | case2 c rest _ ih => exact List.cons_subset_cons c ih
  | case3 => exact List.Subset.refl []

theorem not_infix_mergeUnderscores (s : List Char) : ¬['_', '_'] <:+: mergeUnderscores s := by
  fun_induction mergeUnderscores s with
  | case1 rest ih => exact ih
  | case2 c rest notBoth ih =>
    rw [List.infix_cons_iff, not_or]
    refine ⟨fun starts => ?_, ih⟩
    -- An underscore behind `c` would be the first character of `rest`.
    obtain ⟨gap, back, cut⟩ := List.cons_prefix_cons.mp starts
    have second : rest.head? = some '_' := by
      rw [← head?_mergeUnderscores rest, ← cut]
      rfl
    obtain ⟨more, rfl⟩ := List.head?_eq_some_iff.mp second
    exact notBoth more gap.symm rfl
  | case3 => simp

/-- Underscores that stand alone are left as they are. -/
theorem mergeUnderscores_of_apart (apart : ¬['_', '_'] <:+: s) : mergeUnderscores s = s := by
  fun_induction mergeUnderscores s with
  | case1 rest ih => exact absurd (List.prefix_append ['_', '_'] rest).isInfix apart
  | case2 c rest _ ih => rw [ih fun within => apart (List.infix_cons within)]
  | case3 => rfl

/-- The name of a constant depends on the text of the value alone. -/
theorem toList_constantName_display (v : Value) :
    (constantName v).toList = mergeUnderscores (outline v.display.toList) :=
  toList_constantName v.display

theorem isConstantName_constantName (v : Value) : IsConstantName (constantName v) := by
  have written := toList_constantName_display v
  obtain ⟨first, head, noDigit⟩ := exists_head_outline v.display.toList
  rw [← head?_mergeUnderscores, ← written] at head
  have chars : ∀ c ∈ (constantName v).toList, isWord c = true ∧ c.isLower = false := by
    intro c member
    rw [written] at member
    exact of_mem_outline (mergeUnderscores_subset _ member)
  refine ⟨⟨?_, fun c member => (chars c member).1, ?_⟩, fun c member => (chars c member).2, ?_⟩
  · intro empty
    rw [empty] at head
    cases head
  · intro c start
    rw [head] at start
    cases start
    exact noDigit
  · rw [written]
    exact not_infix_mergeUnderscores _

theorem traces_of_word (word : isWord c = true) (big : c.isLower = false) : traces c = [c] := by
  rw [← map_upperChar, (upperChar_eq_self_iff word).mpr big, List.map_singleton, if_pos word]

theorem outlineFrom_of_words (words : ∀ c ∈ s, isWord c = true) (big : ∀ c ∈ s, c.isLower = false) :
    outlineFrom s = s := by
  have small (c : Char) : isSmall c = c.isLower := rfl
  fun_induction outlineFrom s with
  | case1 => rfl
  | case2 c => exact traces_of_word (words c (by simp)) (big c (by simp))
  | case3 c next rest ih =>
    obtain ⟨word, words⟩ := List.forall_mem_cons.mp words
    obtain ⟨first, big⟩ := List.forall_mem_cons.mp big
    rw [traces_of_word word first, ih words big, small, first]
    rfl

/-- No underscore is put before a name of this form. -/
theorem needsUnderscore_of_isConstantName (constant : IsConstantName name) :
    needsUnderscore name.toList = false := by
  obtain ⟨c, rest, chars, word, noDigit⟩ := constant.exists_cons
  have range := (isWord_iff c).mp word
  have noBlank : Text.isBlank c = false := by
    simp only [Text.isBlank, Bool.or_eq_false_iff, Bool.and_eq_false_iff, decide_eq_false_iff_not,
      beq_eq_false_iff_ne]
    omega
  rw [chars, needsUnderscore, Text.isDigit_eq_of_lt (by omega), noDigit, noBlank,
    Bool.or_self]

theorem constantName_of_isConstantName (constant : IsConstantName name) :
    constantName (.text name) = name := by
  rw [← String.toList_inj, toList_constantName, outline, needsUnderscore_of_isConstantName constant,
    if_neg Bool.false_ne_true, outlineFrom_of_words constant.words constant.noSmall,
    mergeUnderscores_of_apart constant.apart]

end Naming

end ClientGen
