import Mathlib.Data.List.TakeWhile
import ClientGen.Model.Build

/-!
# Class names inside types

A class name is made of word characters, none of which takes part in the wrappers of a type.
Stripping a type text therefore gives back a class name that stands there alone or behind null
marks, and the reference to a definition is read as the class name of the definition.
-/
namespace ClientGen.Naming

/-- The word characters by code point. -/
theorem isWord_iff (c : Char) : isWord c = true ↔
    (97 ≤ c.toNat ∧ c.toNat ≤ 122) ∨ (65 ≤ c.toNat ∧ c.toNat ≤ 90) ∨
      (48 ≤ c.toNat ∧ c.toNat ≤ 57) ∨ c.toNat = 95 := by
  have underscore : c = '_' ↔ c.toNat = 95 := by
    constructor
    · rintro rfl
      rfl
    · intro code
      exact Char.toNat_inj.mp code
  simp only [isWord, isAlnum, Bool.or_eq_true, Bool.and_eq_true, decide_eq_true_eq, beq_iff_eq,
    underscore, Char.le_def, UInt32.le_iff_toNat_le]
  exact or_assoc.trans (or_assoc.trans Iff.rfl)

theorem toNat_ofNat_of_lt {n : Nat} (ascii : n < 128) : (Char.ofNat n).toNat = n := by
  have valid : n.isValidChar := Or.inl (by omega)
  rw [Char.ofNat, dif_pos valid]
  rfl

/-- A small letter is put into upper case, and every other word character stays. -/
theorem upperChar_of_isWord {c : Char} (word : isWord c = true) :
    Text.upperChar c =
      [if 97 ≤ c.toNat ∧ c.toNat ≤ 122 then Char.ofNat (c.toNat - 32) else c] := by
  have range := (isWord_iff c).mp word
  have ascii : c.toNat < 0x80 := by omega
  simp [Text.upperChar, ascii]

/-- The upper case form of a word character is a word character. -/
theorem isWord_upperChar {c d : Char} (word : isWord c = true) (member : d ∈ Text.upperChar c) :
    isWord d = true := by
  rw [upperChar_of_isWord word, List.mem_singleton] at member
  subst d
  split
  · rw [isWord_iff, toNat_ofNat_of_lt (by omega)]
    omega
  · exact word

/-- Keeping some characters of a text leaves nothing else, if they have upper case forms that are
kept as well. -/
theorem keep_of_mem_camelCase {keep : Char → Bool}
    (upper : ∀ c d, keep c = true → d ∈ Text.upperChar c → keep d = true) {gap : Bool}
    {s : List Char} {c : Char} (member : c ∈ camelCase keep gap (s.map fun c => [c])) :
    keep c = true := by
  induction s generalizing gap with
  | nil => simp [camelCase] at member
  | cons d rest ih =>
    simp only [List.map_cons, camelCase] at member
    by_cases kept : startsWith keep [d] = true
    · rw [if_pos kept] at member
      rcases List.mem_append.mp member with first | later
      · split at first
        · simp only [Text.upperChars, List.flatMap_cons, List.flatMap_nil,
            List.append_nil] at first
          exact upper d c kept first
        · rw [List.mem_singleton] at first
          exact first ▸ kept
      · exact ih later
    · rw [if_neg kept] at member
      exact ih member

/-- Behind no gap, a text of characters to keep is left as it is. -/
theorem camelCase_of_kept {keep : Char → Bool} {s : List Char} (kept : ∀ c ∈ s, keep c = true) :
    camelCase keep false (s.map fun c => [c]) = s := by
  induction s with
  | nil => rfl
  | cons c rest ih =>
    obtain ⟨first, others⟩ := List.forall_mem_cons.mp kept
    have starts : startsWith keep [c] = true := first
    rw [List.map_cons, camelCase, if_pos starts, ih others, if_neg Bool.false_ne_true,
      List.singleton_append]

/-- Keeping the word characters of a text leaves nothing else. -/
theorem isWord_of_mem_camelCase {gap : Bool} {s : List Char} {c : Char}
    (member : c ∈ camelCase isWord gap (s.map fun c => [c])) : isWord c = true :=
  keep_of_mem_camelCase (fun _ _ => isWord_upperChar) member

/-- A class name is made of word characters. -/
theorem isWord_of_mem_className {name : String} {c : Char}
    (member : c ∈ (className name).toList) : isWord c = true := by
  simp only [className, classNameOf, String.toList_ofList, escapeDigit] at member
  split at member
  · rcases List.mem_cons.mp member with rfl | later
    · decide
    · exact isWord_of_mem_camelCase later
  · exact isWord_of_mem_camelCase member

end ClientGen.Naming

namespace ClientGen.TypeExpr

theorem dropNullMarks_of_absent {s : List Char} (absent : '|' ∉ s) : dropNullMarks s = s := by
  have unmarked : ∀ mark : List Char, '|' ∈ mark → ¬mark <+: s :=
    fun mark held starts => absent (starts.subset held)
  unfold dropNullMarks
  rw [if_neg (unmarked _ (by decide)), if_neg (unmarked _ (by decide))]

theorem dropArrayMarks_of_absent {s : List Char} (absent : '<' ∉ s) : dropArrayMarks s = s := by
  unfold dropArrayMarks
  rw [if_neg]
  rintro ⟨starts, -⟩
  exact absent (starts.subset (by decide))

theorem dropBrackets_of_absent {s : List Char} (absent : '[' ∉ s) : dropBrackets s = s := by
  have whole : s.takeWhile (· != '[') = s := by
    rw [List.takeWhile_eq_self_iff]
    intro c member
    rw [bne_iff_ne]
    rintro rfl
    exact absent member
  unfold dropBrackets
  rw [whole]
  simp

theorem withoutNull_of_absent {s : List Char} (absent : ' ' ∉ s) :
    withoutNull s = dropNullMarks s := by
  have unspaced : s.filter (· != ' ') = s := by
    rw [List.filter_eq_self]
    intro c member
    rw [bne_iff_ne]
    rintro rfl
    exact absent member
  rw [withoutNull, unspaced]

/-- Stripping changes nothing in a text of word characters. -/
theorem strip_of_isWord {s : String} (words : ∀ c ∈ s.toList, Naming.isWord c = true) :
    strip s = s := by
  have absent : ∀ c, Naming.isWord c = false → c ∉ s.toList := by
    intro c other member
    rw [words c member] at other
    cases other
  unfold strip withoutWrappers
  rw [withoutNull_of_absent (absent ' ' (by decide)),
    dropNullMarks_of_absent (absent '|' (by decide)),
    dropArrayMarks_of_absent (absent '<' (by decide)),
    dropBrackets_of_absent (absent '[' (by decide)), String.ofList_toList]

theorem withoutNull_null_mark (text : String) :
    withoutNull ("null | " ++ text).toList = withoutNull text.toList := by
  have marked : dropNullMarks ("null|".toList ++ text.toList.filter (· != ' ')) =
      dropNullMarks (text.toList.filter (· != ' ')) := by
    rw [dropNullMarks]
    simp
  have spaced : ("null | " ++ text).toList.filter (· != ' ') =
      "null|".toList ++ text.toList.filter (· != ' ') := by
    simp
  rw [withoutNull, spaced, marked, withoutNull]

/-- Stripping drops a null mark at the start. -/
theorem strip_null_mark (text : String) : strip ("null | " ++ text) = strip text := by
  rw [strip, withoutWrappers, withoutNull_null_mark, strip, withoutWrappers]

end ClientGen.TypeExpr

namespace ClientGen.Text

/-- Replacing one character goes through the text character by character. -/
theorem toList_replaceAll_singleton (old : Char) (new text : String) :
    (replaceAll (String.singleton old) new text).toList =
      text.toList.flatMap fun c => if c = old then new.toList else [c] := by
  rw [replaceAll, String.toList_ofList, String.toList_singleton]
  induction text.toList with
  | nil => rfl
  | cons c rest ih =>
    rw [replaceFrom, List.flatMap_cons, List.length_singleton, ih]
    by_cases found : c = old
    · simp [found]
    · simp [found, Ne.symm found]

theorem splitOn_of_absent {sep : Char} {s : List Char} (absent : sep ∉ s) :
    splitOn sep s = [s] := by
  induction s with
  | nil => rfl
  | cons c rest ih =>
    rw [List.mem_cons, not_or] at absent
    simp [splitOn, Ne.symm absent.1, ih absent.2]

/-- A separator parts the pieces before it from those behind it. -/
theorem splitOn_append_cons (sep : Char) (front s : List Char) :
    splitOn sep (front ++ sep :: s) = splitOn sep front ++ splitOn sep s := by
  induction front with
  | nil => simp [splitOn]
  | cons c rest ih =>
    by_cases found : c = sep
    · simp [splitOn, found, ih]
    · cases pieces : splitOn sep rest with
      | nil => exact absurd pieces (splitOn_ne_nil sep rest)
      | cons piece others => simp [splitOn, found, ih, pieces]

/-- Pieces without the separator are found again where they were joined. -/
theorem splitOn_intercalate {sep : Char} {pieces : List (List Char)} (present : pieces ≠ [])
    (absent : ∀ piece ∈ pieces, sep ∉ piece) : splitOn sep ([sep].intercalate pieces) = pieces := by
  induction pieces with
  | nil => exact absurd rfl present
  | cons piece rest ih =>
    obtain ⟨first, others⟩ := List.forall_mem_cons.mp absent
    cases rest with
    | nil => rw [List.intercalate_singleton, splitOn_of_absent first]
    | cons next more =>
      rw [List.intercalate_cons_cons, List.append_assoc, List.singleton_append, splitOn_append_cons,
        splitOn_of_absent first, ih (by simp) others, List.singleton_append]

/-- What is appended without a separator belongs to the last piece. -/
theorem splitOn_append_of_absent {sep : Char} {ending : List Char} (absent : sep ∉ ending)
    (s : List Char) :
    ∃ pieces back, splitOn sep (s ++ ending) = pieces ++ [back ++ ending] := by
  induction s with
  | nil => exact ⟨[], [], splitOn_of_absent absent⟩
  | cons c rest ih =>
    obtain ⟨pieces, back, split⟩ := ih
    by_cases found : c = sep
    · exact ⟨[] :: pieces, back, by simp [splitOn, found, split]⟩
    · cases pieces with
      | nil => exact ⟨[], c :: back, by simp [splitOn, found, split]⟩
      | cons piece others => exact ⟨(c :: piece) :: others, back, by simp [splitOn, found, split]⟩

/-- Without a separator the whole text stands after the last one. -/
theorem afterLast_of_absent {sep : Char} {s : List Char} (absent : sep ∉ s) :
    afterLast sep s = s := by
  rw [afterLast, splitOn_of_absent absent]
  rfl

/-- What stands after the last separator is all that follows a separator behind which there is no
other. -/
theorem afterLast_append_cons {sep : Char} (front : List Char) {s : List Char}
    (absent : sep ∉ s) : afterLast sep (front ++ sep :: s) = s := by
  rw [afterLast, splitOn_append_cons, splitOn_of_absent absent]
  simp

end ClientGen.Text

namespace ClientGen.Naming

/-- Stripping changes nothing in a class name. -/
theorem strip_className (name : String) : TypeExpr.strip (className name) = className name :=
  TypeExpr.strip_of_isWord fun _ member => isWord_of_mem_className member

/-- A reference to a definition whose name holds no slash is read as the class name of the
definition. -/
theorem classOfRef_definitionPath {name : String} (plain : '/' ∉ name.toList) :
    classOfRef (Model.definitionPath name) = className name := by
  have written : (Model.definitionPath name).toList =
      "#/definitions".toList ++ '/' :: name.toList := by
    simp [Model.definitionPath]
  rw [classOfRef, written, Text.afterLast_append_cons _ plain, String.ofList_toList]

end ClientGen.Naming
