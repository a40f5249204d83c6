import Mathlib.Tactic.Common
import ClientGen.Proofs.ClassNames

/-!
# The case of word characters

A word character has one upper and one lower case form. Both are word characters again, and each
has the other form of the character they come from. Texts that start with a word character
therefore agree up to the case of their first letter exactly if they agree once it is in upper case
(`lowerFirst_eq_iff`), and a text of word characters is put into lower case one by one.
-/
namespace ClientGen.Naming

/-- The letters and digits by code point. -/
theorem isAlnum_iff (c : Char) : isAlnum c = true ↔
    (97 ≤ c.toNat ∧ c.toNat ≤ 122) ∨ (65 ≤ c.toNat ∧ c.toNat ≤ 90) ∨
      (48 ≤ c.toNat ∧ c.toNat ≤ 57) := by
  simp only [isAlnum, Bool.or_eq_true, Bool.and_eq_true, decide_eq_true_eq, Char.le_def,
    UInt32.le_iff_toNat_le]
  exact or_assoc

theorem isWord_of_isAlnum {c : Char} (alnum : isAlnum c = true) : isWord c = true := by
  simp [isWord, alnum]

/-- A capital letter is put into lower case, and every other word character stays. -/
theorem lowerChar_of_isWord {c : Char} (word : isWord c = true) :
    Text.lowerChar c =
      [if 65 ≤ c.toNat ∧ c.toNat ≤ 90 then Char.ofNat (c.toNat + 32) else c] := by
  have range := (isWord_iff c).mp word
  have ascii : c.toNat < 0x80 := by omega
  simp [Text.lowerChar, ascii]

theorem isLower_iff (c : Char) : c.isLower = true ↔ 97 ≤ c.toNat ∧ c.toNat ≤ 122 := by
  change (decide ('a'.val ≤ c.val) && decide (c.val ≤ 'z'.val)) = true ↔ _
  simp only [Bool.and_eq_true, decide_eq_true_eq, UInt32.le_iff_toNat_le]
  rfl

/-- A word character stays in upper case exactly if it is no small letter. -/
theorem upperChar_eq_self_iff {c : Char} (word : isWord c = true) :
    Text.upperChar c = [c] ↔ c.isLower = false := by
  have range := (isWord_iff c).mp word
  rw [upperChar_of_isWord word, List.singleton_inj, Bool.eq_false_iff, Ne, isLower_iff]
  constructor
  · intro same small
    rw [if_pos small] at same
    have codes := congrArg Char.toNat same
    rw [toNat_ofNat_of_lt (by omega)] at codes
    omega
  · intro big
    exact if_neg big

/-- The upper case form of a word character, which has the same lower case form. -/
theorem exists_upperChar {c : Char} (word : isWord c = true) :
    ∃ d, Text.upperChar c = [d] ∧ isWord d = true ∧ Text.lowerChar d = Text.lowerChar c := by
  by_cases small : 97 ≤ c.toNat ∧ c.toNat ≤ 122
  · have code : (Char.ofNat (c.toNat - 32)).toNat = c.toNat - 32 := toNat_ofNat_of_lt (by omega)
    have stays : isWord (Char.ofNat (c.toNat - 32)) = true := by
      rw [isWord_iff, code]
      omega
    refine ⟨_, by rw [upperChar_of_isWord word, if_pos small], stays, ?_⟩
    rw [lowerChar_of_isWord stays, lowerChar_of_isWord word, code, if_pos (by omega),
      if_neg (by omega), Nat.sub_add_cancel (by omega), Char.ofNat_toNat]
  · exact ⟨c, by rw [upperChar_of_isWord word, if_neg small], word, rfl⟩

/-- The lower case form of a word character, which has the same upper case form and is in lower
case itself. -/
theorem exists_lowerChar {c : Char} (word : isWord c = true) :
    ∃ d, Text.lowerChar c = [d] ∧ isWord d = true ∧ Text.upperChar d = Text.upperChar c ∧
      Text.lowerChar d = [d] := by
  by_cases capital : 65 ≤ c.toNat ∧ c.toNat ≤ 90
  · have code : (Char.ofNat (c.toNat + 32)).toNat = c.toNat + 32 := toNat_ofNat_of_lt (by omega)
    have stays : isWord (Char.ofNat (c.toNat + 32)) = true := by
      rw [isWord_iff, code]
      omega
    refine ⟨_, by rw [lowerChar_of_isWord word, if_pos capital], stays, ?_, ?_⟩
    · rw [upperChar_of_isWord stays, upperChar_of_isWord word, code, if_pos (by omega),
        if_neg (by omega), Nat.add_sub_cancel, Char.ofNat_toNat]
    · rw [lowerChar_of_isWord stays, code, if_neg (by omega)]
  · have stays : Text.lowerChar c = [c] := by rw [lowerChar_of_isWord word, if_neg capital]
    exact ⟨c, stays, word, rfl, stays⟩

/-- The upper case form of a word character is one that stays. -/
theorem exists_capital {c : Char} (word : isWord c = true) :
    ∃ d, Text.upperChars [c] = [d] ∧ Text.upperChar d = [d] := by
  have range := (isWord_iff c).mp word
  obtain ⟨d, upper, stays, -⟩ := exists_upperChar word
  refine ⟨d, by rw [Text.upperChars, List.flatMap_singleton, upper], ?_⟩
  rw [upperChar_of_isWord word, List.singleton_inj] at upper
  rw [upperChar_eq_self_iff stays, Bool.eq_false_iff, Ne, isLower_iff, ← upper]
  split
  · rw [toNat_ofNat_of_lt (by omega)]
    omega
  · assumption

/-- What starts after a gap starts with a character that stays in upper case. -/
theorem camelCase_cases {keep : Char → Bool} (words : ∀ c, keep c = true → isWord c = true)
    (s : List Char) :
    camelCase keep true (s.map fun c => [c]) = [] ∨
      ∃ d rest, camelCase keep true (s.map fun c => [c]) = d :: rest ∧ Text.upperChar d = [d] := by
  induction s with
  | nil => exact .inl rfl
  | cons c s ih =>
    rw [List.map_cons, camelCase]
    by_cases kept : startsWith keep [c] = true
    · obtain ⟨d, upper, stays⟩ := exists_capital (words c kept)
      exact .inr ⟨d, _, by rw [if_pos kept, if_pos rfl, upper, List.singleton_append], stays⟩
    · rwa [if_neg kept]

theorem isAlnum_upperChar {c : Char} (alnum : isAlnum c = true) :
    ∀ d ∈ Text.upperChar c, isAlnum d = true := by
  rw [upperChar_of_isWord (isWord_of_isAlnum alnum), List.forall_mem_singleton]
  split
  · rw [isAlnum_iff, toNat_ofNat_of_lt (by omega)]
    omega
  · exact alnum

theorem isAlnum_lowerChar {c : Char} (alnum : isAlnum c = true) :
    ∀ d ∈ Text.lowerChar c, isAlnum d = true := by
  rw [lowerChar_of_isWord (isWord_of_isAlnum alnum), List.forall_mem_singleton]
  split
  · rw [isAlnum_iff, toNat_ofNat_of_lt (by omega)]
    omega
  · exact alnum

theorem camelCase_of_isAlnum {gap : Bool} {c : Char} {rest : List Char}
    (alnum : isAlnum c = true) :
    camelCase isAlnum gap ((c :: rest).map fun c => [c]) =
      (if gap then Text.upperChars [c] else [c]) ++
        camelCase isAlnum false (rest.map fun c => [c]) := by
  simp [camelCase, startsWith, alnum]

theorem camelCase_of_not_isAlnum {gap : Bool} {c : Char} {rest : List Char}
    (other : isAlnum c = false) :
    camelCase isAlnum gap ((c :: rest).map fun c => [c]) =
      camelCase isAlnum true (rest.map fun c => [c]) := by
  simp [camelCase, startsWith, other]

/-- Word characters are put into lower case one by one: there is no sigma among them. -/
theorem lowerAfter_of_isWord {before s : List Char} (words : ∀ c ∈ s, isWord c = true) :
    Text.lowerAfter before s = s.flatMap Text.lowerChar := by
  induction s generalizing before with
  | nil => rfl
  | cons c rest ih =>
    have noSigma : c ≠ 'Σ' := by
      rintro rfl
      exact absurd (words 'Σ' List.mem_cons_self) (by decide)
    rw [Text.lowerAfter, if_neg noSigma, ih fun d later => words d (List.mem_cons_of_mem c later),
      List.flatMap_cons]

theorem lowerChars_singleton {c : Char} (word : isWord c = true) :
    Text.lowerChars [c] = Text.lowerChar c := by
  rw [Text.lowerChars, lowerAfter_of_isWord (by simpa using word), List.flatMap_singleton]

/-- The text is empty or starts with a word character. -/
def WordFirst (s : String) : Prop :=
  ∀ c ∈ s.toList.head?, isWord c = true

theorem lowerFirst_cons {c : Char} {rest : List Char} (word : isWord c = true) :
    Text.lowerFirst (String.ofList (c :: rest)) = String.ofList (Text.lowerChar c ++ rest) := by
  simp only [Text.lowerFirst, String.toList_ofList, lowerChars_singleton word]

theorem upperFirst_cons (c : Char) (rest : List Char) :
    Text.upperFirst (String.ofList (c :: rest)) = String.ofList (Text.upperChar c ++ rest) := by
  simp only [Text.upperFirst, String.toList_ofList]

theorem wordFirst_cases {s : String} (first : WordFirst s) :
    s = "" ∨ ∃ c rest, isWord c = true ∧ s = String.ofList (c :: rest) := by
  cases chars : s.toList with
  | nil => exact Or.inl (String.toList_eq_nil_iff.mp chars)
  | cons c rest =>
    refine Or.inr ⟨c, rest, first c (by simp [chars]), ?_⟩
    rw [← chars, String.ofList_toList]

/-- Putting the first letter into upper case first makes no difference to its lower case form. -/
theorem lowerFirst_upperFirst {s : String} (first : WordFirst s) :
    Text.lowerFirst (Text.upperFirst s) = Text.lowerFirst s := by
  rcases wordFirst_cases first with rfl | ⟨c, rest, word, rfl⟩
  · rfl
  · obtain ⟨d, upper, stays, same⟩ := exists_upperChar word
    rw [upperFirst_cons, upper, List.singleton_append, lowerFirst_cons stays,
      lowerFirst_cons word, same]

/-- Putting the first letter into lower case first makes no difference to its upper case form. -/
theorem upperFirst_lowerFirst {s : String} (first : WordFirst s) :
    Text.upperFirst (Text.lowerFirst s) = Text.upperFirst s := by
  rcases wordFirst_cases first with rfl | ⟨c, rest, word, rfl⟩
  · rfl
  · obtain ⟨d, lower, -, same, -⟩ := exists_lowerChar word
    rw [lowerFirst_cons word, lower, List.singleton_append, upperFirst_cons, upperFirst_cons, same]

/-- Two texts differ at most in the case of their first letter exactly if they are the same with
the first letter in upper case. -/
theorem lowerFirst_eq_iff {s t : String} (first : WordFirst s) (second : WordFirst t) :
    Text.lowerFirst s = Text.lowerFirst t ↔ Text.upperFirst s = Text.upperFirst t := by
  constructor
  · intro same
    rw [← upperFirst_lowerFirst first, same, upperFirst_lowerFirst second]
  · intro same
    rw [← lowerFirst_upperFirst first, same, lowerFirst_upperFirst second]

theorem wordFirst_lowerFirst {s : String} (first : WordFirst s) :
    WordFirst (Text.lowerFirst s) := by
  rcases wordFirst_cases first with rfl | ⟨c, rest, word, rfl⟩
  · exact first
  · obtain ⟨d, lower, stays, -⟩ := exists_lowerChar word
    rw [lowerFirst_cons word, lower]
    simpa [WordFirst] using stays

theorem lowerFirst_lowerFirst {s : String} (first : WordFirst s) :
    Text.lowerFirst (Text.lowerFirst s) = Text.lowerFirst s := by
  rcases wordFirst_cases first with rfl | ⟨c, rest, word, rfl⟩
  · rfl
  · obtain ⟨d, lower, stays, -, twice⟩ := exists_lowerChar word
    rw [lowerFirst_cons word, lower, List.singleton_append, lowerFirst_cons stays, twice,
      List.singleton_append]

end ClientGen.Naming
