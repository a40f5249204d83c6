import Mathlib
import ClientGen.Text.Numeral

/-!
# Numerals

The decimal form of a number is read as the number (`readInt?_natText`), unless it has more than
`digitLimit` digits. Not every digit has a decimal value, so a text of digits may be no numeral
although it is short enough (`readInt?_eq_none_iff`).
-/
namespace ClientGen

namespace Text

variable {c : Char} {s : List Char} {n : Nat}

theorem isDigit_iff_toNat : c.isDigit = true ↔ 48 ≤ c.toNat ∧ c.toNat ≤ 57 := by
  simp [Char.isDigit, UInt32.le_iff_toNat_le]

/-- An ASCII digit has its decimal value. -/
theorem digitValue?_of_isDigit (digit : c.isDigit = true) :
    digitValue? c = some (c.toNat - '0'.toNat) := by
  have range := isDigit_iff_toNat.mp digit
  have found : (DigitTable.zeros.find? fun first => first ≤ c.toNat && c.toNat < first + 10) =
      some 48 := by
    rw [DigitTable.zeros, List.find?_cons_of_pos]
    simp only [Bool.and_eq_true, decide_eq_true_eq]
    omega
  rw [digitValue?, found]
  rfl

theorem readDigits?_cons {acc : Nat} (other : c ≠ '_') :
    readDigits? acc (c :: s) = (digitValue? c).bind fun d => readDigits? (acc * 10 + d) s := by
  rw [readDigits?]
  · rfl
  · intro d rest underscore
    exact absurd underscore other

/-- ASCII digits are read as the number that they make up. -/
theorem readDigits?_eq_ofDigitChars {acc : Nat} (digits : ∀ c ∈ s, c.isDigit = true) :
    readDigits? acc s = some (Nat.ofDigitChars 10 s acc) := by
  induction s generalizing acc with
  | nil => rfl
  | cons c rest ih =>
    obtain ⟨first, others⟩ := List.forall_mem_cons.mp digits
    have other : c ≠ '_' := by
      rintro rfl
      cases first
    rw [readDigits?_cons other, digitValue?_of_isDigit first, Option.bind_some, ih others,
      Nat.ofDigitChars_cons, Nat.mul_comm]

theorem isDigit_of_ascii (digit : c.isDigit = true) : isDigit c = true := by
  rw [isDigit, digitValue?_of_isDigit digit]
  rfl

/-- The blank characters, as ranges of code points. -/
def blankRanges : List (Nat × Nat) := [
  (0x09, 0x0D), (0x1C, 0x20), (0x85, 0x85), (0xA0, 0xA0), (0x1680, 0x1680), (0x2000, 0x200A),
  (0x2028, 0x2029), (0x202F, 0x202F), (0x205F, 0x205F), (0x3000, 0x3000)]

/-- The digits, as ranges of code points. -/
def digitRanges : List (Nat × Nat) :=
  DigitTable.zeros.map (fun first => (first, first + 9)) ++ DigitTable.otherDigits

theorem covers_blankRanges (blank : isBlank c = true) : covers blankRanges c = true := by
  simp only [isBlank, Bool.or_eq_true, Bool.and_eq_true, decide_eq_true_eq, beq_iff_eq] at blank
  simp only [covers, blankRanges, List.any_cons, List.any_nil, Bool.or_false, Bool.or_eq_true,
    Bool.and_eq_true, decide_eq_true_eq]
  omega

theorem covers_digitRanges (digit : isDigit c = true) : covers digitRanges c = true := by
  rw [isDigit, Bool.or_eq_true, digitValue?, Option.isSome_map, List.find?_isSome] at digit
  rw [covers, digitRanges, List.any_append, Bool.or_eq_true]
  refine digit.imp_left ?_
  rintro ⟨first, member, within⟩
  simp only [Bool.and_eq_true, decide_eq_true_eq] at within
  refine List.any_eq_true.mpr ⟨_, List.mem_map_of_mem member, ?_⟩
  simp only [Bool.and_eq_true, decide_eq_true_eq]
  omega

/-- Among the ASCII characters just the decimal digits count as digits. -/
theorem isDigit_eq_of_lt (ascii : c.toNat < 128) : isDigit c = c.isDigit := by
  have beyond : ∀ range ∈ digitRanges, range = (48, 57) ∨ 128 ≤ range.1 := by decide +kernel
  rw [Bool.eq_iff_iff]
  constructor
  · intro digit
    obtain ⟨range, member, within⟩ := List.any_eq_true.mp (covers_digitRanges digit)
    simp only [Bool.and_eq_true, decide_eq_true_eq] at within
    rw [isDigit_iff_toNat]
    rcases beyond range member with rfl | far
    · exact within
    · omega
  · exact isDigit_of_ascii

/-- No digit is blank. -/
theorem isBlank_of_isDigit (digit : isDigit c = true) : isBlank c = false := by
  have apart : ∀ blank ∈ blankRanges, ∀ digit ∈ digitRanges,
      blank.2 < digit.1 ∨ digit.2 < blank.1 := by decide +kernel
  by_contra blank
  obtain ⟨one, ofBlanks, inOne⟩ :=
    List.any_eq_true.mp (covers_blankRanges (eq_true_of_ne_false blank))
  obtain ⟨other, ofDigits, inOther⟩ := List.any_eq_true.mp (covers_digitRanges digit)
  have disjoint := apart one ofBlanks other ofDigits
  simp only [Bool.and_eq_true, decide_eq_true_eq] at inOne inOther
  omega

theorem isNumeralPadding_of_isDigit (digit : isDigit c = true) : isNumeralPadding c = false := by
  rw [isNumeralPadding, isBlank_of_isDigit digit, Bool.false_and]

/-- A text without characters to be trimmed is left as it is. -/
theorem trimBy_of_forall_not {p : Char → Bool} (none : ∀ c ∈ s, p c = false) : trimBy p s = s := by
  have kept : ∀ t : List Char, (∀ c ∈ t, p c = false) → t.dropWhile p = t := by
    intro t none
    cases t with
    | nil => rfl
    | cons c rest => rw [List.dropWhile_cons_of_neg (by simp [none c])]
  rw [trimBy, trimEndBy, kept s none, kept s.reverse (by simpa using none), List.reverse_reverse]

theorem isDigit_of_mem_natText (member : c ∈ (natText n).toList) : c.isDigit = true := by
  rw [natText, String.toList_ofList] at member
  exact Nat.isDigit_of_mem_toDigits (by decide) (by decide) member

theorem isDigits_natText (n : Nat) : isDigits (natText n) = true := by
  have present : (natText n).toList ≠ [] := by
    rw [natText, String.toList_ofList]
    exact Nat.toDigits_ne_nil
  have digits : ∀ c ∈ (natText n).toList, isDigit c = true :=
    fun c member => isDigit_of_ascii (isDigit_of_mem_natText member)
  simp [isDigits, present, List.all_eq_true.mpr digits]

theorem readNat?_natText (short : n < 10 ^ digitLimit) : readNat? (natText n).toList = some n := by
  have digits : ∀ c ∈ (natText n).toList, c.isDigit = true := fun c => isDigit_of_mem_natText
  have written : (natText n).toList = Nat.toDigits 10 n := by rw [natText, String.toList_ofList]
  have length : (natText n).toList.length ≤ digitLimit := by
    rw [written, Nat.length_toDigits_le_iff (by decide) (by decide)]
    exact short
  have value : Nat.ofDigitChars 10 (natText n).toList 0 = n := by
    rw [written]
    exact Nat.ofDigitChars_toDigits (by decide) (by decide)
  cases spelled : (natText n).toList with
  | nil =>
    rw [written] at spelled
    exact absurd spelled Nat.toDigits_ne_nil
  | cons c rest =>
    rw [spelled] at digits length value
    obtain ⟨first, others⟩ := List.forall_mem_cons.mp digits
    have fits : ¬((c :: rest).filter (· != '_')).length > digitLimit := by
      have filtered := List.length_filter_le (· != '_') (c :: rest)
      omega
    rw [Nat.ofDigitChars_cons] at value
    rw [readNat?, if_neg fits, digitValue?_of_isDigit first]
    exact (readDigits?_eq_ofDigitChars others).trans (by simpa using value)

/-- The decimal form of a number that is not too long is read as the number. -/
theorem readInt?_natText (short : n < 10 ^ digitLimit) :
    readInt? (natText n) = some (Int.ofNat n) := by
  have digits : ∀ c ∈ (natText n).toList, c.isDigit = true := fun c => isDigit_of_mem_natText
  have trimmed : trimBy isNumeralPadding (natText n).toList = (natText n).toList :=
    trimBy_of_forall_not fun c member =>
      isNumeralPadding_of_isDigit (isDigit_of_ascii (digits c member))
  rw [readInt?, trimmed]
  split
  · rename_i spelled
    rw [spelled] at digits
    exact absurd (digits '+' List.mem_cons_self) (by decide)
  · rename_i spelled
    rw [spelled] at digits
    exact absurd (digits '-' List.mem_cons_self) (by decide)
  · rw [readNat?_natText short]
    rfl

/-- Digits are no numeral exactly if one of them has no decimal value. -/
theorem readDigits?_eq_none_iff {acc : Nat} (plain : '_' ∉ s) :
    readDigits? acc s = none ↔ ∃ c ∈ s, digitValue? c = none := by
  induction s generalizing acc with
  | nil => simp [readDigits?]
  | cons c rest ih =>
    rw [List.mem_cons, not_or] at plain
    rw [readDigits?_cons (Ne.symm plain.1), List.exists_mem_cons_iff]
    cases value : digitValue? c with
    | none => simp
    | some d => simp [ih plain.2]

theorem readNat?_eq_none_iff (present : s ≠ []) (plain : '_' ∉ s) :
    readNat? s = none ↔ (∃ c ∈ s, digitValue? c = none) ∨ digitLimit < s.length := by
  cases s with
  | nil => exact absurd rfl present
  | cons c rest =>
    have whole : (c :: rest).filter (· != '_') = c :: rest := by
      rw [List.filter_eq_self]
      intro d member
      rw [bne_iff_ne]
      rintro rfl
      exact plain member
    rw [readNat?, whole]
    by_cases long : (c :: rest).length > digitLimit
    · rw [if_pos long]
      exact iff_of_true rfl (Or.inr long)
    · rw [if_neg long, or_iff_left long, List.exists_mem_cons_iff]
      rw [List.mem_cons, not_or] at plain
      cases value : digitValue? c with
      | none => simp
      | some d => simp [readDigits?_eq_none_iff plain.2]

/-- A text of digits is no numeral exactly if one of its digits has no decimal value, or if it has
too many of them. -/
theorem readInt?_eq_none_iff {s : String} (digits : isDigits s = true) :
    readInt? s = none ↔
      (∃ c ∈ s.toList, digitValue? c = none) ∨ digitLimit < s.toList.length := by
  rw [isDigits, Bool.and_eq_true, List.all_eq_true] at digits
  obtain ⟨present, digits⟩ := digits
  have other : ∀ c, isDigit c = false → c ∉ s.toList := by
    intro c none member
    rw [digits c member] at none
    cases none
  have trimmed : trimBy isNumeralPadding s.toList = s.toList :=
    trimBy_of_forall_not fun c member => isNumeralPadding_of_isDigit (digits c member)
  rw [readInt?, trimmed]
  split
  · rename_i spelled
    exact absurd (spelled ▸ List.mem_cons_self) (other '+' (by decide +kernel))
  · rename_i spelled
    exact absurd (spelled ▸ List.mem_cons_self) (other '-' (by decide +kernel))
  · rw [Option.map_eq_none_iff, readNat?_eq_none_iff (by simpa using present)
      (other '_' (by decide +kernel))]

end Text

end ClientGen
