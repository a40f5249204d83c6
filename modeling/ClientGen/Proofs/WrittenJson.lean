import ClientGen.Json.Reader
import ClientGen.Json.Writer
import ClientGen.Proofs.DistinctKeys
import ClientGen.Proofs.Numerals

/-!
# Written JSON is read back

A value of JSON, whose keys are texts and whose numbers are integers, is written in some layout and
read back as the same value (`parseWithin_write`). The induction goes over the value: the reader of
a value stops where the written value ends (`ReadsBack`), if what follows cannot be taken for more
of a number (`Stops`). Blanks before a token are skipped, so the layout does not matter as long as
it puts a comma and else blanks between the parts.
-/
namespace ClientGen.Json

variable {limit : Option Nat} {c : Char} {s front rest : List Char}

def AllBlank (s : List Char) : Prop := ∀ c ∈ s, isBlank c = true

theorem skipBlanks_append (blank : AllBlank front) (s : List Char) :
    skipBlanks (front ++ s) = skipBlanks s :=
  List.dropWhile_append_of_pos blank

theorem skipBlanks_cons (solid : isBlank c = false) (s : List Char) :
    skipBlanks (c :: s) = c :: s :=
  List.dropWhile_cons_of_neg (by simp [solid])

/-! ### Texts -/

theorem not_half (c : Char) : isHighHalf c.toNat = false ∧ isLowHalf c.toNat = false := by
  have valid : c.toNat < 0xD800 ∨ 0xDFFF < c.toNat ∧ c.toNat < 0x110000 := c.valid
  simp only [isHighHalf, isLowHalf, Bool.and_eq_false_iff, decide_eq_false_iff_not]
  omega

/-- The number of a character stands for that character, whatever follows. -/
theorem charsOf_cons (c : Char) (codes : List Nat) :
    charsOf (c.toNat :: codes) = c :: charsOf codes := by
  obtain ⟨high, low⟩ := not_half c
  cases codes <;> simp [charsOf, high, low, Char.ofNat_toNat]

theorem charsOf_map_toNat (s : List Char) : charsOf (s.map Char.toNat) = s := by
  induction s with
  | nil => rfl
  | cons c s ih => rw [List.map_cons, charsOf_cons, ih]

theorem hexNumber?_hexDigits : ∀ n < 0x20, ∃ a b c d,
    Text.hexDigits 4 n = [a, b, c, d] ∧ hexNumber? a b c d = some n := by
  intro n small
  refine ⟨_, _, _, _, rfl, ?_⟩
  revert n
  decide

/-- A character is written as a backslash and one that stands for it, by its number or as it is. -/
theorem escapedChar_cases (c : Char) :
    (∃ e, escapedChar c = ['\\', e] ∧ e ≠ 'u' ∧ escape? e = some c) ∨
    (escapedChar c = '\\' :: 'u' :: Text.hexDigits 4 c.toNat ∧ c.toNat < 0x20) ∨
    (escapedChar c = [c] ∧ c ≠ '"' ∧ c ≠ '\\' ∧ ¬c.toNat < 0x20) := by
  by_cases short : c ∈ ['"', '\\', '\n', '\r', '\t', '\x08', '\x0c']
  · left
    simp only [List.mem_cons, List.not_mem_nil, or_false] at short
    rcases short with rfl | rfl | rfl | rfl | rfl | rfl | rfl <;>
      exact ⟨_, rfl, by decide, rfl⟩
  · right
    simp only [List.mem_cons, List.not_mem_nil, or_false, not_or] at short
    by_cases small : c.toNat < 0x20
    · exact Or.inl ⟨by simp [escapedChar, short, small], small⟩
    · exact Or.inr ⟨by simp [escapedChar, short, small], short.1, short.2.1, small⟩

/-- A character is read back from the way it is written. -/
theorem readCodes_escapedChar (c : Char) (s : List Char) :
    readCodes (escapedChar c ++ s) =
      (readCodes s).map fun (codes, rest) => (c.toNat :: codes, rest) := by
  rcases escapedChar_cases c with ⟨e, written, other, stands⟩ | ⟨written, small⟩ |
    ⟨written, notQuote, notSlash, large⟩
  · rw [written, List.cons_append, List.singleton_append, readCodes, if_neg (by decide),
      if_pos rfl]
    · rw [stands]
      cases readCodes s <;> rfl
    · intro h₁ h₂ h₃ h₄ more same
      exact absurd same other
  · obtain ⟨h₁, h₂, h₃, h₄, digits, number⟩ := hexNumber?_hexDigits c.toNat small
    rw [written, digits, readCodes.eq_def]
    simp only [List.cons_append, List.nil_append]
    rw [if_neg (by decide), if_pos trivial, number]
    cases readCodes s <;> rfl
  · rw [written, List.singleton_append, readCodes.eq_def]
    dsimp only
    rw [if_neg notQuote, if_neg notSlash, if_neg large]
    cases readCodes s <;> rfl

theorem readCodes_flatMap (text rest : List Char) :
    readCodes (text.flatMap escapedChar ++ '"' :: rest) = some (text.map Char.toNat, rest) := by
  induction text with
  | nil => unfold readCodes; rfl
  | cons c text ih => rw [List.flatMap_cons, List.append_assoc, readCodes_escapedChar, ih]; rfl

theorem toList_quote (text : String) :
    (quote text).toList = '"' :: (text.toList.flatMap escapedChar ++ ['"']) := by
  simp [quote]

/-- A text is read back from between its quotes. -/
theorem readText_quote (text : String) (rest : List Char) :
    readText (text.toList.flatMap escapedChar ++ '"' :: rest) = some (text, rest) := by
  rw [readText, readCodes_flatMap]
  simp [charsOf_map_toNat]

/-! ### Numerals -/

/-- What follows a numeral does not go on with it. -/
def Stops (rest : List Char) : Prop :=
  ∀ c ∈ rest.head?, isDigit c = false ∧ c ≠ '.' ∧ c ≠ 'e' ∧ c ≠ 'E'

theorem isDigit_of_mem_natText {n : Nat} (member : c ∈ (Text.natText n).toList) :
    isDigit c = true := by
  have range := Text.isDigit_iff_toNat.mp (Text.isDigit_of_mem_natText member)
  simpa [isDigit, Char.le_def, UInt32.le_iff_toNat_le] using range

/-- The digits of a number are read as the number. -/
theorem digitsValue_natText (n : Nat) : digitsValue (Text.natText n).toList = n := by
  have written : (Text.natText n).toList = Nat.toDigits 10 n := by
    rw [Text.natText, String.toList_ofList]
  have same : digitsValue (Nat.toDigits 10 n) = Nat.ofDigitChars 10 (Nat.toDigits 10 n) 0 := by
    simp only [digitsValue, Nat.ofDigitChars, Nat.mul_comm]
    rfl
  rw [written, same, Nat.ofDigitChars_toDigits (by decide) (by decide)]

/-- Only zero is written with a zero at its start. -/
theorem head?_toDigits {n : Nat} (positive : 0 < n) : (Nat.toDigits 10 n).head? ≠ some '0' := by
  induction n using Nat.strong_induction_on with
  | _ n ih =>
    by_cases small : n < 10
    · rw [Nat.toDigits_of_lt_base small]
      simpa using Nat.ne_of_gt positive
    · rw [Nat.toDigits_of_base_le (by decide) (by omega),
        List.head?_append_of_ne_nil _ Nat.toDigits_ne_nil]
      exact ih (n / 10) (by omega) (by omega)

theorem takeWhile_digits (digits : ∀ c ∈ s, isDigit c = true) (stops : Stops rest) :
    (s ++ rest).takeWhile isDigit = s ∧ (s ++ rest).dropWhile isDigit = rest := by
  have notYet : rest.takeWhile isDigit = [] ∧ rest.dropWhile isDigit = rest := by
    cases rest with
    | nil => exact ⟨rfl, rfl⟩
    | cons c rest =>
      have other : isDigit c = false := (stops c rfl).1
      simp [other]
  rw [List.takeWhile_append_of_pos digits, List.dropWhile_append_of_pos digits, notYet.1, notYet.2,
    List.append_nil]
  exact ⟨rfl, rfl⟩

theorem readWhole?_natText (n : Nat) (stops : Stops rest) :
    readWhole? ((Text.natText n).toList ++ rest) = some ((Text.natText n).toList, rest) := by
  by_cases zero : n = 0
  · subst zero
    rfl
  · have digits : ∀ c ∈ (Text.natText n).toList, isDigit c = true :=
      fun c => isDigit_of_mem_natText
    obtain ⟨taken, left⟩ := takeWhile_digits digits stops
    have written : (Text.natText n).toList = Nat.toDigits 10 n := by
      rw [Text.natText, String.toList_ofList]
    have present : (Text.natText n).toList ≠ [] := by
      rw [written]
      exact Nat.toDigits_ne_nil
    rw [readWhole?]
    · simp only [taken, left]
      rw [if_neg (by simpa using present)]
    · intro more same
      refine head?_toDigits (Nat.pos_of_ne_zero zero) ?_
      rw [← written, ← List.head?_append_of_ne_nil _ present, same, List.head?_cons]

theorem readFraction_of_stops (stops : Stops rest) : readFraction rest = (none, rest) := by
  cases rest with
  | nil => rfl
  | cons c rest =>
    rw [readFraction]
    intro more same
    exact absurd (List.cons.inj same).1 (stops c rfl).2.1

theorem readExponent_of_stops (stops : Stops rest) : readExponent rest = (none, rest) := by
  cases rest with
  | nil => rfl
  | cons c rest =>
    obtain ⟨-, -, small, capital⟩ := stops c rfl
    simp [readExponent, small, capital]

theorem any_lt_eq_false {most : Option Nat} {length : Nat} :
    most.any (· < length) = false ↔ ∀ m ∈ most, length ≤ m := by
  cases most <;> simp

/-- An integer is read back, if it has no more digits than the limit allows. -/
theorem readUnsigned_natText {n : Nat} (negative : Bool)
    (short : ∀ most ∈ limit, (Text.natText n).toList.length ≤ most) (stops : Stops rest) :
    readUnsigned limit negative ((Text.natText n).toList ++ rest) =
      .ok (.int (if negative then -n else n), rest) := by
  rw [readUnsigned, readWhole?_natText n stops]
  refine bind_eq_ok.mpr ⟨_, rfl, ?_⟩
  simp only [readFraction_of_stops stops, readExponent_of_stops stops, Option.isNone_none,
    Bool.and_self, if_true, any_lt_eq_false.mpr short, digitsValue_natText]
  rfl

theorem ne_of_isDigit {d : Char} (digit : isDigit d = true) (other : isDigit c = false) :
    d ≠ c := by
  rintro rfl
  exact absurd digit (by simp [other])

theorem exists_natText_cons (n : Nat) :
    ∃ d more, (Text.natText n).toList = d :: more ∧ isDigit d = true := by
  obtain ⟨d, more, spelled⟩ := List.exists_cons_of_ne_nil (l := (Text.natText n).toList) (by
    rw [Text.natText, String.toList_ofList]
    exact Nat.toDigits_ne_nil)
  exact ⟨d, more, spelled, isDigit_of_mem_natText (spelled ▸ List.mem_cons_self)⟩

theorem readNumber_intText {n : Int}
    (short : ∀ most ∈ limit, (Text.natText n.natAbs).toList.length ≤ most) (stops : Stops rest) :
    readNumber limit ((Text.intText n).toList ++ rest) = .ok (.int n, rest) := by
  cases n with
  | ofNat n =>
    rw [Text.intText, readNumber]
    · exact readUnsigned_natText false short stops
    · intro more same
      obtain ⟨d, digits, spelled, digit⟩ := exists_natText_cons n
      rw [spelled] at same
      exact ne_of_isDigit digit (by decide) (List.cons.inj same).1
  | negSucc n =>
    rw [Text.intText, String.toList_append]
    exact readUnsigned_natText true short stops

/-- No word starts like an integer. -/
theorem find?_words_intText (n : Int) (rest : List Char) :
    (words.find? fun (word, _) => word.isPrefixOf ((Text.intText n).toList ++ rest)) = none := by
  have symbols : ∀ c ∈ ['n', 't', 'f', 'N', 'I', '-'], isDigit c = false := by
    simp [isDigit]
  have different {d : Char} (digit : isDigit d = true) :
      ∀ c ∈ ['n', 't', 'f', 'N', 'I', '-'], c ≠ d :=
    fun c member => (ne_of_isDigit digit (symbols c member)).symm
  cases n with
  | ofNat n =>
    obtain ⟨d, digits, spelled, digit⟩ := exists_natText_cons n
    have others := different digit
    simp only [List.forall_mem_cons, List.not_mem_nil] at others
    simp [words, Text.intText, spelled, others]
  | negSucc n =>
    obtain ⟨d, digits, spelled, digit⟩ := exists_natText_cons (n + 1)
    have others := different digit
    simp only [List.forall_mem_cons, List.not_mem_nil] at others
    simp [words, Text.intText, spelled, others]

theorem readWord_intText {n : Int}
    (short : ∀ most ∈ limit, (Text.natText n.natAbs).toList.length ≤ most) (stops : Stops rest) :
    readWord limit ((Text.intText n).toList ++ rest) = .ok (.int n, rest) := by
  rw [readWord, find?_words_intText]
  exact readNumber_intText short stops

/-! ### Values -/

/-- A value of JSON: its keys are texts, no two of an object the same, and its numbers are integers
that have no more digits than the limit allows. -/
inductive IsPlain (limit : Option Nat) : Value → Prop where
  | null : IsPlain limit .null
  | bool (b : Bool) : IsPlain limit (.bool b)
  | int {n : Int} (short : ∀ most ∈ limit, (Text.natText n.natAbs).toList.length ≤ most) :
    IsPlain limit (.int n)
  | text (s : String) : IsPlain limit (.text s)
  | list {items : List Value} (parts : ∀ v ∈ items, IsPlain limit v) : IsPlain limit (.list items)
  | object {fields : Fields} (keys : ∀ e ∈ fields, ∃ name, e.1 = .text name)
    (distinct : (fields.map Prod.fst).Nodup) (parts : ∀ e ∈ fields, IsPlain limit e.2) :
    IsPlain limit (.object fields)

structure Layout.IsSpaced (l : Layout) : Prop where
  between : ∃ gap, l.between.toList = ',' :: gap ∧ AllBlank gap
  lineBreak : AllBlank l.lineBreak.toList
  step : AllBlank l.step.toList

theorem AllBlank.append {front back : List Char} (first : AllBlank front) (last : AllBlank back) :
    AllBlank (front ++ back) :=
  fun c member => (List.mem_append.mp member).elim (first c) (last c)

theorem Layout.IsSpaced.deeper {l : Layout} (spaced : l.IsSpaced) : l.deeper.IsSpaced where
  between := spaced.between
  lineBreak := by
    rw [Layout.deeper, String.toList_append]
    exact spaced.lineBreak.append spaced.step
  step := spaced.step

theorem writeItems_eq_map (l : Layout) (items : List Value) :
    writeItems l items = items.map (write l) := by
  induction items with
  | nil => rw [writeItems, List.map_nil]
  | cons v items ih => rw [writeItems, ih, List.map_cons]

def writeEntry (l : Layout) (e : Scalar × Value) : String :=
  writeKey e.1 ++ ": " ++ write l e.2

theorem writeFields_eq_map (l : Layout) (fields : Fields) :
    writeFields l fields = fields.map (writeEntry l) := by
  induction fields with
  | nil => rw [writeFields, List.map_nil]
  | cons e fields ih => rw [writeFields, ih, List.map_cons, writeEntry]

/-- The written parts of a container that is not empty, from the opening to the closing bracket. -/
theorem toList_enclose {l : Layout} {opening closing : String} {o c : Char} {parts : List String}
    (opens : opening.toList = [o]) (closes : closing.toList = [c]) (present : parts ≠ []) :
    (enclose l opening closing parts).toList =
      o :: (l.deeper.lineBreak.toList ++
        (((l.between ++ l.deeper.lineBreak).intercalate parts).toList ++
          (l.lineBreak.toList ++ [c]))) := by
  have notEmpty : ¬parts.isEmpty = true := by simpa using present
  rw [enclose, if_neg notEmpty]
  simp only [String.toList_append, List.append_assoc, opens, closes, List.cons_append,
    List.nil_append]

theorem toList_enclose_nil {l : Layout} {opening closing : String} {o c : Char}
    (opens : opening.toList = [o]) (closes : closing.toList = [c]) :
    (enclose l opening closing []).toList = [o, c] := by
  rw [enclose, if_pos List.isEmpty_nil, String.toList_append, opens, closes]
  rfl

/-- A value that has been written is read back, in any layout and among any text that does not go on
with it. -/
def ReadsBack (limit : Option Nat) (v : Value) : Prop :=
  ∀ l : Layout, l.IsSpaced → ∀ fuel front rest, AllBlank front →
    2 * (write l v).toList.length ≤ fuel → Stops rest →
    readValue limit fuel (front ++ ((write l v).toList ++ rest)) = .ok (v, rest)

theorem stops_cons (ends : c ∈ [',', ']', '\x7d']) (rest : List Char) : Stops (c :: rest) := by
  intro d first
  obtain rfl : c = d := Option.some.inj first
  simp only [List.mem_cons, List.not_mem_nil, or_false] at ends
  rcases ends with rfl | rfl | rfl <;> decide

theorem stops_append_cons {back : List Char} (blank : AllBlank back)
    (ends : c ∈ [',', ']', '\x7d']) (rest : List Char) : Stops (back ++ c :: rest) := by
  cases back with
  | nil => exact stops_cons ends rest
  | cons b back =>
    intro d first
    obtain rfl : b = d := Option.some.inj first
    have solid := blank b List.mem_cons_self
    simp only [isBlank, Bool.or_eq_true, beq_iff_eq] at solid
    rcases solid with ((rfl | rfl) | rfl) | rfl <;> decide

section

variable {l : Layout} {sep : String} {gap back : List Char}

theorem toList_intercalate_cons_cons (separates : sep.toList = ',' :: gap) (a b : String)
    (more : List String) : (sep.intercalate (a :: b :: more)).toList =
      a.toList ++ ',' :: (gap ++ (sep.intercalate (b :: more)).toList) := by
  rw [String.intercalate_cons_cons, String.toList_append, String.toList_append, separates,
    List.append_assoc, List.cons_append]

/-- Items are read back one after another. -/
theorem readItems_write (spaced : l.IsSpaced) (separates : sep.toList = ',' :: gap)
    (blankGap : AllBlank gap) (blankBack : AllBlank back) {items : List Value}
    (present : items ≠ []) (each : ∀ v ∈ items, ReadsBack limit v) (rest : List Char) (fuel : Nat)
    (front : List Char) (blankFront : AllBlank front)
    (enough : 2 * (sep.intercalate (items.map (write l))).toList.length + 1 ≤ fuel) :
    readItems limit fuel (front ++
      ((sep.intercalate (items.map (write l))).toList ++ (back ++ ']' :: rest))) =
        .ok (items, rest) := by
  induction items generalizing fuel front with
  | nil => exact absurd rfl present
  | cons v items ih =>
    obtain ⟨first, others⟩ := List.forall_mem_cons.mp each
    obtain ⟨fuel, rfl⟩ : ∃ k, fuel = k + 1 := ⟨fuel - 1, by omega⟩
    cases items with
    | nil =>
      have ends : skipBlanks (back ++ ']' :: rest) = ']' :: rest := by
        rw [skipBlanks_append blankBack, skipBlanks_cons (by decide)]
      rw [List.map_singleton, String.intercalate_singleton] at enough ⊢
      rw [readItems]
      refine bind_eq_ok.mpr ⟨_, first l spaced fuel front (back ++ ']' :: rest) blankFront
        (by omega) (stops_append_cons blankBack (by decide) rest), ?_⟩
      simp only [ends]
      rfl
    | cons w items =>
      rw [List.map_cons, List.map_cons, toList_intercalate_cons_cons separates,
        ← List.map_cons] at enough ⊢
      rw [List.length_append, List.length_cons, List.length_append] at enough
      have later := ih (by simp) others fuel gap blankGap (by omega)
      rw [readItems, List.append_assoc, List.cons_append, List.append_assoc]
      refine bind_eq_ok.mpr ⟨_, first l spaced fuel front _ blankFront (by omega)
        (stops_cons (by decide) _), ?_⟩
      simp only [skipBlanks_cons (c := ',') (by decide)]
      exact bind_eq_ok.mpr ⟨_, later, rfl⟩

theorem toList_writeEntry (l : Layout) (name : String) (v : Value) :
    (writeEntry l (.text name, v)).toList =
      '"' :: (name.toList.flatMap escapedChar ++ '"' :: ':' :: ' ' :: (write l v).toList) := by
  rw [writeEntry, writeKey, String.toList_append, String.toList_append, toList_quote]
  simp

/-- The first entry of an object is read back, and then either more entries or the end. -/
theorem readFields_entry (spaced : l.IsSpaced) {name : String} {v : Value} (own : ReadsBack limit v)
    {fuel : Nat} (blankFront : AllBlank front) {tail : List Char} (stops : Stops tail)
    (enough : 2 * (writeEntry l (.text name, v)).toList.length ≤ fuel + 1) {entries : Fields}
    (next : (∃ others more, skipBlanks tail = ',' :: more ∧
        readFields limit fuel more = .ok (others, rest) ∧ entries = (.text name, v) :: others) ∨
      skipBlanks tail = '\x7d' :: rest ∧ entries = [(.text name, v)]) :
    readFields limit (fuel + 1) (front ++ ((writeEntry l (.text name, v)).toList ++ tail)) =
      .ok (entries, rest) := by
  have key := readText_quote name (':' :: ' ' :: ((write l v).toList ++ tail))
  have blank : AllBlank [' '] := by simp [AllBlank, isBlank]
  rw [toList_writeEntry] at enough ⊢
  simp only [List.length_cons, List.length_append] at enough
  have value := own l spaced fuel [' '] tail blank (by omega) stops
  rw [readFields, skipBlanks_append blankFront, List.cons_append, skipBlanks_cons (by decide)]
  simp only [List.append_assoc, List.cons_append]
  refine bind_eq_ok.mpr ⟨_, congrArg orRefused key, ?_⟩
  simp only [skipBlanks_cons (c := ':') (by decide)]
  refine bind_eq_ok.mpr ⟨_, value, ?_⟩
  rcases next with ⟨others, more, goesOn, later, rfl⟩ | ⟨ends, rfl⟩
  · simp only [goesOn]
    exact bind_eq_ok.mpr ⟨_, later, rfl⟩
  · simp only [ends]
    rfl

/-- Entries are read back one after another. -/
theorem readFields_write (spaced : l.IsSpaced) (separates : sep.toList = ',' :: gap)
    (blankGap : AllBlank gap) (blankBack : AllBlank back) {fields : Fields}
    (present : fields ≠ []) (keys : ∀ e ∈ fields, ∃ name, e.1 = .text name)
    (each : ∀ e ∈ fields, ReadsBack limit e.2) (rest : List Char) (fuel : Nat)
    (front : List Char) (blankFront : AllBlank front)
    (enough : 2 * (sep.intercalate (fields.map (writeEntry l))).toList.length + 1 ≤ fuel) :
    readFields limit fuel (front ++
      ((sep.intercalate (fields.map (writeEntry l))).toList ++ (back ++ '\x7d' :: rest))) =
        .ok (fields, rest) := by
  induction fields generalizing fuel front with
  | nil => exact absurd rfl present
  | cons e fields ih =>
    obtain ⟨first, others⟩ := List.forall_mem_cons.mp each
    obtain ⟨⟨name, text⟩, texts⟩ := List.forall_mem_cons.mp keys
    obtain ⟨key, v⟩ := e
    dsimp only at text first
    subst text
    obtain ⟨fuel, rfl⟩ : ∃ k, fuel = k + 1 := ⟨fuel - 1, by omega⟩
    cases fields with
    | nil =>
      rw [List.map_singleton, String.intercalate_singleton] at enough ⊢
      refine readFields_entry spaced first blankFront
        (stops_append_cons blankBack (by decide) rest) (by omega) (Or.inr ⟨?_, rfl⟩)
      rw [skipBlanks_append blankBack, skipBlanks_cons (by decide)]
    | cons f fields =>
      rw [List.map_cons, List.map_cons, toList_intercalate_cons_cons separates,
        ← List.map_cons] at enough ⊢
      rw [List.length_append, List.length_cons, List.length_append] at enough
      have later := ih (by simp) texts others fuel gap blankGap (by omega)
      rw [List.append_assoc, List.cons_append, List.append_assoc]
      exact readFields_entry spaced first blankFront (stops_cons (by decide) _) (by omega)
        (Or.inl ⟨_, _, skipBlanks_cons (by decide) _, later, rfl⟩)

theorem isBlank_of_isDigit (digit : isDigit c = true) : Text.isBlank c = false := by
  have range : 48 ≤ c.toNat ∧ c.toNat ≤ 57 := by
    simpa [isDigit, Char.le_def, UInt32.le_iff_toNat_le] using digit
  rw [Bool.eq_false_iff]
  simp only [Text.isBlank, Bool.or_eq_true, Bool.and_eq_true, decide_eq_true_eq, beq_iff_eq, ne_eq]
  omega

theorem isBlank_of_solid (solid : Text.isBlank c = false) : isBlank c = false := by
  rw [Bool.eq_false_iff] at solid ⊢
  intro blank
  simp only [isBlank, Bool.or_eq_true, beq_iff_eq] at blank
  rcases blank with ((rfl | rfl) | rfl) | rfl <;> exact solid rfl

/-- A word or a numeral starts with a character that starts nothing else. -/
def StartsWord (c : Char) : Prop := Text.isBlank c = false ∧ c ∉ ['"', '[', ']', '\x7b']

theorem exists_intText_cons (n : Int) :
    ∃ c more, (Text.intText n).toList = c :: more ∧ StartsWord c := by
  cases n with
  | ofNat n =>
    obtain ⟨d, more, spelled, digit⟩ := exists_natText_cons n
    refine ⟨d, more, spelled, isBlank_of_isDigit digit, ?_⟩
    have other (symbol : Char) (none : isDigit symbol = false) : d ≠ symbol :=
      ne_of_isDigit digit none
    simp [other, isDigit]
  | negSucc n =>
    exact ⟨'-', _, by rw [Text.intText, String.toList_append]; rfl, by decide, by decide⟩

theorem exists_nullText_cons :
    ∃ c more, (writeScalar .null).toList = c :: more ∧ StartsWord c :=
  ⟨'n', _, by rw [writeScalar]; rfl, by decide, by decide⟩

theorem exists_boolText_cons (b : Bool) :
    ∃ c more, (writeScalar (.bool b)).toList = c :: more ∧ StartsWord c := by
  cases b with
  | false => exact ⟨'f', _, by rw [writeScalar]; rfl, by decide, by decide⟩
  | true => exact ⟨'t', _, by rw [writeScalar]; rfl, by decide, by decide⟩

/-- A written value starts with a character that is not blank and closes no list. -/
theorem exists_write_cons {v : Value} (plain : IsPlain limit v) (l : Layout) :
    ∃ c more, (write l v).toList = c :: more ∧ Text.isBlank c = false ∧ c ≠ ']' := by
  have ofWord {s : Scalar} :
      (∃ c more, (writeScalar s).toList = c :: more ∧ StartsWord c) →
        ∃ c more, (write l (.scalar s)).toList = c :: more ∧ Text.isBlank c = false ∧ c ≠ ']' := by
    rintro ⟨c, more, spelled, solid, other⟩
    refine ⟨c, more, by rw [write, spelled], solid, ?_⟩
    rintro rfl
    exact other (by decide)
  cases plain with
  | null => exact ofWord exists_nullText_cons
  | bool b => exact ofWord (exists_boolText_cons b)
  | int short => exact ofWord (exists_intText_cons _)
  | text s => exact ⟨'"', _, by rw [write, writeScalar, toList_quote], by decide, by decide⟩
  | list parts =>
    rw [write, enclose]
    split <;> exact ⟨'[', _, by simp only [String.toList_append]; rfl, by decide, by decide⟩
  | object keys distinct parts =>
    rw [write, enclose]
    split <;> exact ⟨'\x7b', _, by simp only [String.toList_append]; rfl, by decide, by decide⟩

theorem readWord_null (rest : List Char) :
    readWord limit ("null".toList ++ rest) = .ok (.null, rest) :=
  rfl

theorem readWord_bool (b : Bool) (rest : List Char) :
    readWord limit ((writeScalar (.bool b)).toList ++ rest) = .ok (.bool b, rest) := by
  cases b <;> rfl

theorem readsBack_of_readWord {s : Scalar}
    (starts : ∃ c more, (writeScalar s).toList = c :: more ∧ StartsWord c)
    (word : ∀ rest, Stops rest → readWord limit ((writeScalar s).toList ++ rest) = .ok (s, rest)) :
    ReadsBack limit (.scalar s) := by
  intro l spaced fuel front rest blank enough stops
  obtain ⟨c, more, spelled, solid, other⟩ := starts
  have read := word rest stops
  rw [write] at enough ⊢
  rw [spelled, List.cons_append] at read ⊢
  rw [spelled, List.length_cons] at enough
  obtain ⟨fuel, rfl⟩ : ∃ k, fuel = k + 1 := ⟨fuel - 1, by omega⟩
  simp only [List.mem_cons, List.not_mem_nil, or_false, not_or] at other
  unfold readValue
  rw [skipBlanks_append blank, skipBlanks_cons (isBlank_of_solid solid)]
  simp only [other, if_false]
  exact bind_eq_ok.mpr ⟨_, read, rfl⟩

theorem readsBack_text (s : String) : ReadsBack limit (.text s) := by
  intro l spaced fuel front rest blank enough stops
  rw [write, writeScalar, toList_quote] at enough ⊢
  rw [List.length_cons] at enough
  obtain ⟨fuel, rfl⟩ : ∃ k, fuel = k + 1 := ⟨fuel - 1, by omega⟩
  rw [List.cons_append, List.append_assoc, List.singleton_append]
  unfold readValue
  rw [skipBlanks_append blank, skipBlanks_cons (by decide)]
  simp only [if_true]
  exact bind_eq_ok.mpr ⟨_, congrArg orRefused (readText_quote s rest), rfl⟩

/-- The separator of the parts of a container. -/
theorem Layout.IsSpaced.exists_gap (spaced : l.IsSpaced) :
    ∃ gap, (l.between ++ l.deeper.lineBreak).toList = ',' :: gap ∧ AllBlank gap := by
  obtain ⟨gap, starts, blank⟩ := spaced.between
  refine ⟨gap ++ l.deeper.lineBreak.toList, ?_, blank.append spaced.deeper.lineBreak⟩
  rw [String.toList_append, starts, List.cons_append]

theorem exists_intercalate_cons (sep : String) {first : String} {more : List Char}
    (spelled : first.toList = c :: more) (others : List String) :
    ∃ more, (sep.intercalate (first :: others)).toList = c :: more := by
  cases others with
  | nil => exact ⟨more, by rw [String.intercalate_singleton, spelled]⟩
  | cons next others =>
    rw [String.intercalate_cons_cons, String.toList_append, String.toList_append, spelled]
    exact ⟨_, rfl⟩

theorem readsBack_list {items : List Value} (parts : ∀ v ∈ items, IsPlain limit v)
    (each : ∀ v ∈ items, ReadsBack limit v) : ReadsBack limit (.list items) := by
  intro l spaced fuel front rest blank enough stops
  obtain ⟨gap, separates, blankGap⟩ := spaced.exists_gap
  rw [write, writeItems_eq_map] at enough ⊢
  cases items with
  | nil =>
    rw [List.map_nil, toList_enclose_nil (o := '[') (c := ']') rfl rfl] at enough ⊢
    obtain ⟨fuel, rfl⟩ : ∃ k, fuel = k + 1 := ⟨fuel - 1, by simp at enough; omega⟩
    have closes : skipBlanks (']' :: rest) = ']' :: rest := skipBlanks_cons (by decide) rest
    unfold readValue
    rw [skipBlanks_append blank, List.cons_append, skipBlanks_cons (by decide)]
    simp [closes]
  | cons v items =>
    rw [toList_enclose (o := '[') (c := ']') rfl rfl (by simp)] at enough ⊢
    simp only [List.length_append, List.length_cons] at enough
    obtain ⟨fuel, rfl⟩ : ∃ k, fuel = k + 1 := ⟨fuel - 1, by omega⟩
    have read := readItems_write spaced.deeper separates blankGap spaced.lineBreak (by simp) each
      rest fuel l.deeper.lineBreak.toList spaced.deeper.lineBreak (by omega)
    obtain ⟨c, more, spelled, solid, goesOn⟩ :=
      exists_write_cons (parts v List.mem_cons_self) l.deeper
    obtain ⟨tail, joined⟩ := exists_intercalate_cons (l.between ++ l.deeper.lineBreak) spelled
      (items.map (write l.deeper))
    rw [List.map_cons, joined] at read ⊢
    unfold readValue
    rw [skipBlanks_append blank, List.cons_append, skipBlanks_cons (by decide)]
    simp only [List.append_assoc, List.cons_append, List.nil_append,
      skipBlanks_append spaced.deeper.lineBreak, skipBlanks_cons (isBlank_of_solid solid)]
    rw [if_neg (by decide), if_pos trivial]
    split
    · next same => exact absurd (List.cons.inj same).1 goesOn
    · exact bind_eq_ok.mpr ⟨_, read, rfl⟩

theorem readsBack_object {fields : Fields} (keys : ∀ e ∈ fields, ∃ name, e.1 = .text name)
    (distinct : (fields.map Prod.fst).Nodup) (each : ∀ e ∈ fields, ReadsBack limit e.2) :
    ReadsBack limit (.object fields) := by
  intro l spaced fuel front rest blank enough stops
  obtain ⟨gap, separates, blankGap⟩ := spaced.exists_gap
  rw [write, writeFields_eq_map] at enough ⊢
  cases fields with
  | nil =>
    rw [List.map_nil, toList_enclose_nil (o := '\x7b') (c := '\x7d') rfl rfl] at enough ⊢
    obtain ⟨fuel, rfl⟩ : ∃ k, fuel = k + 1 := ⟨fuel - 1, by simp at enough; omega⟩
    have closes : skipBlanks ('\x7d' :: rest) = '\x7d' :: rest := skipBlanks_cons (by decide) rest
    unfold readValue
    rw [skipBlanks_append blank, List.cons_append, skipBlanks_cons (by decide)]
    simp [closes]
  | cons e fields =>
    rw [toList_enclose (o := '\x7b') (c := '\x7d') rfl rfl (by simp)] at enough ⊢
    simp only [List.length_append, List.length_cons] at enough
    obtain ⟨fuel, rfl⟩ : ∃ k, fuel = k + 1 := ⟨fuel - 1, by omega⟩
    have read := readFields_write spaced.deeper separates blankGap spaced.lineBreak (by simp) keys
      each rest fuel l.deeper.lineBreak.toList spaced.deeper.lineBreak (by omega)
    obtain ⟨name, text⟩ := keys e List.mem_cons_self
    obtain ⟨tail, joined⟩ := exists_intercalate_cons (l.between ++ l.deeper.lineBreak)
      (toList_writeEntry l.deeper name e.2) (fields.map (writeEntry l.deeper))
    rw [← text] at joined
    rw [List.map_cons, joined] at read ⊢
    unfold readValue
    rw [skipBlanks_append blank, List.cons_append, skipBlanks_cons (by decide)]
    simp only [List.append_assoc, List.cons_append, List.nil_append,
      skipBlanks_append spaced.deeper.lineBreak]
    rw [if_neg (by decide), if_neg (by decide), if_pos trivial, skipBlanks_cons (by decide)]
    refine bind_eq_ok.mpr ⟨_, read, ?_⟩
    rw [Fields.ofEntries_of_distinct keys distinct]
    rfl

/-- Whatever JSON can say is read back. -/
theorem readsBack_of_isPlain {v : Value} (plain : IsPlain limit v) : ReadsBack limit v := by
  induction plain with
  | null =>
    exact readsBack_of_readWord exists_nullText_cons fun rest _ => readWord_null rest
  | bool b =>
    exact readsBack_of_readWord (exists_boolText_cons b) fun rest _ => readWord_bool b rest
  | int short =>
    exact readsBack_of_readWord (exists_intText_cons _) fun rest => readWord_intText short
  | text s => exact readsBack_text s
  | list parts ih => exact readsBack_list parts ih
  | object keys distinct parts ih => exact readsBack_object keys distinct ih

end

/-- A value that is written in a layout is what the text is read as. -/
theorem parseWithin_write {v : Value} (plain : IsPlain limit v) {l : Layout} (spaced : l.IsSpaced) :
    parseWithin limit (write l v) = .ok v := by
  have read := readsBack_of_isPlain plain l spaced (2 * (write l v).toList.length + 2) [] []
    (by simp [AllBlank]) (by omega) (by simp [Stops])
  rw [List.nil_append, List.append_nil] at read
  exact bind_eq_ok.mpr ⟨_, read, rfl⟩

end ClientGen.Json
