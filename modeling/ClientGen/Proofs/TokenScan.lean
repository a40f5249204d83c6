import ClientGen.Json.Reader
import ClientGen.Proofs.TypeTree

/-!
# The tokens of a written type

`Token.scan` cuts a text into words, literals between quotes, and marks. A word ends where no word
character follows (`scan_word`), and a literal gives back what was put between its quotes
(`scan_inside`). What a scan gives as a word is one, and its literals hold no line break
(`valid_of_scan`).
-/
namespace ClientGen

namespace Token

def isWordChar (c : Char) : Bool :=
  Naming.isBare c || c == '.' || c == '+' || c == '-'

def isQuote (c : Char) : Bool := c == '\x27' || c == '"'

def isLineBreak (c : Char) : Bool := c == '\n' || c == '\r'

def isMark (c : Char) : Bool := "|&<>[]\x7b\x7d,:?".toList.contains c

/-- Puts a character in front of the tokens of `rest`: a word goes on as long as there are word
characters. -/
def extendWord (c : Char) (rest : List Char) (tokens : List Token) : List Token :=
  match Naming.startsWith isWordChar rest, tokens with
  | true, .word s :: more => .word (c :: s) :: more
  | _, tokens => .word [c] :: tokens

/-- Puts a character in front of the literal that comes first. -/
def extendQuoted (c : Char) : List Token → List Token
  | .quoted s :: more => .quoted (c :: s) :: more
  | tokens => tokens

/-- Where in a text a scan is: outside of literals, inside of one, or behind a backslash there. -/
inductive Position where
  | outside
  | inside (quote : Char)
  | escaped (quote : Char)

/-- The tokens of a text. Of the escapes only those of quotes and of the backslash itself are
read. -/
def scan : Position → List Char → Option (List Token)
  | .outside, [] => some []
  | _, [] => none
  | .outside, c :: rest =>
    if Json.isBlank c then scan .outside rest
    else if isQuote c then scan (.inside c) rest
    else if isWordChar c then (scan .outside rest).map (extendWord c rest)
    else if isMark c then (scan .outside rest).map (.mark c :: ·)
    else none
  | .inside quote, c :: rest =>
    if c = quote then (scan .outside rest).map (.quoted [] :: ·)
    else if c = '\\' then scan (.escaped quote) rest
    else if isLineBreak c then none
    else (scan (.inside quote) rest).map (extendQuoted c)
  | .escaped quote, c :: rest =>
    if c = '\\' || isQuote c then (scan (.inside quote) rest).map (extendQuoted c) else none

def IsWord (s : List Char) : Prop := s ≠ [] ∧ ∀ c ∈ s, isWordChar c = true

instance (s : List Char) : Decidable (IsWord s) :=
  decidable_of_iff (s ≠ [] ∧ s.all isWordChar = true) (by simp [IsWord])

def Unbroken (s : List Char) : Prop := ∀ c ∈ s, isLineBreak c = false

def Valid : Token → Prop
  | .word s => IsWord s
  | .quoted s => Unbroken s
  | .mark _ => True

theorem of_isWordChar {c : Char} (word : isWordChar c = true) :
    Json.isBlank c = false ∧ isQuote c = false ∧ isLineBreak c = false := by
  have other : ∀ d, isWordChar d = false → c ≠ d := by
    rintro d no rfl
    rw [word] at no
    cases no
  have space := other ' ' (by decide)
  have tab := other '\t' (by decide)
  have feed := other '\n' (by decide)
  have back := other '\r' (by decide)
  have single := other '\x27' (by decide)
  have double := other '"' (by decide)
  simp [Json.isBlank, isQuote, isLineBreak, space, tab, feed, back, single, double]

theorem scan_blank {c : Char} (blank : Json.isBlank c = true) (rest : List Char) :
    scan .outside (c :: rest) = scan .outside rest := by
  rw [scan, if_pos blank]

theorem scan_wordChar {c : Char} (word : isWordChar c = true) (rest : List Char) :
    scan .outside (c :: rest) = (scan .outside rest).map (extendWord c rest) := by
  obtain ⟨blank, quote, -⟩ := of_isWordChar word
  simp [scan, blank, quote, word]

theorem scan_mark {c : Char} (mark : isMark c = true) (rest : List Char) :
    scan .outside (c :: rest) = (scan .outside rest).map (.mark c :: ·) := by
  have plain : "|&<>[]\x7b\x7d,:?".toList.all
      (fun d => !Json.isBlank d && !isQuote d && !isWordChar d) = true := by decide
  have own := List.all_eq_true.mp plain c (by simpa [isMark] using mark)
  obtain ⟨⟨blank, quote⟩, word⟩ : (Json.isBlank c = false ∧ isQuote c = false) ∧
      isWordChar c = false := by simpa using own
  simp [scan, blank, quote, word, mark]

/-- A word is scanned as one token, unless it goes on behind its end. -/
theorem scan_word {s rest : List Char} (word : IsWord s)
    (ends : Naming.startsWith isWordChar rest = false) :
    scan .outside (s ++ rest) = (scan .outside rest).map (.word s :: ·) := by
  obtain ⟨present, chars⟩ := word
  induction s with
  | nil => exact absurd rfl present
  | cons c s ih =>
    rw [List.cons_append, scan_wordChar (chars c List.mem_cons_self)]
    cases s with
    | nil =>
      have alone : extendWord c rest = (.word [c] :: ·) := by
        funext tokens
        simp [extendWord, ends]
      rw [List.nil_append, alone]
    | cons d s =>
      have goesOn : Naming.startsWith isWordChar (d :: s ++ rest) = true := chars d (by simp)
      have tail := ih (List.cons_ne_nil d s) fun e member => chars e (List.mem_cons_of_mem c member)
      rw [tail, Option.map_map]
      congr 1
      funext tokens
      rw [Function.comp_apply, extendWord]
      exact goesOn

/-- What is written between quotes is scanned as it was before. -/
theorem scan_inside {quote : Char} (isQuote : isQuote quote = true) {s : List Char}
    (unbroken : Unbroken s) (rest : List Char) :
    scan (.inside quote) (s.flatMap (Naming.escapeFor quote) ++ quote :: rest) =
      (scan .outside rest).map (.quoted s :: ·) := by
  have notBackslash : '\\' ≠ quote := by
    rintro rfl
    cases isQuote
  induction s with
  | nil =>
    rw [List.flatMap_nil, List.nil_append, scan, if_pos rfl]
  | cons c s ih =>
    have plain := unbroken c List.mem_cons_self
    have tail := ih fun d member => unbroken d (List.mem_cons_of_mem c member)
    have extended : Option.map (extendQuoted c) (Option.map (.quoted s :: ·) (scan .outside rest)) =
        (scan .outside rest).map (.quoted (c :: s) :: ·) :=
      Option.map_map ..
    rw [List.flatMap_cons, List.append_assoc, Naming.escapeFor]
    by_cases escaped : c = '\\' ∨ c = quote
    · have readable : (decide (c = '\\') || Token.isQuote c) = true := by
        rcases escaped with rfl | rfl
        · rfl
        · rw [isQuote, Bool.or_true]
      simp only [Bool.or_eq_true, decide_eq_true_eq, escaped, if_true, List.cons_append,
        List.nil_append]
      rw [scan, if_neg notBackslash, if_pos rfl, scan, if_pos readable, tail, extended]
    · obtain ⟨notEscape, notQuote⟩ := not_or.mp escaped
      simp only [Bool.or_eq_true, decide_eq_true_eq, escaped, if_false, List.cons_append,
        List.nil_append]
      rw [scan, if_neg notQuote, if_neg notEscape, plain, if_neg Bool.false_ne_true, tail, extended]

theorem valid_extendWord {c : Char} {rest : List Char} {tokens : List Token}
    (word : isWordChar c = true) (valid : ∀ k ∈ tokens, k.Valid) :
    ∀ k ∈ extendWord c rest tokens, k.Valid := by
  unfold extendWord
  split
  · rename_i s more _
    obtain ⟨own, later⟩ := List.forall_mem_cons.mp valid
    refine List.forall_mem_cons.mpr ⟨⟨List.cons_ne_nil c s, ?_⟩, later⟩
    exact List.forall_mem_cons.mpr ⟨word, own.2⟩
  · refine List.forall_mem_cons.mpr ⟨⟨List.cons_ne_nil c [], ?_⟩, valid⟩
    simpa using word

theorem valid_extendQuoted {c : Char} {tokens : List Token} (plain : isLineBreak c = false)
    (valid : ∀ k ∈ tokens, k.Valid) : ∀ k ∈ extendQuoted c tokens, k.Valid := by
  unfold extendQuoted
  split
  · obtain ⟨own, later⟩ := List.forall_mem_cons.mp valid
    exact List.forall_mem_cons.mpr ⟨List.forall_mem_cons.mpr ⟨plain, own⟩, later⟩
  · exact valid

/-- A scan gives words that are words and literals without line breaks. -/
theorem valid_of_scan {position : Position} {s : List Char} {tokens : List Token}
    (scanned : scan position s = some tokens) : ∀ k ∈ tokens, k.Valid := by
  induction s generalizing position tokens with
  | nil =>
    cases position with
    | outside =>
      cases scanned
      simp
    | _ => cases scanned
  | cons c rest ih =>
    cases position with
    | outside =>
      rw [scan] at scanned
      split at scanned
      · exact ih scanned
      · split at scanned
        · exact ih scanned
        · split at scanned
          · rename_i word
            obtain ⟨later, found, rfl⟩ := Option.map_eq_some_iff.mp scanned
            exact valid_extendWord word (ih found)
          · split at scanned
            · obtain ⟨later, found, rfl⟩ := Option.map_eq_some_iff.mp scanned
              exact List.forall_mem_cons.mpr ⟨trivial, ih found⟩
            · cases scanned
    | inside quote =>
      rw [scan] at scanned
      split at scanned
      · obtain ⟨later, found, rfl⟩ := Option.map_eq_some_iff.mp scanned
        refine List.forall_mem_cons.mpr ⟨?_, ih found⟩
        simp [Valid, Unbroken]
      · split at scanned
        · exact ih scanned
        · split at scanned
          · cases scanned
          · rename_i plain
            obtain ⟨later, found, rfl⟩ := Option.map_eq_some_iff.mp scanned
            exact valid_extendQuoted (Bool.eq_false_iff.mpr plain) (ih found)
    | escaped quote =>
      rw [scan] at scanned
      split at scanned
      · rename_i readable
        have plain : isLineBreak c = false := by
          have known : c = '\\' ∨ c = '\x27' ∨ c = '"' := by simpa [isQuote] using readable
          rcases known with rfl | rfl | rfl <;> rfl
        obtain ⟨later, found, rfl⟩ := Option.map_eq_some_iff.mp scanned
        exact valid_extendQuoted plain (ih found)
      · cases scanned

/-- A text is scanned as the tokens, unless its last word goes on behind it. -/
def Spells (s : List Char) (tokens : List Token) : Prop :=
  ∀ rest, Naming.startsWith isWordChar rest = false →
    scan .outside (s ++ rest) = (scan .outside rest).map (tokens ++ ·)

/-- A text is scanned as the tokens, whatever comes behind it. -/
def Delimits (s : List Char) (tokens : List Token) : Prop :=
  ∀ rest, scan .outside (s ++ rest) = (scan .outside rest).map (tokens ++ ·)

theorem Spells.scan_eq {s : List Char} {tokens : List Token} (spells : Spells s tokens) :
    scan .outside s = some tokens := by
  have whole := spells [] rfl
  simpa [scan] using whole

theorem spells_nil : Spells [] [] := by
  intro rest _
  simp

theorem spells_word {s : List Char} (word : IsWord s) : Spells s [.word s] :=
  fun _ ends => scan_word word ends

theorem delimits_blank {c : Char} (blank : Json.isBlank c = true) : Delimits [c] [] := by
  intro rest
  simpa using scan_blank blank rest

theorem delimits_mark {c : Char} (mark : isMark c = true) : Delimits [c] [.mark c] :=
  fun rest => scan_mark mark rest

theorem delimits_literal {quote : Char} (isQuote : isQuote quote = true) {s : String}
    (unbroken : Unbroken s.toList) :
    Delimits (Naming.literal quote s).toList [.quoted s.toList] := by
  intro rest
  have opened : Json.isBlank quote = false := by
    have known : quote = '\x27' ∨ quote = '"' := by simpa [Token.isQuote] using isQuote
    rcases known with rfl | rfl <;> rfl
  have inside := scan_inside isQuote unbroken rest
  rw [Naming.literal, String.toList_ofList, List.cons_append, List.cons_append, List.append_assoc]
  rw [scan, opened, if_neg Bool.false_ne_true, if_pos isQuote]
  exact inside

section Pieces

variable {s more : List Char} {tokens others : List Token}

theorem Delimits.spells (delimits : Delimits s tokens) : Spells s tokens :=
  fun rest _ => delimits rest

theorem Delimits.append (first : Delimits s tokens) (second : Delimits more others) :
    Delimits (s ++ more) (tokens ++ others) := by
  intro rest
  rw [List.append_assoc, first, second, Option.map_map]
  congr 1
  funext behind
  exact (List.append_assoc tokens others behind).symm

theorem Delimits.append_spells (first : Delimits s tokens) (second : Spells more others) :
    Spells (s ++ more) (tokens ++ others) := by
  intro rest ends
  rw [List.append_assoc, first, second rest ends, Option.map_map]
  congr 1
  funext behind
  exact (List.append_assoc tokens others behind).symm

/-- A word ends where something comes behind it that starts with no word character. -/
theorem Spells.append {c : Char} (first : Spells s tokens) (ends : isWordChar c = false)
    (second : Delimits (c :: more) others) : Delimits (s ++ c :: more) (tokens ++ others) := by
  intro rest
  have behind : Naming.startsWith isWordChar (c :: more ++ rest) = false := ends
  rw [List.append_assoc, first _ behind, second, Option.map_map]
  congr 1
  funext behind
  exact (List.append_assoc tokens others behind).symm

end Pieces

/-- Texts with a separator between each two are scanned with its mark between each two. -/
theorem spells_intercalate {c d : Char} {gap : List Char} (ends : isWordChar d = false)
    (delimits : Delimits (d :: gap) [.mark c]) {pieces : List (List Char)}
    {tokens : List (List Token)} (each : List.Forall₂ Spells pieces tokens) :
    Spells ((d :: gap).intercalate pieces) (separated c tokens) := by
  induction each with
  | nil => exact spells_nil
  | @cons s ks pieces tokens first later ih =>
    cases later with
    | nil => simpa using first
    | @cons t ls pieces tokens second later =>
      have front := (first.append ends delimits).append_spells ih
      rw [List.intercalate_cons_cons, separated_cons_cons]
      simpa using front

end Token

end ClientGen
