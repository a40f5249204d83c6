import Mathlib.Data.List.Flatten
import ClientGen.Json.Reader
import ClientGen.Proofs.TokenScan
import ClientGen.Proofs.TrimmedLines

/-!
# String literals

The value of a string literal is a list of sixteen bit units. `StringLiteral.value?` reads it from
behind the opening quote, one character at a time: a backslash starts an escape, the first quote
outside of escapes ends the literal, and a line break outside of escapes leaves it open.

What is written between quotes as it is reads as itself if it is plain (`value?_of_plain`). No other
text does: an escape stands for less than it takes (`length_read`), so a text that reads as itself
has none (`plain_of_length_le`), and an end that is escaped leads on to another end
(`read_of_reads`).
-/
namespace ClientGen.StringLiteral

def unitsOf (n : Nat) : List Nat :=
  if n < 0x10000 then [n] else [0xD800 + (n - 0x10000) / 0x400, 0xDC00 + (n - 0x10000) % 0x400]

def encode (s : List Char) : List Nat := s.flatMap fun c => unitsOf c.toNat

inductive Place where
  | inside
  /-- Behind a backslash. -/
  | escaped
  /-- In a number with `more` digits behind the next one. -/
  | digits (more value : Nat)
  /-- Behind the letter of an escape by code point. -/
  | unicode
  /-- In a number between braces; `none` before its first digit. -/
  | braced (value : Option Nat)
  /-- Behind an escaped zero, which is not the start of a number. -/
  | zero
  /-- Behind an escaped carriage return, which a line feed belongs to. -/
  | carriage
  | closed
  deriving DecidableEq, Repr

def letters : List (Char × Nat) :=
  [('b', 0x08), ('t', 0x09), ('n', 0x0A), ('v', 0x0B), ('f', 0x0C), ('r', 0x0D)]

/-- Whether an escaped character continues the literal on the next line. -/
def continuesLine (c : Char) : Bool := c == '\n' || c == '\u2028' || c == '\u2029'

/-- Reads a character outside of escapes: its units, and the place behind it. -/
def stepInside (quote c : Char) : Option (List Nat × Place) :=
  if c = quote then some ([], .closed)
  else if c = '\\' then some ([], .escaped)
  else if Token.isLineBreak c then none
  else some (unitsOf c.toNat, .inside)

def stepEscaped (c : Char) : Option (List Nat × Place) :=
  match letters.lookup c with
  | some unit => some ([unit], .inside)
  | none =>
    if c = 'x' then some ([], .digits 1 0)
    else if c = 'u' then some ([], .unicode)
    else if c = '0' then some ([0], .zero)
    else if Json.isDigit c then none
    else if c = '\r' then some ([], .carriage)
    else if continuesLine c then some ([], .inside)
    else some (unitsOf c.toNat, .inside)

def stepDigits (more value : Nat) (c : Char) : Option (List Nat × Place) := do
  let value := value * 16 + (← Json.hexValue? c)
  match more with
  | 0 => return ([value], .inside)
  | more + 1 => return ([], .digits more value)

def stepBraced (value : Option Nat) (c : Char) : Option (List Nat × Place) :=
  if c = '\x7d' then value.map fun n => (unitsOf n, .inside)
  else do
    let value := value.getD 0 * 16 + (← Json.hexValue? c)
    if value < 0x110000 then return ([], .braced (some value)) else none

def step (quote : Char) (place : Place) (c : Char) : Option (List Nat × Place) :=
  match place with
  | .inside => stepInside quote c
  | .escaped => stepEscaped c
  | .digits more value => stepDigits more value c
  | .unicode => if c = '\x7b' then some ([], .braced none) else stepDigits 3 0 c
  | .braced value => stepBraced value c
  | .zero => if Json.isDigit c then none else stepInside quote c
  | .carriage => if c = '\n' then some ([], .inside) else stepInside quote c
  | .closed => some ([], .closed)

/-- Reads a text from a place: its units, and the place behind it. -/
def read (quote : Char) : Place → List Char → Option (List Nat × Place)
  | place, [] => some ([], place)
  | place, c :: rest => do
    let (units, next) ← step quote place c
    let (others, last) ← read quote next rest
    return (units ++ others, last)

def value? (quote : Char) (s : List Char) : Option (List Nat) := do
  let (units, last) ← read quote .inside s
  if last = .closed then return units else none

/-- A character stands for itself between quotes. -/
def IsPlain (quote c : Char) : Prop := c ≠ quote ∧ c ≠ '\\' ∧ Token.isLineBreak c = false

instance (quote c : Char) : Decidable (IsPlain quote c) :=
  inferInstanceAs (Decidable (_ ∧ _ ∧ _))

def Plain (quote : Char) (s : List Char) : Prop := ∀ c ∈ s, IsPlain quote c

instance (quote : Char) (s : List Char) : Decidable (Plain quote s) :=
  List.decidableBAll (IsPlain quote) s

theorem plain_append {quote : Char} {s t : List Char} :
    Plain quote (s ++ t) ↔ Plain quote s ∧ Plain quote t :=
  List.forall_mem_append

variable {quote c : Char} {place next last : Place} {units : List Nat} {s t : List Char}

@[simp] theorem encode_nil : encode [] = [] := rfl

@[simp] theorem encode_cons (c : Char) (s : List Char) :
    encode (c :: s) = unitsOf c.toNat ++ encode s := rfl

@[simp] theorem encode_append (s t : List Char) : encode (s ++ t) = encode s ++ encode t :=
  List.flatMap_append

theorem length_unitsOf (n : Nat) : 1 ≤ (unitsOf n).length ∧ (unitsOf n).length ≤ 2 := by
  unfold unitsOf
  split <;> simp

/-- The last unit of a character is that of a backslash for the backslash only. -/
theorem getLast?_unitsOf_ne (other : c ≠ '\\') : (unitsOf c.toNat).getLast? ≠ some 0x5C := by
  unfold unitsOf
  split
  · intro same
    have code : c.toNat = 0x5C := by simpa using same
    exact other (by rw [← Char.ofNat_toNat c, code])
  · simp
    omega

theorem read_cons_eq_some {others : List Nat} :
    read quote place (c :: s) = some (others, last) ↔
      ∃ units next more, step quote place c = some (units, next) ∧
        read quote next s = some (more, last) ∧ units ++ more = others := by
  simp only [read, Option.bind_eq_bind, Option.bind_eq_some_iff, Option.pure_def,
    Option.some.injEq, Prod.mk.injEq, Prod.exists]
  grind

/-- A text is read in two parts, the second one from the place behind the first. -/
theorem read_append_eq_some {others : List Nat} :
    read quote place (s ++ t) = some (others, last) ↔
      ∃ units next more, read quote place s = some (units, next) ∧
        read quote next t = some (more, last) ∧ units ++ more = others := by
  induction s generalizing place others with
  | nil => simp [read]
  | cons c s ih =>
    rw [List.cons_append]
    constructor
    · intro whole
      obtain ⟨first, next, rest, stepped, behind, rfl⟩ := read_cons_eq_some.mp whole
      obtain ⟨units, between, more, front, back, rfl⟩ := ih.mp behind
      exact ⟨first ++ units, between, more, read_cons_eq_some.mpr
        ⟨first, next, units, stepped, front, rfl⟩, back, List.append_assoc first units more⟩
    · rintro ⟨units, between, more, front, back, rfl⟩
      obtain ⟨first, next, rest, stepped, behind, rfl⟩ := read_cons_eq_some.mp front
      exact read_cons_eq_some.mpr ⟨first, next, rest ++ more, stepped,
        ih.mpr ⟨rest, between, more, behind, back, rfl⟩, (List.append_assoc first rest more).symm⟩

theorem value?_eq_some : value? quote s = some units ↔
    read quote .inside s = some (units, .closed) := by
  simp only [value?, Option.bind_eq_bind, Option.bind_eq_some_iff, Prod.exists]
  grind

theorem read_closed (quote : Char) (s : List Char) :
    read quote .closed s = some ([], .closed) := by
  induction s with
  | nil => rfl
  | cons c s ih => exact read_cons_eq_some.mpr ⟨[], .closed, [], rfl, ih, rfl⟩

/-- The units that a reader may still give for what it has read: a number between braces can stand
for two, and its closing brace is one. -/
def Place.owed : Place → Nat
  | .braced _ => 1
  | _ => 0

/-- What a character outside of escapes can do. -/
theorem stepInside_eq_some : stepInside quote c = some (units, next) ↔
    c = quote ∧ units = [] ∧ next = .closed ∨
    c ≠ quote ∧ c = '\\' ∧ units = [] ∧ next = .escaped ∨
    IsPlain quote c ∧ units = unitsOf c.toNat ∧ next = .inside := by
  unfold stepInside IsPlain
  grind

/-- What the character behind a backslash can do. -/
theorem of_stepEscaped (stepped : stepEscaped c = some (units, next)) :
    units.length ≤ (unitsOf c.toNat).length ∧ next.owed = 0 ∧ next ≠ .escaped := by
  have present := length_unitsOf c.toNat
  unfold stepEscaped at stepped
  grind [Place.owed]

/-- What a digit of a number of fixed length can do. -/
theorem of_stepDigits {more value : Nat}
    (stepped : stepDigits more value c = some (units, next)) :
    Json.hexValue? c ≠ none ∧ units.length ≤ 1 ∧ next.owed = 0 ∧ next ≠ .escaped := by
  obtain ⟨digit, isDigit, stepped⟩ := Option.bind_eq_some_iff.mp stepped
  cases more with
  | zero =>
    cases stepped
    simp [isDigit, Place.owed]
  | succ more =>
    cases stepped
    simp [isDigit, Place.owed]

/-- What a character of a number between braces can do. -/
theorem of_stepBraced {value : Option Nat}
    (stepped : stepBraced value c = some (units, next)) :
    (c = '\x7d' ∨ Json.hexValue? c ≠ none) ∧ units.length + next.owed ≤ 2 ∧
      next ≠ .escaped := by
  unfold stepBraced at stepped
  split at stepped
  · rename_i closes
    obtain ⟨n, -, given⟩ := Option.map_eq_some_iff.mp stepped
    cases given
    simp [closes, (length_unitsOf n).2, Place.owed]
  · obtain ⟨digit, isDigit, stepped⟩ := Option.bind_eq_some_iff.mp stepped
    dsimp only at stepped
    split at stepped
    · cases stepped
      simp [isDigit, Place.owed]
    · cases stepped

/-- A plain text stands for itself. -/
theorem read_plain (plain : Plain quote s) :
    read quote .inside s = some (encode s, .inside) := by
  induction s with
  | nil => rfl
  | cons c s ih =>
    obtain ⟨own, rest⟩ := List.forall_mem_cons.mp plain
    have stepped := stepInside_eq_some.mpr (.inr (.inr ⟨own, rfl, rfl⟩))
    exact read_cons_eq_some.mpr ⟨_, .inside, _, stepped, ih rest, rfl⟩

/-- A plain text between quotes reads as itself, whatever follows. -/
theorem value?_of_plain (plain : Plain quote s) (rest : List Char) :
    value? quote (s ++ quote :: rest) = some (encode s) := by
  refine value?_eq_some.mpr (read_append_eq_some.mpr
    ⟨encode s, .inside, [], read_plain plain, ?_, List.append_nil _⟩)
  exact read_cons_eq_some.mpr ⟨[], .closed, [], if_pos rfl, read_closed quote rest, rfl⟩

theorem length_stepInside (stepped : stepInside quote c = some (units, next)) :
    units.length + next.owed ≤ (unitsOf c.toNat).length := by
  rcases stepInside_eq_some.mp stepped with ⟨-, rfl, rfl⟩ | ⟨-, -, rfl, rfl⟩ | ⟨-, rfl, rfl⟩
  · exact Nat.zero_le _
  · exact Nat.zero_le _
  · exact Nat.le_refl _

/-- A step gives no more units than its character has, but for those that are owed. -/
theorem length_step (stepped : step quote place c = some (units, next)) :
    units.length + next.owed ≤ place.owed + (unitsOf c.toNat).length := by
  have present := (length_unitsOf c.toNat).1
  cases place with
  | inside => exact Nat.le_add_left_of_le (length_stepInside stepped)
  | escaped =>
    obtain ⟨short, settled, -⟩ := of_stepEscaped stepped
    omega
  | digits more value =>
    obtain ⟨-, short, settled, -⟩ := of_stepDigits stepped
    omega
  | unicode =>
    rw [step] at stepped
    split at stepped
    · cases stepped
      exact Nat.le_add_left_of_le present
    · obtain ⟨-, short, settled, -⟩ := of_stepDigits stepped
      omega
  | braced value =>
    obtain ⟨-, short, -⟩ := of_stepBraced stepped
    rw [Place.owed]
    omega
  | zero =>
    rw [step] at stepped
    split at stepped
    · cases stepped
    · exact Nat.le_add_left_of_le (length_stepInside stepped)
  | carriage =>
    rw [step] at stepped
    split at stepped
    · cases stepped
      exact Nat.zero_le _
    · exact Nat.le_add_left_of_le (length_stepInside stepped)
  | closed =>
    cases stepped
    exact Nat.zero_le _

/-- A text stands for no more units than it has. -/
theorem length_read (success : read quote place s = some (units, last)) :
    units.length + last.owed ≤ place.owed + (encode s).length := by
  induction s generalizing place units with
  | nil =>
    cases success
    simp
  | cons c s ih =>
    obtain ⟨first, next, more, stepped, behind, rfl⟩ := read_cons_eq_some.mp success
    have own := length_step stepped
    have rest := ih behind
    simp only [encode_cons, List.length_append]
    omega

/-- A text that stands for as many units as it has is plain: it neither ends the literal nor has
escapes. -/
theorem plain_of_length_le (success : read quote .inside s = some (units, last))
    (enough : (encode s).length ≤ units.length) : Plain quote s := by
  induction s generalizing units with
  | nil => simp [Plain]
  | cons c s ih =>
    obtain ⟨first, next, more, stepped, behind, rfl⟩ := read_cons_eq_some.mp success
    have present := (length_unitsOf c.toNat).1
    have rest := length_read behind
    simp only [encode_cons, List.length_append] at enough
    rcases stepInside_eq_some.mp stepped with
      ⟨-, rfl, rfl⟩ | ⟨-, -, rfl, rfl⟩ | ⟨plain, rfl, rfl⟩
    · -- the literal ends here, and nothing is read behind its end
      rw [read_closed] at behind
      cases behind
      rw [List.length_nil] at enough
      omega
    · -- a backslash gives no unit
      have unowed : Place.escaped.owed = 0 := rfl
      rw [List.length_nil] at enough
      omega
    · exact List.forall_mem_cons.mpr ⟨plain, ih behind (by omega)⟩

/-- A quote ends the literal, unless it is escaped. -/
theorem step_quote (isQuote : Token.isQuote quote = true)
    (stepped : step quote place quote = some (units, next)) :
    units = [] ∧ next = .closed ∨ place = .escaped ∧ next = .inside := by
  have either : quote = '\x27' ∨ quote = '"' := by simpa [Token.isQuote] using isQuote
  have noDigit : Json.hexValue? quote = none := by
    rcases either with rfl | rfl <;> rfl
  have ends (inside : stepInside quote quote = some (units, next)) :
      units = [] ∧ next = .closed := by
    rw [stepInside, if_pos rfl] at inside
    cases inside
    exact ⟨rfl, rfl⟩
  cases place with
  | inside => exact .inl (ends stepped)
  | escaped =>
    have taken : stepEscaped quote = some (unitsOf quote.toNat, .inside) := by
      rcases either with rfl | rfl <;> rfl
    rw [step, taken] at stepped
    cases stepped
    exact .inr ⟨rfl, rfl⟩
  | digits more value => exact absurd noDigit (of_stepDigits stepped).1
  | unicode =>
    rw [step] at stepped
    split at stepped
    · rename_i brace
      rcases either with rfl | rfl <;> cases brace
    · exact absurd noDigit (of_stepDigits stepped).1
  | braced value =>
    rcases (of_stepBraced stepped).1 with brace | isDigit
    · rcases either with rfl | rfl <;> cases brace
    · exact absurd noDigit isDigit
  | zero =>
    rw [step] at stepped
    split at stepped
    · cases stepped
    · exact .inl (ends stepped)
  | carriage =>
    rw [step] at stepped
    split at stepped
    · rename_i feed
      rcases either with rfl | rfl <;> cases feed
    · exact .inl (ends stepped)
  | closed =>
    cases stepped
    exact .inl ⟨rfl, rfl⟩

theorem backslash_of_stepInside (stepped : stepInside quote c = some (units, .escaped)) :
    c = '\\' := by
  rcases stepInside_eq_some.mp stepped with ⟨-, -, other⟩ | ⟨-, same, -, -⟩ | ⟨-, -, other⟩
  · cases other
  · exact same
  · cases other

/-- Only a backslash escapes what follows. -/
theorem backslash_of_step (stepped : step quote place c = some (units, .escaped)) : c = '\\' := by
  cases place with
  | inside => exact backslash_of_stepInside stepped
  | escaped => exact absurd rfl (of_stepEscaped stepped).2.2
  | digits more value => exact absurd rfl (of_stepDigits stepped).2.2.2
  | unicode =>
    rw [step] at stepped
    split at stepped
    · cases stepped
    · exact absurd rfl (of_stepDigits stepped).2.2.2
  | braced value => exact absurd rfl (of_stepBraced stepped).2.2
  | zero =>
    rw [step] at stepped
    split at stepped
    · cases stepped
    · exact backslash_of_stepInside stepped
  | carriage =>
    rw [step] at stepped
    split at stepped
    · cases stepped
    · exact backslash_of_stepInside stepped
  | closed => cases stepped

theorem getLast?_of_escaped (success : read quote .inside s = some (units, .escaped)) :
    s.getLast? = some '\\' := by
  rcases List.eq_nil_or_concat s with rfl | ⟨front, c, rfl⟩
  · cases success
  · rw [List.concat_eq_append] at success ⊢
    obtain ⟨_, between, _, -, back, -⟩ := read_append_eq_some.mp success
    obtain ⟨_, next, _, stepped, behind, -⟩ := read_cons_eq_some.mp back
    cases behind
    rw [List.getLast?_concat, backslash_of_step stepped]

/-- What follows a literal: plain characters up to the end of the line or to another quote. -/
def StopsPlainly (quote : Char) (tail : List Char) : Prop :=
  ∃ front c d rest, tail = front ++ c :: d :: rest ∧ Plain quote (front ++ [c]) ∧
    (d = '\n' ∨ d = quote)

/-- What follows a literal: plain characters, of which the last is not blank, up to the end of the
line or to another quote. -/
def EndsPlainly (quote : Char) (tail : List Char) : Prop :=
  ∃ front c d rest, tail = front ++ c :: d :: rest ∧ Plain quote (front ++ [c]) ∧
    Text.isBlank c = false ∧ (d = '\n' ∨ d = quote)

theorem EndsPlainly.stops {tail : List Char} (ends : EndsPlainly quote tail) :
    StopsPlainly quote tail := by
  obtain ⟨front, c, d, rest, parts, plain, -, stop⟩ := ends
  exact ⟨front, c, d, rest, parts, plain, stop⟩

/-- The units of a text end with the last unit of its last character. -/
theorem getLast?_encode_concat (s : List Char) (c : Char) :
    (encode (s ++ [c])).getLast? = (unitsOf c.toNat).getLast? := by
  have present := (length_unitsOf c.toNat).1
  rw [encode_append, encode_cons, encode_nil, List.append_nil]
  exact List.getLast?_append_of_ne_nil _ (List.ne_nil_of_length_pos present)

/-- A literal that goes on with what stops plainly ends with the last of its plain characters, if it
ends at all. -/
theorem getLast?_of_stopsPlainly {tail : List Char} (isQuote : Token.isQuote quote = true)
    (stops : StopsPlainly quote tail) (success : read quote .inside tail = some (units, .closed)) :
    ∃ c, c ≠ '\\' ∧ units ≠ [] ∧ units.getLast? = (unitsOf c.toNat).getLast? := by
  obtain ⟨front, c, d, rest, rfl, plain, stop⟩ := stops
  have split : front ++ c :: d :: rest = (front ++ [c]) ++ d :: rest := by simp
  rw [split] at success
  obtain ⟨own, next, more, first, second, rfl⟩ := read_append_eq_some.mp success
  rw [read_plain plain] at first
  cases first
  obtain ⟨given, next, others, stepped, behind, rfl⟩ := read_cons_eq_some.mp second
  have closes : given = [] ∧ next = .closed := by
    rcases stop with rfl | rfl
    · rcases stepInside_eq_some.mp stepped with ⟨-, ended⟩ | ⟨-, other, -⟩ | ⟨unbroken, -⟩
      · exact ended
      · cases other
      · cases unbroken.2.2
    · rcases step_quote isQuote stepped with ended | ⟨other, -⟩
      · exact ended
      · cases other
  obtain ⟨rfl, rfl⟩ := closes
  rw [read_closed] at behind
  cases behind
  have last := getLast?_encode_concat front c
  refine ⟨c, (plain c (by simp)).2.1, ?_, by simpa using last⟩
  have present : unitsOf c.toNat ≠ [] := List.ne_nil_of_length_pos (length_unitsOf c.toNat).1
  simp [present]

/-- A text that is written between quotes as `written` and reads as `s` ends at the quote behind it,
provided that `s` ends with a backslash where `written` does. -/
theorem read_of_reads {written tail : List Char} (isQuote : Token.isQuote quote = true)
    (stops : StopsPlainly quote tail)
    (sameEnd : written.getLast? = some '\\' → s.getLast? = some '\\')
    (reads : value? quote (written ++ quote :: tail) = some (encode s)) :
    ∃ place, read quote .inside written = some (encode s, place) := by
  obtain ⟨units, place, more, first, second, whole⟩ :=
    read_append_eq_some.mp (value?_eq_some.mp reads)
  obtain ⟨given, next, others, stepped, behind, rfl⟩ := read_cons_eq_some.mp second
  rcases step_quote isQuote stepped with ⟨rfl, rfl⟩ | ⟨rfl, rfl⟩
  · -- the literal ends at the latest with this quote
    rw [read_closed] at behind
    cases behind
    have same : units = encode s := by simpa using whole
    exact ⟨place, same ▸ first⟩
  · -- the quote is escaped, so that `s` ends with a backslash, but its units do not
    obtain ⟨front, rfl⟩ := List.getLast?_eq_some_iff.mp (sameEnd (getLast?_of_escaped first))
    obtain ⟨c, notBackslash, present, last⟩ := getLast?_of_stopsPlainly isQuote stops behind
    have ending : (encode (front ++ ['\\'])).getLast? = (unitsOf c.toNat).getLast? := by
      rw [← whole, ← List.append_assoc, List.getLast?_append_of_ne_nil _ present, last]
    rw [getLast?_encode_concat] at ending
    exact absurd ending.symm (getLast?_unitsOf_ne notBackslash)

/-- A text that is put between two plain ones ends plainly with what follows it, if it is plain. -/
theorem endsPlainly_around (before after : List Char) (c d : Char) (rest : List Char)
    {tail : List Char} (parts : tail = before ++ s ++ after ++ c :: d :: rest)
    (plain : Plain quote s) (opens : Plain quote before) (closes : Plain quote (after ++ [c]))
    (notBlank : Text.isBlank c = false) (stop : d = '\n' ∨ d = quote) :
    EndsPlainly quote tail := by
  refine ⟨before ++ s ++ after, c, d, rest, parts, ?_, notBlank, stop⟩
  rw [List.append_assoc]
  exact plain_append.mpr ⟨plain_append.mpr ⟨opens, plain⟩, closes⟩

theorem EndsPlainly.append {tail : List Char} (ends : EndsPlainly quote tail) (more : List Char) :
    EndsPlainly quote (tail ++ more) := by
  obtain ⟨front, c, d, rest, rfl, conditions⟩ := ends
  exact ⟨front, c, d, rest ++ more, by simp, conditions⟩

theorem feed_not_mem (plain : Plain quote s) : '\n' ∉ s :=
  fun member => absurd (plain '\n' member).2.2 (by decide)

theorem notBlank_of_isQuote (isQuote : Token.isQuote quote = true) :
    Text.isBlank quote = false := by
  have either : quote = '\x27' ∨ quote = '"' := by simpa [Token.isQuote] using isQuote
  rcases either with rfl | rfl <;> rfl

/-- Blanks at the ends of lines are no part of what ends plainly. -/
theorem EndsPlainly.trimmed {tail : List Char} (isQuote : Token.isQuote quote = true)
    (ends : EndsPlainly quote tail) : EndsPlainly quote (Text.trimmed true tail) := by
  obtain ⟨front, c, d, rest, rfl, plain, notBlank, stop⟩ := ends
  have within : '\n' ∉ front := feed_not_mem fun e member => plain e (List.mem_append_left _ member)
  have stays : Text.trimmed true (d :: rest) = d :: Text.trimmed true rest := by
    rcases stop with rfl | rfl
    · exact Text.trimmed_cons_feed true rest
    · exact Text.trimmed_append_cons true (notBlank_of_isQuote isQuote) [] rest
  rw [Text.trimmed_append_cons true notBlank, Text.trimmed_of_absent within, stays]
  exact ⟨front, c, d, Text.trimmed true rest, rfl, plain, notBlank, stop⟩

/-- A text that is written between quotes as it is reads as itself exactly if it is plain, also if
the blanks at the ends of lines are dropped. -/
theorem value?_trimmed_iff {tail : List Char} (isQuote : Token.isQuote quote = true)
    (ends : EndsPlainly quote tail) :
    value? quote (Text.trimmed true (s ++ quote :: tail)) = some (encode s) ↔ Plain quote s := by
  rw [Text.trimmed_append_cons true (notBlank_of_isQuote isQuote)]
  constructor
  · intro reads
    have shorter := ((Text.trimmed_sublist false s).flatMap fun c => unitsOf c.toNat).length_le
    obtain ⟨place, first⟩ := read_of_reads isQuote (ends.trimmed isQuote).stops
      (Text.getLast?_trimmed s ▸ id) reads
    have plain := plain_of_length_le first shorter
    have within : '\n' ∉ s := Text.mem_trimmed_feed.not.mp (feed_not_mem plain)
    rwa [Text.trimmed_of_absent within] at plain
  · intro plain
    rw [Text.trimmed_of_absent (feed_not_mem plain)]
    exact value?_of_plain plain _

end ClientGen.StringLiteral
