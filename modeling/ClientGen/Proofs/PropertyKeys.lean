import ClientGen.Proofs.EscapedLiterals

/-!
# The keys of properties

A property is declared under its name where that is an identifier, and else under a literal between
double quotes. Such a key belongs to one name alone (`Naming.IsKeyOf.unique`). A line feed at the
end of a name is passed over when it is decided whether the name is an identifier. Just the names
that end so are written as no key of theirs, and what is written declares the property without the
line feed (`Naming.property_key_iff`).
-/
namespace ClientGen.Naming

/-- A list of ASCII letters, digits, `_` and `$`, in which no digit comes first. -/
def IsIdentifier (s : List Char) : Prop :=
  (∃ c, s.head? = some c ∧ ¬('0' ≤ c ∧ c ≤ '9')) ∧ ∀ c ∈ s, isBare c = true

def IsIdentifierLine (s : List Char) : Prop := ∃ front, s = front ++ ['\n'] ∧ IsIdentifier front

/-- The key is one for the name: the name itself, which is an identifier, or a literal that reads as
the name and ends with the key. -/
def IsKeyOf (name key : String) : Prop :=
  key = name ∧ IsIdentifier name.toList ∨
    ∃ inside, key.toList = '"' :: inside ∧ Escaped.literal? '"' inside = some (name.toList, [])

/-- The name of the property that a key declares in the generated code: the value of a literal, or
the identifier, behind which there may be blanks. -/
def declared? (key : List Char) : Option (List Nat) :=
  match key with
  | '"' :: inside => StringLiteral.value? '"' inside
  | key =>
    if (key.dropWhile isBare).all Text.isBlank then
      some (StringLiteral.encode (key.takeWhile isBare))
    else none

variable {c : Char} {s : List Char} {name other key : String}

theorem isBareStart_iff : isBareStart c = true ↔ isBare c = true ∧ ¬('0' ≤ c ∧ c ≤ '9') := by
  have dollar : c = '$' → ¬('0' ≤ c ∧ c ≤ '9') := by
    rintro rfl
    decide
  simp only [isBareStart, isBare, Bool.or_eq_true, Bool.and_eq_true, Bool.not_eq_true',
    Bool.and_eq_false_iff, decide_eq_false_iff_not, beq_iff_eq, not_and_or]
  tauto

theorem isIdentifier_cons :
    IsIdentifier (c :: s) ↔ isBareStart c = true ∧ s.all isBare = true := by
  simp only [IsIdentifier, List.head?_cons, Option.some.injEq, exists_eq_left',
    List.forall_mem_cons, isBareStart_iff, List.all_eq_true]
  tauto

theorem isIdentifierLine_cons : IsIdentifierLine (c :: s) ↔
    isBareStart c = true ∧ s.getLast? = some '\n' ∧ s.dropLast.all isBare = true := by
  constructor
  · rintro ⟨front, same, identifier⟩
    cases front with
    | nil => simp [IsIdentifier] at identifier
    | cons d more =>
      obtain ⟨rfl, rfl⟩ := List.cons.inj same
      obtain ⟨start, rest⟩ := isIdentifier_cons.mp identifier
      refine ⟨start, List.getLast?_concat, ?_⟩
      rwa [List.append_eq, List.dropLast_concat]
  · rintro ⟨start, last, rest⟩
    obtain ⟨more, rfl⟩ := List.getLast?_eq_some_iff.mp last
    rw [List.dropLast_concat] at rest
    exact ⟨c :: more, rfl, isIdentifier_cons.mpr ⟨start, rest⟩⟩

/-- The names that are written as they are: identifiers, also with a line feed behind them. -/
theorem isBareName_iff : isBareName s = true ↔ IsIdentifier s ∨ IsIdentifierLine s := by
  cases s with
  | nil => simp [isBareName, IsIdentifier, IsIdentifierLine]
  | cons c rest =>
    rw [isIdentifier_cons, isIdentifierLine_cons, ← and_or_left, isBareName]
    simp only [Bool.and_eq_true, Bool.or_eq_true, beq_iff_eq]

/-- An identifier has neither quotes nor line breaks. -/
theorem IsIdentifier.solid (identifier : IsIdentifier s) (member : c ∈ s) :
    c ≠ '"' ∧ Token.isLineBreak c = false := by
  have word : Token.isWordChar c = true := by simp [Token.isWordChar, identifier.2 c member]
  obtain ⟨-, noQuote, unbroken⟩ := Token.of_isWordChar word
  refine ⟨?_, unbroken⟩
  rintro rfl
  cases noQuote

theorem IsIdentifier.not_line (identifier : IsIdentifier s) : ¬IsIdentifierLine s := by
  rintro ⟨front, rfl, -⟩
  have feed := (identifier.solid (c := '\n') (by simp)).2
  cases feed

/-- What is written without quotes does not start with one. -/
theorem head?_ne_quote (bare : isBareName s = true) (inside : List Char) : s ≠ '"' :: inside := by
  rintro rfl
  cases bare

theorem propertyKey_of_bare (bare : isBareName name.toList = true) : propertyKey name = name :=
  if_pos bare

theorem toList_propertyKey_of_not_bare (quoted : isBareName name.toList = false) :
    (propertyKey name).toList = '"' :: (name.toList.flatMap (escapeFor '"') ++ ['"']) := by
  rw [propertyKey, quoted, if_neg Bool.false_ne_true, Escaped.toList_literal]

/-- A key is one for a single name. -/
theorem IsKeyOf.unique (first : IsKeyOf name key) (second : IsKeyOf other key) : name = other := by
  have apart {n m : String} (inside : List Char) (opened : key.toList = '"' :: inside) :
      ¬(key = n ∧ IsIdentifier n.toList) := by
    rintro ⟨rfl, identifier⟩
    exact (identifier.solid (c := '"') (by simp [opened])).1 rfl
  rcases first with ⟨rfl, own⟩ | ⟨inside, opened, read⟩
  · rcases second with ⟨rfl, -⟩ | ⟨inside, opened, -⟩
    · rfl
    · exact absurd ⟨rfl, own⟩ (apart (m := key) inside opened)
  · rcases second with bare | ⟨others, reopened, readToo⟩
    · exact absurd bare (apart (m := other) inside opened)
    · obtain rfl := (List.cons.inj (opened.symm.trans reopened)).2
      rw [read, Option.some.injEq, Prod.mk.injEq] at readToo
      exact String.toList_inj.mp readToo.1

/-- A property has a key of its name, unless that is an identifier with a line feed behind it. -/
theorem isKeyOf_propertyKey_iff :
    IsKeyOf name (propertyKey name) ↔ ¬IsIdentifierLine name.toList := by
  cases bare : isBareName name.toList with
  | false =>
    have noLine : ¬IsIdentifierLine name.toList := fun line => by
      rw [isBareName_iff.mpr (.inr line)] at bare
      cases bare
    refine iff_of_true (.inr ⟨_, toList_propertyKey_of_not_bare bare, ?_⟩) noLine
    exact Escaped.literal?_escaped (by decide) name.toList []
  | true =>
    rw [propertyKey_of_bare bare]
    constructor
    · rintro (⟨-, identifier⟩ | ⟨inside, opened, -⟩)
      · exact identifier.not_line
      · exact absurd opened (head?_ne_quote bare inside)
    · intro noLine
      exact .inl ⟨rfl, (isBareName_iff.mp bare).resolve_right noLine⟩

theorem declared?_of_bare (bare : isBareName s = true) : declared? s =
    if (s.dropWhile isBare).all Text.isBlank then
      some (StringLiteral.encode (s.takeWhile isBare))
    else none := by
  rw [declared?]
  exact fun inside opened => head?_ne_quote bare inside opened

/-- An identifier declares the property of its name. -/
theorem IsIdentifier.declared? (identifier : IsIdentifier s) :
    Naming.declared? s = some (StringLiteral.encode s) := by
  rw [declared?_of_bare (isBareName_iff.mpr (.inl identifier)),
    List.takeWhile_eq_self_iff.mpr identifier.2, List.dropWhile_eq_nil_iff.mpr identifier.2]
  rfl

/-- A line feed behind an identifier is no part of what it declares. -/
theorem IsIdentifier.declared?_line (identifier : IsIdentifier s) :
    Naming.declared? (s ++ ['\n']) = some (StringLiteral.encode s) := by
  have bare : isBareName (s ++ ['\n']) = true := isBareName_iff.mpr (.inr ⟨s, rfl, identifier⟩)
  rw [declared?_of_bare bare, List.takeWhile_append_of_pos identifier.2,
    List.dropWhile_append_of_pos identifier.2]
  simp [isBare, isWord, isAlnum, Text.isBlank]

/-- The key that is written for a property declares it exactly if its name has no line break. -/
theorem declared?_propertyKey_iff :
    declared? (propertyKey name).toList = some (StringLiteral.encode name.toList) ↔
      Token.Unbroken name.toList := by
  cases bare : isBareName name.toList with
  | false =>
    rw [toList_propertyKey_of_not_bare bare, declared?, StringLiteral.value?_escaped_iff rfl,
      and_iff_left rfl]
  | true =>
    rw [propertyKey_of_bare bare]
    rcases isBareName_iff.mp bare with identifier | ⟨front, same, identifier⟩
    · exact iff_of_true identifier.declared? fun c member => (identifier.solid member).2
    · rw [same, identifier.declared?_line]
      refine iff_of_false ?_ fun unbroken => ?_
      · simp [StringLiteral.unitsOf]
      · cases unbroken '\n' (by simp)

theorem propertyKey_injective : Function.Injective propertyKey := by
  intro name other same
  cases bare : isBareName name.toList with
  | false =>
    have opened := toList_propertyKey_of_not_bare bare
    cases bareToo : isBareName other.toList with
    | false =>
      have openedToo := toList_propertyKey_of_not_bare bareToo
      have noEscape : '"' ≠ '\\' := by decide
      have read := Escaped.literal?_escaped noEscape name.toList []
      rw [same, openedToo, List.cons.injEq] at opened
      rw [← opened.2, Escaped.literal?_escaped noEscape, Option.some.injEq,
        Prod.mk.injEq] at read
      exact (String.toList_inj.mp read.1).symm
    | true =>
      rw [same, propertyKey_of_bare bareToo] at opened
      exact absurd opened (head?_ne_quote bareToo _)
  | true =>
    rw [propertyKey_of_bare bare] at same
    cases bareToo : isBareName other.toList with
    | false =>
      have openedToo := toList_propertyKey_of_not_bare bareToo
      rw [← same] at openedToo
      exact absurd openedToo (head?_ne_quote bare _)
    | true => exact same.trans (propertyKey_of_bare bareToo)

/-- A property is written under a key of its name exactly if the name is no identifier with a line
feed behind it. What is written declares the property exactly if the name has no line break, and no
other name is written so. -/
theorem property_key_iff (name : String) :
    (IsKeyOf name (propertyKey name) ↔ ¬IsIdentifierLine name.toList) ∧
    (declared? (propertyKey name).toList = some (StringLiteral.encode name.toList) ↔
      Token.Unbroken name.toList) ∧
    ∀ other, propertyKey other = propertyKey name → other = name :=
  ⟨isKeyOf_propertyKey_iff, declared?_propertyKey_iff, fun _ same => propertyKey_injective same⟩

/-- A line feed behind an identifier is left without quotes, and the property of the identifier is
declared instead. -/
theorem property_key_line :
    propertyKey "id\n" = "id\n" ∧ ¬IsKeyOf "id\n" (propertyKey "id\n") ∧
    declared? (propertyKey "id\n").toList = declared? (propertyKey "id").toList := by
  have identifier : IsIdentifier "id".toList := isIdentifier_cons.mpr ⟨rfl, rfl⟩
  have line : "id\n".toList = "id".toList ++ ['\n'] := by decide
  have written : propertyKey "id\n" = "id\n" := by decide
  refine ⟨written, ?_, ?_⟩
  · rw [isKeyOf_propertyKey_iff, not_not]
    exact ⟨"id".toList, line, identifier⟩
  · have short : propertyKey "id" = "id" :=
      propertyKey_of_bare (isBareName_iff.mpr (.inl identifier))
    rw [written, line, short, identifier.declared?_line]
    exact identifier.declared?.symm

end ClientGen.Naming
