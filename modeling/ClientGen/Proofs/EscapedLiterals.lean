import ClientGen.Proofs.OverridingKeywords
import ClientGen.Proofs.StringLiterals

/-!
# Literals with escapes

Between quotes a backslash makes the next character stand for itself, and the first quote that is
not escaped ends the literal. `Escaped.literal?` reads a literal so, from behind its opening quote.
What has been escaped for the quote is read as it was before, whatever follows (`literal?_escaped`).
The literals of a restricted text can therefore be told apart, also where their values hold quotes,
backslashes or the separator itself: the values are read off the printed type
(`Schema.enum_reads_back`). As a string literal of the generated code it has this value as well,
unless a line break leaves it open (`StringLiteral.value?_escaped_iff`).
-/
namespace ClientGen

namespace Escaped

/-- Reads a literal from behind its opening quote: its text, and what follows the closing quote. -/
def literal? (quote : Char) : List Char → Option (List Char × List Char)
  | [] => none
  | '\\' :: c :: rest => (literal? quote rest).map fun (s, behind) => (c :: s, behind)
  | c :: rest =>
    if c = quote then some ([], rest)
    else (literal? quote rest).map fun (s, behind) => (c :: s, behind)

theorem length_of_literal? {quote : Char} {s value behind : List Char}
    (read : literal? quote s = some (value, behind)) : behind.length < s.length := by
  fun_induction literal? quote s generalizing value with
  | case1 => cases read
  | case2 c rest ih =>
    obtain ⟨⟨own, left⟩, found, same⟩ := Option.map_eq_some_iff.mp read
    cases same
    have shorter := ih found
    simp only [List.length_cons]
    omega
  | case3 rest noEscape =>
    cases read
    simp
  | case4 c rest noEscape other ih =>
    obtain ⟨⟨own, left⟩, found, same⟩ := Option.map_eq_some_iff.mp read
    cases same
    have shorter := ih found
    simp only [List.length_cons]
    omega

/-- Reads literals between single quotes up to the end, with ` | ` between each two. -/
def union? (s : List Char) : Option (List (List Char)) :=
  match s with
  | '\x27' :: inside =>
    match _read : literal? '\x27' inside with
    | some (value, []) => some [value]
    | some (value, ' ' :: '|' :: ' ' :: rest) => (union? rest).map (value :: ·)
    | _ => none
  | _ => none
termination_by s.length
decreasing_by
  have shorter := length_of_literal? _read
  simp only [List.length_cons] at shorter ⊢
  omega

variable {quote : Char}

theorem literal?_cons_of_plain {c : Char} (noEscape : c ≠ '\\') (noQuote : c ≠ quote)
    (rest : List Char) : literal? quote (c :: rest) =
      (literal? quote rest).map fun (s, behind) => (c :: s, behind) := by
  rw [literal?, if_neg noQuote]
  exact fun d more same _ => noEscape same

/-- The literal ends at the first quote. -/
theorem literal?_quote (isQuote : quote ≠ '\\') (rest : List Char) :
    literal? quote (quote :: rest) = some ([], rest) := by
  rw [literal?, if_pos rfl]
  exact fun d more same _ => isQuote same

/-- What is escaped for the quote is read as it was before. -/
theorem literal?_escaped (isQuote : quote ≠ '\\') (s rest : List Char) :
    literal? quote (s.flatMap (Naming.escapeFor quote) ++ quote :: rest) = some (s, rest) := by
  induction s with
  | nil => exact literal?_quote isQuote rest
  | cons c s ih =>
    rw [List.flatMap_cons, List.append_assoc, Naming.escapeFor]
    by_cases escaped : c = '\\' ∨ c = quote
    · rw [if_pos (by simpa using escaped), List.cons_append, List.cons_append, List.nil_append,
        literal?, ih]
      rfl
    · rw [not_or] at escaped
      rw [if_neg (by simpa using escaped), List.singleton_append,
        literal?_cons_of_plain escaped.1 escaped.2, ih]
      rfl

theorem toList_literal (quote : Char) (s : String) : (Naming.literal quote s).toList =
    quote :: (s.toList.flatMap (Naming.escapeFor quote) ++ [quote]) := by
  rw [Naming.literal, String.toList_ofList, List.cons_append]

/-- The last literal ends with the text. -/
theorem union?_of_end {inside value : List Char}
    (read : literal? '\x27' inside = some (value, [])) :
    union? ('\x27' :: inside) = some [value] := by
  rw [union?]
  split
  · rename_i found
    cases read.symm.trans found
    rfl
  · rename_i found
    cases read.symm.trans found
  · rename_i noEnd _
    exact absurd read (noEnd value)

/-- Behind a separator the next literal is read. -/
theorem union?_of_separator {inside value rest : List Char}
    (read : literal? '\x27' inside = some (value, ' ' :: '|' :: ' ' :: rest)) :
    union? ('\x27' :: inside) = (union? rest).map (value :: ·) := by
  rw [union?]
  split
  · rename_i found
    cases read.symm.trans found
  · rename_i found
    cases read.symm.trans found
    rfl
  · rename_i noSeparator
    exact absurd read (noSeparator value rest)

/-- Values that are put between quotes one by one are found again, whatever they hold. -/
theorem union?_intercalate {values : List String} (present : values ≠ []) :
    union? (" | ".intercalate (values.map (Naming.literal '\x27'))).toList =
      some (values.map String.toList) := by
  induction values with
  | nil => exact absurd rfl present
  | cons s others ih =>
    have opened := toList_literal '\x27' s
    have noEscape : '\x27' ≠ '\\' := by decide
    cases others with
    | nil =>
      rw [List.map_singleton, String.intercalate_singleton, opened]
      exact union?_of_end (literal?_escaped noEscape s.toList [])
    | cons t others =>
      let later := (" | ".intercalate ((t :: others).map (Naming.literal '\x27'))).toList
      have separated : (" | ".intercalate ((s :: t :: others).map (Naming.literal '\x27'))).toList =
          '\x27' :: (s.toList.flatMap (Naming.escapeFor '\x27') ++
            '\x27' :: ' ' :: '|' :: ' ' :: later) := by
        rw [List.map_cons, List.map_cons, String.intercalate_cons_cons, ← List.map_cons]
        simp [opened, later]
      rw [separated, union?_of_separator (literal?_escaped noEscape s.toList _),
        ih (List.cons_ne_nil t others)]
      rfl

end Escaped

namespace StringLiteral

variable {quote c : Char} {next : Place} {units : List Nat} {s : List Char}

/-- A character that is escaped for the quote reads as itself, unless it is a line break. -/
theorem read_escapeFor_iff (isQuote : Token.isQuote quote = true) :
    read quote .inside (Naming.escapeFor quote c) = some (units, next) ↔
      Token.isLineBreak c = false ∧ unitsOf c.toNat = units ∧ .inside = next := by
  have either : quote = '\x27' ∨ quote = '"' := by simpa [Token.isQuote] using isQuote
  rw [Naming.escapeFor]
  by_cases escaped : c = '\\' ∨ c = quote
  · have unbroken : Token.isLineBreak c = false := by
      rcases escaped with rfl | rfl
      · rfl
      · rcases either with rfl | rfl <;> rfl
    have whole : read quote .inside ['\\', c] = some (unitsOf c.toNat, .inside) := by
      rcases escaped with rfl | rfl <;> rcases either with rfl | rfl <;> rfl
    rw [if_pos (by simpa using escaped), whole]
    simp [unbroken]
  · rw [not_or] at escaped
    rw [if_neg (by simpa using escaped), read_cons_eq_some]
    simp only [step, stepInside, escaped, if_false, read]
    cases Token.isLineBreak c <;> simp [and_comm]

theorem read_escaped_iff (isQuote : Token.isQuote quote = true) :
    read quote .inside (s.flatMap (Naming.escapeFor quote)) = some (units, next) ↔
      Token.Unbroken s ∧ encode s = units ∧ .inside = next := by
  induction s generalizing units with
  | nil => simp [read, Token.Unbroken]
  | cons c s ih =>
    rw [List.flatMap_cons, read_append_eq_some, Token.Unbroken, List.forall_mem_cons, encode_cons]
    constructor
    · rintro ⟨own, place, more, first, later, rfl⟩
      obtain ⟨unbroken, rfl, rfl⟩ := (read_escapeFor_iff isQuote).mp first
      obtain ⟨others, rfl, rfl⟩ := ih.mp later
      exact ⟨⟨unbroken, others⟩, rfl, rfl⟩
    · rintro ⟨⟨unbroken, others⟩, rfl, rfl⟩
      exact ⟨_, .inside, _, (read_escapeFor_iff isQuote).mpr ⟨unbroken, rfl, rfl⟩,
        ih.mpr ⟨others, rfl, rfl⟩, rfl⟩

/-- What is escaped for the quotes around it reads as it was before, unless it has a line break. -/
theorem value?_escaped_iff (isQuote : Token.isQuote quote = true) (rest : List Char) :
    value? quote (s.flatMap (Naming.escapeFor quote) ++ quote :: rest) = some units ↔
      Token.Unbroken s ∧ encode s = units := by
  rw [value?_eq_some, read_append_eq_some]
  constructor
  · rintro ⟨own, place, more, first, behind, rfl⟩
    obtain ⟨unbroken, rfl, rfl⟩ := (read_escaped_iff isQuote).mp first
    obtain ⟨given, next, others, stepped, after, rfl⟩ := read_cons_eq_some.mp behind
    cases (if_pos rfl : stepInside quote quote = some ([], .closed)).symm.trans stepped
    rw [read_closed] at after
    cases after
    exact ⟨unbroken, by simp⟩
  · rintro ⟨unbroken, rfl⟩
    refine ⟨_, .inside, [], (read_escaped_iff isQuote).mpr ⟨unbroken, rfl, rfl⟩, ?_, by simp⟩
    exact read_cons_eq_some.mpr ⟨[], .closed, [], if_pos rfl, read_closed quote rest, rfl⟩

end StringLiteral

namespace Schema

structure RestrictsText (schema : Fields) (values : List String) : Prop where
  typed : schema.get? "type" = some (.text "string")
  listed : schema.get "enum" = .list (values.map .text)
  plain : ¬Overridden schema

variable {path : String} {schema : Fields} {values : List String}

/-- With the name of a primitive type and without anything that overrides it, the schema is that of
the type, with the values that it is restricted to. -/
theorem parseFields_of_primitive {name : String} {kind : PrimitiveType}
    (typed : schema.get? "type" = some (.text name))
    (known : PrimitiveType.ofName? name = some kind) (plain : ¬Overridden schema) :
    parseFields path schema = do
      return .primitive ⟨path, schema.get "description"⟩ kind (← enumValues schema)
        (schema.get "const") := by
  have notNull : schema.get? "type" ≠ some .null := by simp [typed]
  have noOther : name ≠ "array" ∧ name ≠ "object" ∧ name ≠ "file" := by
    refine ⟨?_, ?_, ?_⟩ <;> rintro rfl <;> cases known
  simp only [Overridden, not_or] at plain
  rw [parseFields, if_neg notNull, if_neg plain.1, if_neg plain.2.1, dif_neg plain.2.2]
  split
  case h_4 other same =>
    rw [typed, Option.some.injEq, Value.scalar.injEq, Scalar.text.injEq] at same
    subst same
    rw [if_neg noOther.1, if_neg noOther.2.1, if_neg noOther.2.2, known]
  case h_5 s noText same =>
    rw [typed, Option.some.injEq, Value.scalar.injEq] at same
    exact absurd same.symm (noText _)
  all_goals
    rename_i same
    rw [typed] at same
    cases same

/-- The type of a text that is restricted to some values is the union of their literals. -/
theorem RestrictsText.typeAt (restricts : RestrictsText schema values) (present : values ≠ [])
    (path : String) : ClientGen.typeAt path (.object schema) =
      .ok (.scalar (" | ".intercalate (values.map (Naming.literal '\x27')))) := by
  obtain ⟨v, others, rfl⟩ := List.exists_cons_of_ne_nil present
  have given : enumValues schema = .ok (some ((v :: others).map .text)) := by
    rw [enumValues, restricts.listed]
    rfl
  have shown (w : String) : stringLiteral (.text w) = Naming.literal '\x27' w := rfl
  have known : PrimitiveType.ofName? "string" = some .string := rfl
  rw [ClientGen.typeAt, parse,
    parseFields_of_primitive restricts.typed known restricts.plain, given]
  change Schema.type (.primitive ⟨path, schema.get "description"⟩ .string _ _) = _
  rw [type, primitiveType, List.map_cons, restricted]
  simp only [← List.map_cons, List.map_map, Function.comp_def, shown]

/-- The values of a restricted text are read off its type: it is made of literals with ` | ` between
each two, and these are the values. So texts that are restricted to other values have other
types. -/
theorem enum_reads_back (restricts : RestrictsText schema values) (present : values ≠ []) :
    ∃ t, typeAt path (.object schema) = .ok t ∧
      Escaped.union? t.text.toList = some (values.map String.toList) ∧
      ∀ place other others u, RestrictsText other others → others ≠ [] →
        typeAt place (.object other) = .ok u → u.text = t.text → others = values := by
  refine ⟨_, restricts.typeAt present path, Escaped.union?_intercalate present, ?_⟩
  intro place other others u otherRestricts otherPresent typed same
  rw [otherRestricts.typeAt otherPresent] at typed
  cases typed
  simp only [TypeExpr.scalar] at same
  have read := Escaped.union?_intercalate otherPresent
  rw [same, Escaped.union?_intercalate present, Option.some.injEq] at read
  exact (List.map_injective_iff.mpr (fun _ _ => String.toList_inj.mp) read).symm

/-- A text that is restricted to values with a quote, a separator and a backslash in them. -/
def quotedEnum : Fields :=
  [(.text "type", .text "string"),
    (.text "enum", .list [.text "it\x27s", .text "\x27 | \x27", .text "\\"])]

/-- A quote, a separator and a backslash are read as values that hold them. -/
theorem enum_reads_back_quoted : ∃ t, typeAt "#" (.object quotedEnum) = .ok t ∧
    t.text = "\x27it\\\x27s\x27 | \x27\\\x27 | \\\x27\x27 | \x27\\\\\x27" ∧
    Escaped.union? t.text.toList =
      some ["it\x27s".toList, "\x27 | \x27".toList, "\\".toList] := by
  have restricts : RestrictsText quotedEnum ["it\x27s", "\x27 | \x27", "\\"] :=
    ⟨rfl, rfl, not_or.mpr ⟨by decide, not_or.mpr ⟨by decide, by decide⟩⟩⟩
  obtain ⟨t, typed, read, -⟩ := @enum_reads_back "#" _ _ restricts (by decide)
  refine ⟨t, typed, ?_, read⟩
  rw [restricts.typeAt (by decide)] at typed
  cases typed
  decide

end Schema

end ClientGen
