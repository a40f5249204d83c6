import ClientGen.Proofs.Enumerations
import ClientGen.Proofs.EscapedLiterals
import ClientGen.Proofs.ServiceLiterals

/-!
# The literals of constants

The values of an enumeration are written between single quotes, of which those in a value are
escaped; its backslashes are left as they are. A literal therefore reads as the value exactly if
that has neither a backslash nor a line break (`Client.constant_literals_iff`). A backslash takes
away from what is read, so that it falls short of the value
(`StringLiteral.length_read_escapeQuote`), or it escapes the closing quote, and the literal goes on
into what follows.
-/
namespace ClientGen

namespace StringLiteral

/-- A character as it is written in the literal of a constant. -/
def escapeQuote (c : Char) : List Char := if c = '\x27' then ['\\', '\x27'] else [c]

/-- A text has neither backslashes nor line breaks. -/
def Unescaped (s : List Char) : Prop := ∀ c ∈ s, c ≠ '\\' ∧ Token.isLineBreak c = false

instance (s : List Char) : Decidable (Unescaped s) :=
  List.decidableBAll (fun c => c ≠ '\\' ∧ Token.isLineBreak c = false) s

variable {c : Char} {place next last : Place} {units : List Nat} {s : List Char}

@[simp] theorem escapeQuote_quote : escapeQuote '\x27' = ['\\', '\x27'] := rfl

theorem escapeQuote_of_ne (other : c ≠ '\x27') : escapeQuote c = [c] := if_neg other

/-- Without backslashes it makes no difference whether they are escaped. -/
theorem flatMap_escapeQuote (unescaped : Unescaped s) :
    s.flatMap escapeQuote = s.flatMap (Naming.escapeFor '\x27') := by
  refine List.flatMap_congr fun c member => ?_
  have noBackslash := (unescaped c member).1
  by_cases isQuote : c = '\x27'
  · subst isQuote
    rfl
  · simp [escapeQuote, Naming.escapeFor, noBackslash, isQuote]

/-- A backslash gives no unit and escapes what follows, unless it is escaped itself. -/
theorem step_backslash (stepped : step '\x27' place '\\' = some (units, next)) :
    units = [] ∧ (next = .escaped ∨ next = .closed) ∨ units.length = 1 ∧ next = .inside := by
  have opens : stepInside '\x27' '\\' = some ([], .escaped) := rfl
  have noDigit : Json.hexValue? '\\' = none := rfl
  cases place with
  | inside =>
    cases opens.symm.trans stepped
    exact .inl ⟨rfl, .inl rfl⟩
  | escaped =>
    have taken : stepEscaped '\\' = some (unitsOf '\\'.toNat, .inside) := rfl
    cases taken.symm.trans stepped
    exact .inr ⟨rfl, rfl⟩
  | digits more value => exact absurd noDigit (of_stepDigits stepped).1
  | unicode =>
    rw [step, if_neg (by decide)] at stepped
    exact absurd noDigit (of_stepDigits stepped).1
  | braced value =>
    rcases (of_stepBraced stepped).1 with brace | isDigit
    · cases brace
    · exact absurd noDigit isDigit
  | zero =>
    cases opens.symm.trans stepped
    exact .inl ⟨rfl, .inl rfl⟩
  | carriage =>
    cases opens.symm.trans stepped
    exact .inl ⟨rfl, .inl rfl⟩
  | closed =>
    cases stepped
    exact .inl ⟨rfl, .inr rfl⟩

/-- An escaped quote stands for one unit at most. -/
theorem length_read_quote (success : read '\x27' place ['\\', '\x27'] = some (units, next)) :
    units.length + next.owed ≤ 1 := by
  obtain ⟨first, between, more, stepped, behind, rfl⟩ := read_cons_eq_some.mp success
  obtain ⟨second, _, _, steppedToo, ended, rfl⟩ := read_cons_eq_some.mp behind
  cases ended
  rcases step_backslash stepped with ⟨rfl, rfl | rfl⟩ | ⟨one, rfl⟩
  · have taken : stepEscaped '\x27' = some (unitsOf '\x27'.toNat, .inside) := rfl
    cases taken.symm.trans steppedToo
    exact Nat.le_refl 1
  · cases steppedToo
    exact Nat.zero_le 1
  · have closes : stepInside '\x27' '\x27' = some ([], .closed) := rfl
    cases closes.symm.trans steppedToo
    simp [one, Place.owed]

/-- A character stands for no more units than it has, also where it is escaped. -/
theorem length_read_escapeQuote_char
    (success : read '\x27' place (escapeQuote c) = some (units, next)) :
    units.length + next.owed ≤ place.owed + (unitsOf c.toNat).length := by
  by_cases isQuote : c = '\x27'
  · subst isQuote
    have short := length_read_quote success
    have present := (length_unitsOf '\x27'.toNat).1
    omega
  · rw [escapeQuote_of_ne isQuote] at success
    simpa using length_read success

/-- What is written for a text stands for no more units than the text has. -/
theorem length_read_escapeQuote
    (success : read '\x27' place (s.flatMap escapeQuote) = some (units, last)) :
    units.length + last.owed ≤ place.owed + (encode s).length := by
  induction s generalizing place units with
  | nil =>
    cases success
    simp
  | cons c s ih =>
    rw [List.flatMap_cons] at success
    obtain ⟨first, next, more, front, behind, rfl⟩ := read_append_eq_some.mp success
    have own := length_read_escapeQuote_char front
    have rest := ih behind
    simp only [encode_cons, List.length_append]
    omega

/-- What stands for as many units as the text has is written for a text without backslashes and line
breaks. -/
theorem unescaped_of_length_le
    (success : read '\x27' .inside (s.flatMap escapeQuote) = some (units, last))
    (enough : (encode s).length ≤ units.length) : Unescaped s := by
  induction s generalizing units with
  | nil => simp [Unescaped]
  | cons c s ih =>
    rw [List.flatMap_cons] at success
    obtain ⟨first, next, more, front, behind, rfl⟩ := read_append_eq_some.mp success
    have rest := length_read_escapeQuote behind
    have present := (length_unitsOf c.toNat).1
    simp only [encode_cons, List.length_append] at enough
    by_cases isQuote : c = '\x27'
    · subst isQuote
      have taken : read '\x27' .inside (escapeQuote '\x27') = some ([0x27], .inside) := rfl
      cases taken.symm.trans front
      rw [List.length_singleton] at enough
      exact List.forall_mem_cons.mpr ⟨by decide, ih behind (by omega)⟩
    · rw [escapeQuote_of_ne isQuote] at front
      obtain ⟨given, _, _, stepped, ended, rfl⟩ := read_cons_eq_some.mp front
      cases ended
      rw [List.append_nil] at enough
      rcases stepInside_eq_some.mp stepped with
        ⟨same, -⟩ | ⟨-, -, rfl, rfl⟩ | ⟨plain, rfl, rfl⟩
      · exact absurd same isQuote
      · -- a backslash gives no unit
        have unowed : Place.escaped.owed = 0 := rfl
        rw [List.length_nil] at enough
        omega
      · exact List.forall_mem_cons.mpr ⟨plain.2, ih behind (by omega)⟩

/-- What is written for a text ends as the text does. -/
theorem getLast?_flatMap_escapeQuote : (s.flatMap escapeQuote).getLast? = s.getLast? := by
  rcases List.eq_nil_or_concat s with rfl | ⟨front, c, rfl⟩
  · rfl
  · have last : (escapeQuote c).getLast? = some c := by
      unfold escapeQuote
      split
      · rename_i isQuote
        exact congrArg some isQuote.symm
      · rfl
    rw [List.concat_eq_append, List.flatMap_append, List.flatMap_singleton, List.getLast?_append,
      last, List.getLast?_concat]
    rfl

theorem endsLine_flatMap_escapeQuote (atEnd : Bool) (s : List Char) :
    Text.endsLine atEnd (s.flatMap escapeQuote) = Text.endsLine atEnd s := by
  induction s with
  | nil => rfl
  | cons c s ih =>
    by_cases isQuote : c = '\x27'
    · subst isQuote
      rfl
    · rw [List.flatMap_cons, escapeQuote_of_ne isQuote, List.singleton_append, Text.endsLine, ih,
        Text.endsLine]

/-- It makes no difference whether the blanks at the ends of lines are dropped before a text is
written or after that. -/
theorem trimmed_flatMap_escapeQuote (atEnd : Bool) (s : List Char) :
    Text.trimmed atEnd (s.flatMap escapeQuote) = (Text.trimmed atEnd s).flatMap escapeQuote := by
  induction s with
  | nil => rfl
  | cons c s ih =>
    by_cases isQuote : c = '\x27'
    · subst isQuote
      change '\\' :: '\x27' :: Text.trimmed atEnd (s.flatMap escapeQuote) =
        '\\' :: '\x27' :: (Text.trimmed atEnd s).flatMap escapeQuote
      rw [ih]
    · rw [List.flatMap_cons, escapeQuote_of_ne isQuote, List.singleton_append, Text.trimmed,
        endsLine_flatMap_escapeQuote, ih, Text.trimmed]
      split
      · rfl
      · rw [List.flatMap_cons, escapeQuote_of_ne isQuote, List.singleton_append]

/-- The literal of a constant reads as its value exactly if that has neither backslashes nor line
breaks, where what follows stops plainly. -/
theorem value?_trimmed_escapeQuote_iff {tail : List Char}
    (stops : StopsPlainly '\x27' (Text.trimmed true tail)) :
    value? '\x27' (Text.trimmed true (s.flatMap escapeQuote ++ '\x27' :: tail)) =
      some (encode s) ↔ Unescaped s := by
  have within (unescaped : Unescaped (Text.trimmed false s)) : Text.trimmed false s = s :=
    Text.trimmed_of_absent (Text.mem_trimmed_feed.not.mp fun member =>
      absurd (unescaped '\n' member).2 (by decide))
  rw [Text.trimmed_append_cons true (by decide), trimmed_flatMap_escapeQuote]
  constructor
  · intro reads
    have shorter := ((Text.trimmed_sublist false s).flatMap fun c => unitsOf c.toNat).length_le
    obtain ⟨place, first⟩ := read_of_reads (s := s) rfl stops
      (by rw [getLast?_flatMap_escapeQuote, Text.getLast?_trimmed]; exact id) reads
    have unescaped := unescaped_of_length_le first shorter
    rwa [within unescaped] at unescaped
  · intro unescaped
    have absent : '\n' ∉ s := fun member => absurd (unescaped '\n' member).2 (by decide)
    rw [Text.trimmed_of_absent absent, flatMap_escapeQuote unescaped]
    exact (value?_escaped_iff rfl _).mpr ⟨fun c member => (unescaped c member).2, rfl⟩

end StringLiteral

open StringLiteral

theorem intercalate_cons (separator s : String) (after : List String) :
    separator.intercalate (s :: after) = s ++ String.join (after.map (separator ++ ·)) := by
  induction after generalizing s with
  | nil => simp
  | cons t after ih =>
    rw [String.intercalate_cons_cons, ih t, List.map_cons, String.join_cons]
    simp only [String.append_assoc]

/-- What is put together with separators, around one of its parts. -/
theorem intercalate_around (separator : String) (before : List String) (s : String)
    (after : List String) : separator.intercalate (before ++ s :: after) =
      String.join (before.map (· ++ separator)) ++ s ++
        String.join (after.map (separator ++ ·)) := by
  induction before with
  | nil => simp [intercalate_cons]
  | cons r before ih =>
    obtain ⟨t, others, more⟩ := List.exists_cons_of_ne_nil (l := before ++ s :: after) (by simp)
    rw [List.cons_append, more, String.intercalate_cons_cons, ← more, ih, List.map_cons,
      String.join_cons]
    simp only [String.append_assoc]

theorem Model.toList_constantText (v : String) :
    (constantText (.text v)).toList = v.toList.flatMap escapeQuote :=
  Text.toList_replaceAll_singleton '\x27' "\\\x27" v

/-- For each value of an enumeration there is a constant, which holds the value with its quotes
escaped. -/
theorem Model.Enumerates.constant {definitions : Fields} {m : Model} {values : List Value}
    (enumerates : m.Enumerates definitions values) {index : Nat} {v : Value}
    (there : values[index]? = some v) :
    ∃ c, m.constants[index]? = some c ∧ c.value = constantText v := by
  have same := congrArg (fun texts => texts[index]?) (map_value_constantsOf values)
  rw [← enumerates.constants, List.getElem?_map, List.getElem?_map, there] at same
  exact Option.map_eq_some_iff.mp same

namespace Client

/-- What stands before the literal of the constant at `index` in the union of the literals. -/
def unionLead (m : Model) (index : Nat) : String :=
  "export type " ++ m.className ++ " = " ++
    String.join ((m.constants.take index).map fun c => constantLiteral c ++ " | ")

/-- What stands behind the literal of the constant at `index` in the union of the literals. -/
def unionTail (m : Model) (index : Nat) : String :=
  if index + 1 = m.constants.length then ";\n" else " | \x27"

/-- What stands before the literal of a constant in the namespace of its enumeration. -/
def constantLead (m : Model) (c : EnumConstant) : String :=
  "  export const " ++ c.name ++ ": " ++ m.className ++ " = "

/-- What follows an opening quote reads as a literal does. -/
def ReadsAlike (behind literal : String) : Prop :=
  ∃ inside units, literal.toList = '\x27' :: inside ∧ value? '\x27' inside = some units ∧
    value? '\x27' behind.toList = some units

/-- The file of `text` has the literal of a constant between `lead` and `tail`. It reads as the
value `v`, and as the literal of `v` in a schema does, exactly if `v` is unescaped. -/
structure ReadsIfUnescaped (text file lead tail : String) (c : EnumConstant) (v : String) :
    Prop where
  present : ∃ behind, Follows text file lead (constantLiteral c) tail behind
  denotes : ∀ behind, Follows text file lead (constantLiteral c) tail behind →
    (Denotes behind (.text v) ↔ Unescaped v.toList)
  alike : ∀ behind, Follows text file lead (constantLiteral c) tail behind →
    (ReadsAlike behind (Schema.stringLiteral (.text v)) ↔ Unescaped v.toList)

variable {config : Config} {definitions : Fields} {values : List Value} {m : Model}
  {text file lead tail behind v : String} {c : EnumConstant} {index : Nat}

theorem denotes_text_iff :
    Denotes behind (.text v) ↔ value? '\x27' behind.toList = some (encode v.toList) := by
  constructor
  · rintro ⟨_, same, reads⟩
    cases same
    exact reads
  · intro reads
    exact ⟨v, rfl, reads⟩

/-- The literal of a text in a schema reads as the text, so what reads alike denotes the text. -/
theorem readsAlike_stringLiteral_iff : ReadsAlike behind (Schema.stringLiteral (.text v)) ↔
    Token.Unbroken v.toList ∧ Denotes behind (.text v) := by
  have shown : (Schema.stringLiteral (.text v)).toList =
      '\x27' :: (v.toList.flatMap (Naming.escapeFor '\x27') ++ ['\x27']) :=
    Escaped.toList_literal '\x27' v
  rw [denotes_text_iff]
  constructor
  · rintro ⟨inside, units, opened, own, reads⟩
    rw [shown, List.cons.injEq] at opened
    rw [← opened.2, value?_escaped_iff rfl] at own
    exact ⟨own.1, own.2 ▸ reads⟩
  · rintro ⟨unbroken, reads⟩
    exact ⟨_, _, shown, (value?_escaped_iff rfl []).mpr ⟨unbroken, rfl⟩, reads⟩

/-- What follows the literals of constants stops plainly. -/
theorem stopsPlainly_tail (ends : tail = ";\n" ∨ tail = " | \x27") (back : List Char) :
    StopsPlainly '\x27' (Text.trimmed true (tail.toList ++ back)) := by
  rcases ends with rfl | rfl
  · have ends : EndsPlainly '\x27' (";\n".toList ++ back) :=
      ⟨[], ';', '\n', back, rfl, by decide, by decide, .inl rfl⟩
    exact (ends.trimmed rfl).stops
  · have kept := Text.trimmed_append_cons true (c := '\x27') (by decide) " | ".toList back
    exact ⟨" |".toList, ' ', '\x27', Text.trimmed true back, kept, by decide, .inr rfl⟩

theorem readsIfUnescaped_of_infix (holds : c.value = Model.constantText (.text v))
    (within : (lead ++ constantLiteral c ++ tail).toList <:+: text.toList)
    (ends : tail = ";\n" ∨ tail = " | \x27") :
    ReadsIfUnescaped text (trimLines text) lead tail c v := by
  have denotes (behind) (follows : Follows text (trimLines text) lead (constantLiteral c) tail
      behind) : Denotes behind (.text v) ↔ Unescaped v.toList := by
    obtain ⟨back, trimmed⟩ :=
      (follows : Follows _ _ _ (between c.value) _ _).toList_behind
    rw [denotes_text_iff, trimmed, holds, Model.toList_constantText]
    exact value?_trimmed_escapeQuote_iff (stopsPlainly_tail ends back)
  refine ⟨exists_follows within, denotes, fun behind follows => ?_⟩
  rw [readsAlike_stringLiteral_iff, denotes behind follows]
  exact and_iff_right_of_imp fun unescaped d member => (unescaped d member).2

/-- The literal of each constant stands in the union of the literals, between the others. -/
theorem aliasText_around (there : m.constants[index]? = some c) : ∃ back,
    aliasText m.className (" | ".intercalate (m.constants.map constantLiteral)) =
      unionLead m index ++ constantLiteral c ++ unionTail m index ++ back := by
  obtain ⟨bound, own⟩ := List.getElem?_eq_some_iff.mp there
  have parts : m.constants =
      m.constants.take index ++ c :: m.constants.drop (index + 1) := by
    rw [← own, ← List.drop_eq_getElem_cons bound, List.take_append_drop]
  have split := intercalate_around " | " ((m.constants.take index).map constantLiteral)
    (constantLiteral c) ((m.constants.drop (index + 1)).map constantLiteral)
  rw [← List.map_cons, ← List.map_append, ← parts, List.map_map, List.map_map] at split
  unfold aliasText unionLead unionTail
  rw [split]
  by_cases last : index + 1 = m.constants.length
  · have none : m.constants.drop (index + 1) = [] := List.drop_eq_nil_of_le (by omega)
    refine ⟨"", ?_⟩
    rw [if_pos last, none]
    simp [String.append_assoc, Function.comp_def]
  · obtain ⟨d, others, more⟩ := List.exists_cons_of_ne_nil (l := m.constants.drop (index + 1))
      (List.drop_eq_nil_iff.not.mpr (by omega))
    have opened : " | " ++ constantLiteral d = " | \x27" ++ (d.value ++ "\x27") := by
      rw [← String.toList_inj]
      simp [constantLiteral]
    refine ⟨d.value ++ "\x27" ++
      String.join (others.map ((" | " ++ ·) ∘ constantLiteral)) ++ ";\n", ?_⟩
    rw [if_neg last, more, List.map_cons, String.join_cons, Function.comp_apply, opened]
    simp only [String.append_assoc, Function.comp_def]

theorem constantLine_eq (m : Model) (c : EnumConstant) :
    Model.constantLine m.className c ++ "\n" =
      constantLead m c ++ constantLiteral c ++ ";\n" := by
  have closing : ";\n" = ";" ++ "\n" := by decide
  rw [closing, ← String.append_assoc]
  rfl

/-- Each constant has a literal in the union that its enumeration is declared as, and in the
namespace one of its own. -/
theorem infix_declaration_of_enum (enumerates : m.Enumerates definitions values)
    (declared : declaration config m = .ok text) (there : m.constants[index]? = some c) :
    (unionLead m index ++ constantLiteral c ++ unionTail m index).toList <:+: text.toList ∧
      (config.enumModule = true →
        (constantLead m c ++ constantLiteral c ++ ";\n").toList <:+: text.toList) := by
  rw [Model.declaration_of_enum enumerates] at declared
  cases declared
  constructor
  · obtain ⟨back, around⟩ := aliasText_around there
    rw [around]
    exact Text.infix_append_of_left (Text.infix_append_of_left List.infix_rfl back) _
  · intro asked
    rw [← constantLine_eq, if_pos asked]
    refine .trans ?_ (Text.infix_append_self _ _)
    refine (infix_unlines (List.mem_map_of_mem (List.mem_of_getElem? there))).trans ?_
    unfold Model.namespaceText
    repeat first
      | with_reducible exact Text.infix_append_self _ _
      | with_reducible refine Text.infix_append_of_left ?_ _

/-- In the file of an enumeration, the literals of a text among the values read as the text exactly
if it is unescaped. -/
theorem readsIfUnescaped_modelFile {g : Globals} {imports : List Model}
    (enumerates : m.Enumerates definitions values) (made : modelFile g imports m = .ok text)
    (given : values[index]? = some (.text v)) :
    ∃ c, m.constants[index]? = some c ∧
      ReadsIfUnescaped text (trimLines text) (unionLead m index) (unionTail m index) c v ∧
      (g.config.enumModule = true →
        ReadsIfUnescaped text (trimLines text) (constantLead m c) ";\n" c v) := by
  obtain ⟨c, there, holds⟩ := enumerates.constant given
  obtain ⟨description, -, made⟩ := bind_eq_ok.mp made
  obtain ⟨declared, own, made⟩ := bind_eq_ok.mp made
  cases made
  obtain ⟨inUnion, inNamespace⟩ := infix_declaration_of_enum enumerates own there
  refine ⟨c, there, readsIfUnescaped_of_infix holds ?_ ?_, fun asked =>
    readsIfUnescaped_of_infix holds ?_ (.inl rfl)⟩
  · exact inUnion.trans (Text.infix_append_self _ _)
  · unfold unionTail
    split
    · exact .inl rfl
    · exact .inr rfl
  · exact (inNamespace asked).trans (Text.infix_append_self _ _)

/-- In the file of an enumeration of a compiled document, each text among the values has a literal
in the union, and if constants are asked for, in its constant. These read as the text, and as the
literal of the text in a schema does, exactly if it has neither backslashes nor line breaks. -/
theorem constant_literals_iff {document : Value} {api : Api} {engine : TemplateEngine}
    {templates : Templates} {file : String}
    (compiled : (Api.compile config document).outcome = .ok api)
    (member : m ∈ api.models.values) (enumeration : m.kind = .enum)
    (builtIn : templates
      (Subject.model m (importedModels api.models m.dependencies)).templateName = none)
    (written : engine.fileText ⟨config, api.rootUrl⟩ templates
      (.model m (importedModels api.models m.dependencies)) = .ok file) :
    ∃ fields definitions values text, document = .object fields ∧
      Api.definitionsOf fields = .object definitions ∧ m.Enumerates definitions values ∧
      modelFile ⟨config, api.rootUrl⟩ (importedModels api.models m.dependencies) m = .ok text ∧
      file = trimLines text ∧
      ∀ (index : Nat) (v : String), values[index]? = some (.text v) →
        ∃ c, m.constants[index]? = some c ∧
          ReadsIfUnescaped text file (unionLead m index) (unionTail m index) c v ∧
          (config.enumModule = true →
            ReadsIfUnescaped text file (constantLead m c) ";\n" c v) := by
  unfold TemplateEngine.fileText at written
  rw [builtIn] at written
  obtain ⟨text, made, written⟩ := bind_eq_ok.mp written
  cases written
  obtain ⟨fields, definitions, values, object, defined, enumerates⟩ :=
    Api.exists_enumerates compiled member enumeration
  exact ⟨fields, definitions, values, text, object, defined, enumerates, made, rfl,
    fun index v given => readsIfUnescaped_modelFile enumerates made given⟩

def soleDocument (v : String) : Value :=
  .object [(.text "swagger", .text supportedVersion),
    (.text "definitions", .object [(.text "Sole", .object (Model.textsSchema [v]))])]

/-- No model is dropped. -/
def soleConfig : Config := { ignoreUnusedModels := false }

/-- Whatever the value is, its enumeration is compiled, and has a file. -/
theorem exists_soleFile (v : String) : ∃ api m text,
    (Api.compile soleConfig (soleDocument v)).outcome = .ok api ∧ m ∈ api.models.values ∧
      m.kind = .enum ∧ modelFile ⟨soleConfig, api.rootUrl⟩
        (importedModels api.models m.dependencies) m = .ok text := by
  have checked : ∃ count, Reference.checkAll (soleDocument v) = .ok count := ⟨_, by cbv⟩
  obtain ⟨api, compiled, models⟩ : ∃ api,
      (Api.compile soleConfig (soleDocument v)).outcome = .ok api ∧
        api.models.values.map (fun m => (m.description, m.body)) =
          [(.null, .enum (Model.constantsOf [.text v]))] :=
    ⟨⟨_, _, ""⟩, Api.compile_eq_ok.mpr ⟨_, _, .empty, _, rfl, rfl, checked,
      Models.ofDefinitions_eq_ok.mpr ⟨_, _, _, rfl, rfl, rfl, rfl⟩,
      Services.ofDocument_eq_ok.mpr ⟨_, [], .empty, [], rfl, rfl, rfl, rfl, rfl⟩,
      rfl, rfl, rfl, rfl⟩, rfl⟩
  obtain ⟨m, only, own⟩ := List.map_eq_singleton_iff.mp models
  obtain ⟨undescribed, body⟩ := Prod.mk.inj own
  obtain ⟨text, made⟩ : ∃ text, modelFile ⟨soleConfig, api.rootUrl⟩
      (importedModels api.models m.dependencies) m = .ok text :=
    exists_bind_eq_ok ⟨_, by rw [undescribed]; rfl⟩ fun description =>
      exists_bind_eq_ok ⟨_, by rw [declaration_eq, body]⟩ fun declared => ⟨_, rfl⟩
  exact ⟨api, m, text, compiled, by simp [only], by rw [Model.kind, body], made⟩

/-- The only value is that of the definition. -/
theorem values_of_soleDocument {fields : Fields} (object : soleDocument v = .object fields)
    (defined : Api.definitionsOf fields = .object definitions)
    (enumerates : m.Enumerates definitions values) : values = [.text v] := by
  cases object
  have given : Api.definitionsOf [(.text "swagger", .text supportedVersion),
      (.text "definitions", .object [(.text "Sole", .object (Model.textsSchema [v]))])] =
        .object [(.text "Sole", .object (Model.textsSchema [v]))] := rfl
  cases given.symm.trans defined
  exact enumerates.eq_of_singleton rfl

/-- A quote is escaped, so that both literals of the value read as the value, as the one in a schema
does. -/
theorem constant_literals_quoted : ∃ api m c text file inUnion inNamespace,
    (Api.compile soleConfig (soleDocument "it\x27s")).outcome = .ok api ∧
    m ∈ api.models.values ∧ m.kind = .enum ∧
    Templates.none (Subject.model m (importedModels api.models m.dependencies)).templateName =
      none ∧
    TemplateEngine.placeholders.fileText ⟨soleConfig, api.rootUrl⟩ .none
      (.model m (importedModels api.models m.dependencies)) = .ok file ∧
    constantLiteral c = "\x27it\\\x27s\x27" ∧
    Follows text file (unionLead m 0) (constantLiteral c) (unionTail m 0) inUnion ∧
    Denotes inUnion (.text "it\x27s") ∧
    ReadsAlike inUnion (Schema.stringLiteral (.text "it\x27s")) ∧
    Follows text file (constantLead m c) (constantLiteral c) ";\n" inNamespace ∧
    Denotes inNamespace (.text "it\x27s") ∧
    ReadsAlike inNamespace (Schema.stringLiteral (.text "it\x27s")) := by
  obtain ⟨api, m, built, compiled, member, enumeration, made⟩ := exists_soleFile "it\x27s"
  have written : TemplateEngine.placeholders.fileText ⟨soleConfig, api.rootUrl⟩ .none
      (.model m (importedModels api.models m.dependencies)) = .ok (trimLines built) :=
    bind_eq_ok.mpr ⟨built, made, rfl⟩
  obtain ⟨fields, definitions, values, text, object, defined, enumerates, -, -, literals⟩ :=
    constant_literals_iff compiled member enumeration rfl written
  cases values_of_soleDocument object defined enumerates
  obtain ⟨c, there, ofUnion, spelled⟩ := literals 0 "it\x27s" rfl
  have ofConstant := spelled rfl
  obtain ⟨inUnion, first⟩ := ofUnion.present
  obtain ⟨inNamespace, second⟩ := ofConstant.present
  have unescaped : Unescaped "it\x27s".toList := by decide
  have shown : constantLiteral c = "\x27it\\\x27s\x27" := by
    rw [enumerates.constants] at there
    cases there
    decide
  exact ⟨api, m, c, text, trimLines built, inUnion, inNamespace, compiled, member, enumeration, rfl,
    written, shown, first, (ofUnion.denotes _ first).mpr unescaped,
    (ofUnion.alike _ first).mpr unescaped, second, (ofConstant.denotes _ second).mpr unescaped,
    (ofConstant.alike _ second).mpr unescaped⟩

/-- A backslash is left as it is, so that neither literal of the value reads as the value, as the
one in a schema does. -/
theorem constant_literals_backslash : ∃ api m c text inUnion inNamespace,
    (Api.compile soleConfig (soleDocument "C:\\temp")).outcome = .ok api ∧
    m ∈ api.models.values ∧ m.kind = .enum ∧
    TemplateEngine.placeholders.fileText ⟨soleConfig, api.rootUrl⟩ .none
      (.model m (importedModels api.models m.dependencies)) = .ok (trimLines text) ∧
    constantLiteral c = "\x27C:\\temp\x27" ∧
    Follows text (trimLines text) (unionLead m 0) (constantLiteral c) (unionTail m 0) inUnion ∧
    ¬Denotes inUnion (.text "C:\\temp") ∧
    ¬ReadsAlike inUnion (Schema.stringLiteral (.text "C:\\temp")) ∧
    Follows text (trimLines text) (constantLead m c) (constantLiteral c) ";\n" inNamespace ∧
    ¬Denotes inNamespace (.text "C:\\temp") ∧
    ¬ReadsAlike inNamespace (Schema.stringLiteral (.text "C:\\temp")) := by
  obtain ⟨api, m, text, compiled, member, enumeration, made⟩ := exists_soleFile "C:\\temp"
  obtain ⟨fields, definitions, values, object, defined, enumerates⟩ :=
    Api.exists_enumerates compiled member enumeration
  cases values_of_soleDocument object defined enumerates
  have given : [Value.text "C:\\temp"][0]? = some (.text "C:\\temp") := rfl
  obtain ⟨c, there, ofUnion, spelled⟩ := readsIfUnescaped_modelFile enumerates made given
  have ofConstant := spelled rfl
  obtain ⟨inUnion, first⟩ := ofUnion.present
  obtain ⟨inNamespace, second⟩ := ofConstant.present
  have escaped : ¬Unescaped "C:\\temp".toList := by decide
  have shown : constantLiteral c = "\x27C:\\temp\x27" := by
    rw [enumerates.constants] at there
    cases there
    decide
  exact ⟨api, m, c, text, inUnion, inNamespace, compiled, member, enumeration,
    bind_eq_ok.mpr ⟨text, made, rfl⟩, shown, first, (ofUnion.denotes _ first).not.mpr escaped,
    (ofUnion.alike _ first).not.mpr escaped, second, (ofConstant.denotes _ second).not.mpr escaped,
    (ofConstant.alike _ second).not.mpr escaped⟩

end Client

end ClientGen
