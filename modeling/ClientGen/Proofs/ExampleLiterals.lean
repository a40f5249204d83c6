import ClientGen.Client.ModelFile
import ClientGen.Proofs.ClassNames
import ClientGen.Proofs.TrimmedLines
import ClientGen.Proofs.WrittenJson

/-!
# Example literals

The example of a model is written as JSON with one part a line. Two steps go over the text as a
whole: every line break gets more indentation, and the blanks at the ends of lines are dropped. The
only line breaks of the text are those of the layout, so the first step is a change of the layout
(`Json.shift_write`); and each line ends with a character that is not blank, so the second step
changes nothing (`Json.solid_write`). Neither reaches into a string, and the value is read back
(`Client.literal_reads_back`).
-/
namespace ClientGen

namespace Text

variable {c : Char} {s w front : List Char}

/-- Nothing is trimmed from the text, wherever it stands. -/
def Kept (s : List Char) : Prop :=
  ∀ atEnd rest, trimmed atEnd (s ++ rest) = s ++ trimmed atEnd rest

/-- Nothing is trimmed from the text, and it does not start with a blank. -/
def Solid (s : List Char) : Prop :=
  ∃ c more, s = c :: more ∧ isBlank c = false ∧ Kept more

theorem Kept.append (first : Kept s) (last : Kept w) : Kept (s ++ w) := by
  intro atEnd rest
  rw [List.append_assoc, first, last, List.append_assoc]

theorem trimmed_cons (notBlank : isBlank c = false) (atEnd : Bool) (s : List Char) :
    trimmed atEnd (c :: s) = c :: trimmed atEnd s :=
  trimmed_append_cons atEnd notBlank [] s

theorem Kept.cons (kept : Kept s) (notBlank : isBlank c = false) : Kept (c :: s) := by
  intro atEnd rest
  rw [List.cons_append, trimmed_cons notBlank, kept, List.cons_append]

theorem kept_of_forall (solid : ∀ c ∈ s, isBlank c = false) : Kept s := by
  induction s with
  | nil => exact fun _ _ => rfl
  | cons c s ih =>
    obtain ⟨first, others⟩ := List.forall_mem_cons.mp solid
    exact (ih others).cons first

/-- A part of a line that does not end with a blank is kept. -/
theorem kept_append_singleton (absent : '\n' ∉ s) (notBlank : isBlank c = false) :
    Kept (s ++ [c]) := by
  intro atEnd rest
  rw [List.append_assoc, List.singleton_append, trimmed_append_cons atEnd notBlank,
    trimmed_of_absent absent, List.append_assoc, List.singleton_append]

theorem Solid.kept (solid : Solid s) : Kept s := by
  obtain ⟨c, more, rfl, notBlank, kept⟩ := solid
  exact kept.cons notBlank

/-- The indentation of a solid text is kept. -/
theorem Solid.kept_append (solid : Solid w) (absent : '\n' ∉ front) : Kept (front ++ w) := by
  obtain ⟨c, more, rfl, notBlank, kept⟩ := solid
  rw [List.append_cons]
  exact (kept_append_singleton absent notBlank).append kept

theorem Solid.kept_feed_append (solid : Solid w) (absent : '\n' ∉ front) :
    Kept ('\n' :: front ++ w) := by
  intro atEnd rest
  rw [List.cons_append, List.cons_append, trimmed_cons_feed, solid.kept_append absent,
    List.cons_append]

/-- A solid text is found again in the trimmed text around it. -/
theorem Solid.trimmed_around (solid : Solid w) (front back : List Char) (atEnd : Bool) :
    trimmed atEnd (front ++ (w ++ back)) = trimmed false front ++ (w ++ trimmed atEnd back) := by
  obtain ⟨c, more, rfl, notBlank, kept⟩ := solid
  rw [List.cons_append, trimmed_append_cons atEnd notBlank, kept, List.cons_append]

end Text

namespace Json

variable {limit : Option Nat} {l : Layout} {v : Value}

theorem feed_not_mem_escapedChar (c : Char) : '\n' ∉ escapedChar c := by
  rcases escapedChar_cases c with ⟨e, written, -, stands⟩ | ⟨written, small⟩ |
    ⟨written, -, -, large⟩
  · have other : e ≠ '\n' := by
      rintro rfl
      cases stands
    rw [written]
    simp [other.symm]
  · have digits : ∀ n < 0x20, '\n' ∉ '\\' :: 'u' :: Text.hexDigits 4 n := by decide
    rw [written]
    exact digits c.toNat small
  · have other : c ≠ '\n' := by
      rintro rfl
      exact large (by decide)
    rw [written]
    simpa using other.symm

theorem feed_not_mem_quote (text : String) : '\n' ∉ (quote text).toList := by
  have inside : '\n' ∉ text.toList.flatMap escapedChar := by
    rw [List.mem_flatMap]
    rintro ⟨c, -, member⟩
    exact feed_not_mem_escapedChar c member
  rw [toList_quote]
  simp [inside]

/-- No character of an integer is blank. -/
theorem isBlank_of_mem_intText {c : Char} {n : Int} (member : c ∈ (Text.intText n).toList) :
    Text.isBlank c = false := by
  have ofDigits {m : Nat} (digit : c ∈ (Text.natText m).toList) : Text.isBlank c = false :=
    isBlank_of_isDigit (isDigit_of_mem_natText digit)
  cases n with
  | ofNat m => exact ofDigits member
  | negSucc m =>
    rw [Text.intText, String.toList_append] at member
    rcases List.mem_append.mp member with sign | digit
    · obtain rfl : c = '-' := List.mem_singleton.mp sign
      decide
    · exact ofDigits digit

theorem feed_not_mem_intText (n : Int) : '\n' ∉ (Text.intText n).toList :=
  fun member => absurd (isBlank_of_mem_intText member) (by decide)

/-- One part a line: a comma between two parts, and before each a line break and its indentation. -/
structure Layout.IsBroken (l : Layout) : Prop where
  between : l.between = ","
  lineBreak : ∃ indent, l.lineBreak.toList = '\n' :: indent ∧ ∀ c ∈ indent, c = ' '
  step : ∀ c ∈ l.step.toList, c = ' '

theorem Layout.IsBroken.deeper (broken : l.IsBroken) : l.deeper.IsBroken where
  between := broken.between
  lineBreak := by
    obtain ⟨indent, starts, blank⟩ := broken.lineBreak
    refine ⟨indent ++ l.step.toList, by simp [Layout.deeper, starts], ?_⟩
    intro c member
    exact (List.mem_append.mp member).elim (blank c) (broken.step c)
  step := broken.step

theorem Layout.IsBroken.isSpaced (broken : l.IsBroken) : l.IsSpaced where
  between := ⟨[], by rw [broken.between]; rfl, by simp [AllBlank]⟩
  lineBreak := by
    obtain ⟨indent, starts, blank⟩ := broken.lineBreak
    intro c member
    rw [starts] at member
    rcases List.mem_cons.mp member with rfl | among
    · decide
    · rw [blank c among]
      decide
  step := fun c member => by
    rw [broken.step c member]
    decide

theorem isBroken_indented : Layout.indented.IsBroken where
  between := rfl
  lineBreak := ⟨[], rfl, by simp⟩
  step := by simp [Layout.indented]

/-- Every line break of a text with more indentation. -/
def shift (indent text : String) : String :=
  Text.replaceAll "\n" ("\n" ++ indent) text

def Layout.shift (indent : String) (l : Layout) : Layout :=
  { l with lineBreak := Json.shift indent l.lineBreak }

section

variable {indent : String}

theorem toList_shift (indent text : String) :
    (shift indent text).toList =
      text.toList.flatMap fun c => if c = '\n' then '\n' :: indent.toList else [c] := by
  have singleton : "\n" = String.singleton '\n' := rfl
  rw [shift, singleton, Text.toList_replaceAll_singleton]
  simp

theorem shift_append (indent first last : String) :
    shift indent (first ++ last) = shift indent first ++ shift indent last := by
  rw [← String.toList_inj]
  simp only [toList_shift, String.toList_append, List.flatMap_append]

theorem shift_of_absent {text : String} (absent : '\n' ∉ text.toList) :
    shift indent text = text := by
  rw [← String.toList_inj, toList_shift]
  have kept : ∀ c ∈ text.toList, (if c = '\n' then '\n' :: indent.toList else [c]) = [c] := by
    intro c member
    have other : c ≠ '\n' := by
      rintro rfl
      exact absent member
    exact if_neg other
  rw [List.flatMap_congr kept, List.flatMap_singleton']

theorem shift_intercalate (indent sep : String) (parts : List String) :
    shift indent (sep.intercalate parts) =
      (shift indent sep).intercalate (parts.map (shift indent)) := by
  induction parts with
  | nil => exact shift_of_absent (by simp)
  | cons part parts ih =>
    cases parts with
    | nil => simp
    | cons next parts =>
      rw [String.intercalate_cons_cons, shift_append, shift_append, ih]
      exact String.intercalate_cons_cons.symm

theorem feed_not_mem_of_blank {text : String} (blank : ∀ c ∈ text.toList, c = ' ') :
    '\n' ∉ text.toList :=
  fun member => absurd (blank _ member) (by decide)

theorem Layout.IsBroken.shift (broken : l.IsBroken) (blank : ∀ c ∈ indent.toList, c = ' ') :
    (l.shift indent).IsBroken where
  between := broken.between
  lineBreak := by
    obtain ⟨before, starts, blankBefore⟩ := broken.lineBreak
    have same : Json.shift indent (String.ofList before) = String.ofList before :=
      shift_of_absent (feed_not_mem_of_blank (by simpa using blankBefore))
    refine ⟨indent.toList ++ before, ?_, ?_⟩
    · rw [← String.toList_inj, toList_shift, String.toList_ofList] at same
      rw [Layout.shift, toList_shift, starts, List.flatMap_cons, same, if_pos rfl, List.cons_append]
    · intro c member
      exact (List.mem_append.mp member).elim (blank c) (blankBefore c)
  step := broken.step

theorem Layout.IsBroken.shift_deeper (broken : l.IsBroken) :
    (l.shift indent).deeper = l.deeper.shift indent := by
  rw [Layout.deeper, Layout.deeper, Layout.shift, Layout.shift, shift_append,
    shift_of_absent (feed_not_mem_of_blank broken.step)]

theorem shift_enclose (broken : l.IsBroken) {opening closing : String}
    (opens : '\n' ∉ opening.toList) (closes : '\n' ∉ closing.toList) (parts : List String) :
    Json.shift indent (enclose l opening closing parts) =
      enclose (l.shift indent) opening closing (parts.map (Json.shift indent)) := by
  have comma : Json.shift indent l.between = l.between := by
    rw [broken.between]
    exact shift_of_absent (by decide)
  by_cases empty : parts = []
  · rw [empty, List.map_nil, enclose, enclose, if_pos List.isEmpty_nil,
      if_pos List.isEmpty_nil, shift_append, shift_of_absent opens, shift_of_absent closes]
  · have present : ¬parts.isEmpty = true := by simpa using empty
    have mapped : ¬(parts.map (Json.shift indent)).isEmpty = true := by simpa using empty
    rw [enclose, enclose, if_neg present, if_neg mapped, broken.shift_deeper]
    simp only [shift_append, shift_intercalate, shift_of_absent opens, shift_of_absent closes,
      comma]
    rfl

/-- More indentation at every line break is another layout of the same value. -/
theorem shift_write (plain : IsPlain limit v) (broken : l.IsBroken) :
    Json.shift indent (write l v) = write (l.shift indent) v := by
  induction plain generalizing l with
  | null =>
    rw [write, write]
    exact shift_of_absent (by decide)
  | bool b =>
    rw [write, write]
    exact shift_of_absent (by cases b <;> decide)
  | int short =>
    rw [write, write]
    exact shift_of_absent (feed_not_mem_intText _)
  | text s =>
    rw [write, write]
    exact shift_of_absent (feed_not_mem_quote s)
  | list parts ih =>
    rw [write, write, writeItems_eq_map, writeItems_eq_map,
      shift_enclose broken (by decide) (by decide), List.map_map, broken.shift_deeper]
    exact congrArg _ (List.map_congr_left fun v member => ih v member broken.deeper)
  | object keys distinct parts ih =>
    rw [write, write, writeFields_eq_map, writeFields_eq_map,
      shift_enclose broken (by decide) (by decide), List.map_map, broken.shift_deeper]
    refine congrArg _ (List.map_congr_left fun e member => ?_)
    obtain ⟨name, text⟩ := keys e member
    have key : '\n' ∉ (writeKey e.1 ++ ": ").toList := by
      rw [text, writeKey, String.toList_append]
      simp [feed_not_mem_quote]
    rw [Function.comp_apply, writeEntry, writeEntry, shift_append, shift_of_absent key,
      ih e member broken.deeper]

end

theorem solid_quote (text : String) : Text.Solid (quote text).toList := by
  have inside : '\n' ∉ text.toList.flatMap escapedChar := by
    have whole := feed_not_mem_quote text
    rw [toList_quote, List.mem_cons, List.mem_append, not_or, not_or] at whole
    exact whole.2.1
  exact ⟨'"', _, toList_quote text, by decide, Text.kept_append_singleton inside (by decide)⟩

/-- The line break before a part of a container is kept, with its indentation. -/
theorem Layout.IsBroken.kept_append (broken : l.IsBroken) {w : List Char} (solid : Text.Solid w) :
    Text.Kept (l.lineBreak.toList ++ w) := by
  obtain ⟨indent, starts, blank⟩ := broken.lineBreak
  rw [starts]
  exact solid.kept_feed_append fun member => absurd (blank _ member) (by decide)

theorem solid_intercalate (broken : l.IsBroken) {parts : List String} (present : parts ≠ [])
    (each : ∀ part ∈ parts, Text.Solid part.toList) :
    Text.Solid ((l.between ++ l.lineBreak).intercalate parts).toList := by
  induction parts with
  | nil => exact absurd rfl present
  | cons part parts ih =>
    obtain ⟨first, others⟩ := List.forall_mem_cons.mp each
    cases parts with
    | nil => rwa [String.intercalate_singleton]
    | cons next parts =>
      have separates : (l.between ++ l.lineBreak).toList = ',' :: l.lineBreak.toList := by
        rw [broken.between, String.toList_append]
        rfl
      obtain ⟨c, more, spelled, notBlank, kept⟩ := first
      rw [toList_intercalate_cons_cons separates, spelled, List.cons_append]
      exact ⟨c, _, rfl, notBlank,
        kept.append ((broken.kept_append (ih (by simp) others)).cons (by decide))⟩

theorem solid_enclose (broken : l.IsBroken) {opening closing : String} {o c : Char}
    (opens : opening.toList = [o]) (closes : closing.toList = [c])
    (bare : Text.isBlank o = false ∧ Text.isBlank c = false) {parts : List String}
    (each : ∀ part ∈ parts, Text.Solid part.toList) :
    Text.Solid (enclose l opening closing parts).toList := by
  have ends : Text.Solid [c] := ⟨c, [], rfl, bare.2, fun _ _ => rfl⟩
  by_cases empty : parts = []
  · rw [empty, toList_enclose_nil opens closes]
    exact ⟨o, [c], rfl, bare.1, ends.kept⟩
  · rw [toList_enclose opens closes empty, ← List.append_assoc]
    exact ⟨o, _, rfl, bare.1,
      (broken.deeper.kept_append (solid_intercalate broken.deeper empty each)).append
        (broken.kept_append ends)⟩

theorem solid_entry {e : Scalar × Value} (key : ∃ name, e.1 = .text name)
    (solid : Text.Solid (write l e.2).toList) : Text.Solid (writeEntry l e).toList := by
  obtain ⟨name, text⟩ := key
  obtain ⟨c, more, spelled, notBlank, kept⟩ := solid_quote name
  have value : Text.Kept ([' '] ++ (write l e.2).toList) := solid.kept_append (by decide)
  have entry : (writeEntry l e).toList = c :: (more ++ ':' :: ([' '] ++ (write l e.2).toList)) := by
    rw [writeEntry, text, writeKey, String.toList_append, String.toList_append, spelled]
    simp
  exact ⟨c, _, entry, notBlank, kept.append (value.cons (by decide))⟩

/-- Nothing is trimmed from a written value. -/
theorem solid_write (plain : IsPlain limit v) (broken : l.IsBroken) :
    Text.Solid (write l v).toList := by
  have ofScalar {s : Scalar} (starts : ∃ c more, (writeScalar s).toList = c :: more ∧ StartsWord c)
      (solid : ∀ c ∈ (writeScalar s).toList, Text.isBlank c = false) {l : Layout} :
      Text.Solid (write l (.scalar s)).toList := by
    obtain ⟨c, more, spelled, notBlank, -⟩ := starts
    rw [write]
    rw [spelled] at solid ⊢
    exact ⟨c, more, rfl, notBlank,
      Text.kept_of_forall fun d member => solid d (List.mem_cons_of_mem c member)⟩
  induction plain generalizing l with
  | null => exact ofScalar exists_nullText_cons (by simp [writeScalar, Text.isBlank])
  | bool b =>
    exact ofScalar (exists_boolText_cons b) (by cases b <;> simp [writeScalar, Text.isBlank])
  | @int n short =>
    exact ofScalar (s := .int n) (exists_intText_cons n) fun c => isBlank_of_mem_intText
  | text s =>
    rw [write]
    exact solid_quote s
  | list parts ih =>
    rw [write, writeItems_eq_map]
    refine solid_enclose broken (o := '[') (c := ']') rfl rfl (by decide) ?_
    intro part member
    obtain ⟨v, among, rfl⟩ := List.mem_map.mp member
    exact ih v among broken.deeper
  | object keys distinct parts ih =>
    rw [write, writeFields_eq_map]
    refine solid_enclose broken (o := '\x7b') (c := '\x7d') rfl rfl (by decide) ?_
    intro part member
    obtain ⟨e, among, rfl⟩ := List.mem_map.mp member
    exact solid_entry (keys e among) (ih e among broken.deeper)

theorem areWritable_of_forall {items : List Value} (each : ∀ v ∈ items, isWritable v = true) :
    areWritable items = true := by
  induction items with
  | nil => rfl
  | cons v items ih =>
    obtain ⟨first, others⟩ := List.forall_mem_cons.mp each
    rw [areWritable, first, ih others, Bool.and_self]

theorem areFieldsWritable_of_forall {fields : Fields}
    (keys : ∀ e ∈ fields, ∃ name, e.1 = .text name)
    (each : ∀ e ∈ fields, isWritable e.2 = true) : areFieldsWritable fields = true := by
  induction fields with
  | nil => rfl
  | cons e fields ih =>
    obtain ⟨⟨name, text⟩, texts⟩ := List.forall_mem_cons.mp keys
    obtain ⟨first, others⟩ := List.forall_mem_cons.mp each
    obtain ⟨key, v⟩ := e
    dsimp only at text first
    subst text
    rw [areFieldsWritable, first, ih texts others, Bool.and_self]
    simp

theorem isWritable_of_isPlain (plain : IsPlain limit v) : isWritable v = true := by
  induction plain with
  | null | bool | int | text => rfl
  | list parts ih =>
    rw [isWritable]
    exact areWritable_of_forall ih
  | object keys distinct parts ih =>
    rw [isWritable]
    exact areFieldsWritable_of_forall keys ih

end Json

namespace Client

open Json (IsPlain parseWithin)

variable {text : String}

/-- A solid text is found again in the trimmed text around it. -/
theorem trimLines_around (solid : Text.Solid text.toList) (front back : String) :
    trimLines (front ++ text ++ back) =
      String.ofList (Text.trimmed false front.toList) ++ text ++ trimLines back := by
  rw [← String.toList_inj]
  simp only [String.toList_append, toList_trimLines, List.append_assoc, String.toList_ofList]
  exact solid.trimmed_around front.toList back.toList true

theorem trimLines_of_solid (solid : Text.Solid text.toList) : trimLines text = text := by
  rw [← String.toList_inj, toList_trimLines]
  have alone := solid.trimmed_around [] [] true
  rw [List.append_nil, List.nil_append] at alone
  simpa [Text.trimmed] using alone

/-- A literal is the JSON text of its value, in the layout that its level asks for. -/
theorem exists_literal_eq {limit : Option Nat} {v : Value} (plain : IsPlain limit v)
    (level : Nat) : ∃ l : Json.Layout, l.IsBroken ∧ literal v level = .ok (Json.write l v) := by
  refine ⟨Json.Layout.indented.shift (indentation level),
    Json.isBroken_indented.shift fun c => mem_indentation, ?_⟩
  rw [literal, if_pos (Json.isWritable_of_isPlain plain), Json.renderIndented,
    ← Json.shift_write plain Json.isBroken_indented]
  rfl

/-- The literal of a value of JSON is read back as the value, and so it is from the file: trimming
leaves it as it is, whatever stands around it. -/
theorem literal_reads_back {limit : Option Nat} {v : Value} (plain : IsPlain limit v)
    (level : Nat) :
    ∃ text, literal v level = .ok text ∧ parseWithin limit text = .ok v ∧
      parseWithin limit (trimLines text) = .ok v ∧
      ∀ front back, trimLines (front ++ text ++ back) =
        String.ofList (Text.trimmed false front.toList) ++ text ++ trimLines back := by
  obtain ⟨l, broken, written⟩ := exists_literal_eq plain level
  have solid := Json.solid_write plain broken
  have read := Json.parseWithin_write plain broken.isSpaced
  exact ⟨_, written, read, by rw [trimLines_of_solid solid, read], trimLines_around solid⟩

/-- An object with a string that has blanks around a line break, and a list. -/
def noted : Value :=
  .object [(.text "note", .text "a \n b "), (.text "ids", .list [.int (-3), .null])]

/-- The strings of an example keep their line breaks and the blanks at their ends. -/
theorem literal_reads_back_noted :
    IsPlain (some Text.digitLimit) noted ∧
    ∃ text, literal noted 1 = .ok text ∧ Json.parse (trimLines text) = .ok noted ∧
      text = "\x7b\n    \"note\": \"a \\n b \",\n    \"ids\": [\n      -3,\n      null\n    ]\n  \x7d" := by
  have ids : IsPlain (some Text.digitLimit) (.list [.int (-3), .null]) := by
    refine .list fun v member => ?_
    simp only [List.mem_cons, List.not_mem_nil, or_false] at member
    rcases member with rfl | rfl
    · exact .int (by simp [Text.digitLimit]; decide)
    · exact .null
  have plain : IsPlain (some Text.digitLimit) noted := by
    refine .object (by simp) (by decide) fun e member => ?_
    simp only [List.mem_cons, List.not_mem_nil, or_false] at member
    rcases member with rfl | rfl
    · exact .text _
    · exact ids
  obtain ⟨text, written, -, read, -⟩ := literal_reads_back plain 1
  refine ⟨plain, text, written, read, Except.ok.inj (written.symm.trans ?_)⟩
  cbv

end Client

end ClientGen
