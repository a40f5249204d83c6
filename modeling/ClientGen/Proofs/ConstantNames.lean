import ClientGen.Proofs.ConstantLiterals

/-!
# The names of constants

A value of an enumeration gives its constant a name of words with underscores between them. The
words are the ASCII letters and digits of the upper case form; a gap between them is left by any
other character, and by the end of a run of small letters. Two values therefore get the same name
exactly if they have the same words, and gaps at the same ends (`Naming.constantName_eq_iff`). The
constants of an enumeration of texts are told apart by their names exactly if no two of the texts
are so worded alike (`Models.constants_apart_iff`).
-/
namespace ClientGen

namespace Naming

def isSmall (c : Char) : Bool := 'a' ≤ c && c ≤ 'z'

/-- What a character leaves in a name: the ASCII letters and digits of its upper case form, and a
gap, written as an underscore, for all else. -/
def traces (c : Char) : List Char := (Text.upperChar c).map fun d => if isAlnum d then d else '_'

/-- What the characters of a value leave in its name, with a gap behind each small letter that
something else follows. -/
def outlineFrom : List Char → List Char
  | [] => []
  | [c] => traces c
  | c :: d :: rest =>
    traces c ++ (if isSmall c && !isSmall d then ['_'] else []) ++ outlineFrom (d :: rest)

/-- The letters, digits and gaps of a name. There is a gap in front of a digit or a blank. -/
def outline (s : List Char) : List Char :=
  if needsUnderscore s then '_' :: outlineFrom s else outlineFrom s

def words (s : List Char) : List (List Char) := (Text.splitOn '_' s).filter (· ≠ [])

/-- Two values have the same words, and gaps at the same ends. -/
structure WordedAlike (v w : String) : Prop where
  words : words (outline v.toList) = words (outline w.toList)
  opens : (outline v.toList).head? = some '_' ↔ (outline w.toList).head? = some '_'
  closes : (outline v.toList).getLast? = some '_' ↔ (outline w.toList).getLast? = some '_'

instance (v w : String) : Decidable (WordedAlike v w) :=
  decidable_of_iff (words (outline v.toList) = words (outline w.toList) ∧
      ((outline v.toList).head? = some '_' ↔ (outline w.toList).head? = some '_') ∧
      ((outline v.toList).getLast? = some '_' ↔ (outline w.toList).getLast? = some '_'))
    ⟨fun ⟨words, opens, closes⟩ => ⟨words, opens, closes⟩,
      fun alike => ⟨alike.words, alike.opens, alike.closes⟩⟩

/-- A gap at an end of a name, as the empty run that it cuts off there. -/
def gapAt (c : Option Char) : List (List Char) := if c = some '_' then [[]] else []

variable {c : Char} {s t : List Char} {v w : String}

theorem map_upperChar (c : Char) :
    (Text.upperChar c).map (fun d => if isWord d then d else '_') = traces c := by
  refine List.map_congr_left fun d _ => ?_
  by_cases gap : d = '_'
  · subst gap
    rfl
  · simp [isWord, gap]

/-- The characters of a value leave in its name just what is written there. -/
theorem map_underscored (afterSmall : Bool) (c : Char) (s : List Char) :
    (underscored afterSmall (c :: s)).map (fun d => if isWord d then d else '_') =
      (if afterSmall && !isSmall c then ['_'] else []) ++ outlineFrom (c :: s) := by
  have opened (b : Bool) :
      (if b then ['_'] else []).map (fun d => if isWord d then d else '_') =
        if b then ['_'] else [] := by
    cases b <;> rfl
  have small (d : Char) : isLower [d] = isSmall d := rfl
  rw [underscored, List.map_append, List.map_append, opened, map_upperChar, small c,
    List.append_assoc]
  refine congrArg _ ?_
  induction s generalizing c with
  | nil => exact List.append_nil _
  | cons d s ih =>
    rw [underscored, List.map_append, List.map_append, opened, map_upperChar, outlineFrom, small d,
      List.append_assoc, List.append_assoc, ih d]

/-- The name of a constant is its outline, with each run of gaps as one underscore. -/
theorem toList_constantName (v : String) :
    (constantName (.text v)).toList = mergeUnderscores (outline v.toList) := by
  have shown : (Value.text v).display.toList = v.toList := rfl
  rw [constantName, String.toList_ofList, shown]
  cases v.toList with
  | nil => rfl
  | cons c rest =>
    have traced := map_underscored false c rest
    rw [Bool.false_and, if_neg Bool.false_ne_true, List.nil_append] at traced
    unfold outline
    split
    · rw [List.map_cons, traced]
      rfl
    · rw [traced]

theorem words_gap (s : List Char) : words ('_' :: s) = words s := by
  simp [words, Text.splitOn_cons_sep]

/-- A letter or digit starts the first of the words, or belongs to it. -/
theorem words_cons {first : List Char} {others : List (List Char)} (other : c ≠ '_')
    (cut : Text.splitOn '_' s = first :: others) :
    words (c :: s) = (c :: first) :: others.filter (· ≠ []) := by
  simp [words, Text.splitOn_cons_of_ne other cut]

theorem gapAt_of_ne (other : c ≠ '_') : gapAt (some c) = [] := if_neg (by simpa using other)

@[simp] theorem gapAt_gap : gapAt (some '_') = [[]] := rfl

/-- Without the runs of gaps, a name is cut into its words, and the empty runs at its ends. -/
theorem splitOn_mergeUnderscores (present : s ≠ []) :
    Text.splitOn '_' (mergeUnderscores s) = gapAt s.head? ++ words s ++ gapAt s.getLast? := by
  fun_induction mergeUnderscores s with
  | case1 rest ih =>
    rw [ih (List.cons_ne_nil '_' rest), words_gap ('_' :: rest), List.getLast?_cons_cons]
    rfl
  | case2 c rest notBoth ih =>
    cases rest with
    | nil =>
      by_cases gap : c = '_'
      · subst gap
        rfl
      · rw [words_cons gap rfl, List.head?_cons, List.getLast?_singleton, gapAt_of_ne gap]
        exact Text.splitOn_cons_of_ne gap rfl
    | cons d more =>
      have behind := ih (List.cons_ne_nil d more)
      rw [List.head?_cons] at behind
      rw [List.head?_cons, List.getLast?_cons_cons]
      by_cases gap : c = '_'
      · subst gap
        have other : d ≠ '_' := by
          rintro rfl
          exact notBoth more rfl rfl
        rw [Text.splitOn_cons_sep, behind, words_gap, gapAt_of_ne other]
        rfl
      · rw [gapAt_of_ne gap, List.nil_append]
        by_cases next : d = '_'
        · subst next
          rw [words_gap, gapAt_gap, List.append_assoc, List.singleton_append] at behind
          rw [Text.splitOn_cons_of_ne gap behind,
            words_cons gap (Text.splitOn_cons_sep '_' more)]
          rfl
        · obtain ⟨first, others, cut⟩ :=
            List.exists_cons_of_ne_nil (Text.splitOn_ne_nil '_' more)
          rw [gapAt_of_ne next, words_cons next cut, List.nil_append, List.cons_append] at behind
          rw [Text.splitOn_cons_of_ne gap behind,
            words_cons gap (Text.splitOn_cons_of_ne next cut)]
          rfl
  | case3 => exact absurd rfl present

theorem words_mergeUnderscores (s : List Char) : words (mergeUnderscores s) = words s := by
  cases s with
  | nil => rfl
  | cons c rest =>
    have noWord (d : Option Char) : (gapAt d).filter (· ≠ []) = [] := by
      unfold gapAt
      split <;> simp
    rw [words, splitOn_mergeUnderscores (List.cons_ne_nil c rest), List.filter_append,
      List.filter_append, noWord, noWord, List.nil_append, List.append_nil, words,
      List.filter_filter]
    simp

theorem head?_mergeUnderscores (s : List Char) : (mergeUnderscores s).head? = s.head? := by
  fun_induction mergeUnderscores s with
  | case1 rest ih => exact ih
  | case2 => rfl
  | case3 => rfl

theorem getLast?_mergeUnderscores (s : List Char) :
    (mergeUnderscores s).getLast? = s.getLast? := by
  fun_induction mergeUnderscores s with
  | case1 rest ih => rw [ih, List.getLast?_cons_cons]
  | case2 c rest _ ih => rw [List.getLast?_cons, List.getLast?_cons, ih]
  | case3 => rfl

theorem eq_nil_of_words (noWord : words s = []) (noGap : s.head? ≠ some '_') : s = [] := by
  cases s with
  | nil => rfl
  | cons c rest =>
    have other : c ≠ '_' := fun gap => noGap (congrArg some gap)
    obtain ⟨first, others, cut⟩ := List.exists_cons_of_ne_nil (Text.splitOn_ne_nil '_' rest)
    rw [words_cons other cut] at noWord
    cases noWord

/-- What is left of two outlines is the same exactly if they have the same words, and gaps at the
same ends. -/
theorem mergeUnderscores_eq_iff : mergeUnderscores s = mergeUnderscores t ↔
    words s = words t ∧ (s.head? = some '_' ↔ t.head? = some '_') ∧
      (s.getLast? = some '_' ↔ t.getLast? = some '_') := by
  constructor
  · intro same
    rw [← words_mergeUnderscores s, ← words_mergeUnderscores t, ← head?_mergeUnderscores s,
      ← head?_mergeUnderscores t, ← getLast?_mergeUnderscores s, ← getLast?_mergeUnderscores t,
      same]
    exact ⟨rfl, .rfl, .rfl⟩
  · rintro ⟨sameWords, opens, closes⟩
    by_cases empty : s = []
    · subst empty
      have noGap : t.head? ≠ some '_' := fun gap => by cases opens.mpr gap
      rw [eq_nil_of_words sameWords.symm noGap]
    · have present : t ≠ [] := by
        rintro rfl
        exact empty (eq_nil_of_words sameWords fun gap => by cases opens.mp gap)
      have atHead : gapAt s.head? = gapAt t.head? := by simp only [gapAt, opens]
      have atLast : gapAt s.getLast? = gapAt t.getLast? := by simp only [gapAt, closes]
      have parts : Text.splitOn '_' (mergeUnderscores s) =
          Text.splitOn '_' (mergeUnderscores t) := by
        rw [splitOn_mergeUnderscores empty, splitOn_mergeUnderscores present, sameWords, atHead,
          atLast]
      rw [← Text.join_splitOn '_' (mergeUnderscores s), parts, Text.join_splitOn]

/-- Two texts give constants the same name exactly if they are worded alike. -/
theorem constantName_eq_iff :
    constantName (.text v) = constantName (.text w) ↔ WordedAlike v w := by
  rw [← String.toList_inj, toList_constantName, toList_constantName, mergeUnderscores_eq_iff]
  exact ⟨fun ⟨words, opens, closes⟩ => ⟨words, opens, closes⟩,
    fun alike => ⟨alike.words, alike.opens, alike.closes⟩⟩

end Naming

namespace StringLiteral

variable {s t : List Char}

/-- What is written for a text does not start with a quote. -/
theorem head?_flatMap_escapeQuote : (s.flatMap escapeQuote).head? ≠ some '\x27' := by
  cases s with
  | nil => simp
  | cons c s =>
    by_cases isQuote : c = '\x27'
    · subst isQuote
      simp
    · simp [escapeQuote_of_ne isQuote, isQuote]

theorem flatMap_escapeQuote_eq_nil : s.flatMap escapeQuote = [] ↔ s = [] := by
  rw [← List.getLast?_eq_none_iff, getLast?_flatMap_escapeQuote, List.getLast?_eq_none_iff]

/-- A quote is not written like another character, as no quote may follow that. -/
theorem flatMap_escapeQuote_ne {d : Char} (other : d ≠ '\x27') :
    ('\x27' :: s).flatMap escapeQuote ≠ (d :: t).flatMap escapeQuote := by
  intro same
  rw [List.flatMap_cons, List.flatMap_cons, escapeQuote_of_ne other] at same
  have rest : '\x27' :: s.flatMap escapeQuote = t.flatMap escapeQuote := (List.cons.inj same).2
  exact head?_flatMap_escapeQuote (s := t) (by rw [← rest, List.head?_cons])

/-- Different texts are written differently. -/
theorem flatMap_escapeQuote_inj (same : s.flatMap escapeQuote = t.flatMap escapeQuote) : s = t := by
  induction s generalizing t with
  | nil => exact (flatMap_escapeQuote_eq_nil.mp same.symm).symm
  | cons c s ih =>
    cases t with
    | nil => exact flatMap_escapeQuote_eq_nil.mp same
    | cons d t =>
      by_cases first : c = '\x27'
      · by_cases second : d = '\x27'
        · subst first second
          rw [List.flatMap_cons, List.flatMap_cons, List.append_right_inj] at same
          rw [ih same]
        · subst first
          exact absurd same (flatMap_escapeQuote_ne second)
      · by_cases second : d = '\x27'
        · subst second
          exact absurd same.symm (flatMap_escapeQuote_ne first)
        · rw [List.flatMap_cons, List.flatMap_cons, escapeQuote_of_ne first,
            escapeQuote_of_ne second] at same
          obtain ⟨rfl, rest⟩ := List.cons.inj same
          rw [ih rest]

end StringLiteral

namespace Model

theorem constantText_injective {v w : String}
    (same : constantText (.text v) = constantText (.text w)) : v = w := by
  rw [← String.toList_inj, toList_constantText, toList_constantText] at same
  exact String.toList_inj.mp (StringLiteral.flatMap_escapeQuote_inj same)

/-- The literal text of the first constant with a name. -/
def valueOf? (constants : List EnumConstant) (name : String) : Option String :=
  (constants.find? fun c => c.name = name).map EnumConstant.value

/-- The listed names give all values exactly if they are told apart, where the values are. -/
theorem map_valueOf?_iff {constants : List EnumConstant}
    (apart : (constants.map EnumConstant.value).Nodup) :
    (constants.map fun c => valueOf? constants c.name) = constants.map (fun c => some c.value) ↔
      (constants.map EnumConstant.name).Nodup := by
  rw [List.map_inj_left]
  constructor
  · intro found
    refine apart.of_map.map_on fun c first d second same => ?_
    have both := (found c first).symm.trans (same ▸ found d second)
    exact List.inj_on_of_nodup_map apart first second (Option.some.inj both)
  · intro distinct c member
    cases first : constants.find? fun d => d.name = c.name with
    | none =>
      rw [List.find?_eq_none] at first
      exact absurd (decide_eq_true rfl) (first c member)
    | some d =>
      have own : d.name = c.name := by simpa using List.find?_some first
      have among := List.mem_of_find?_eq_some first
      rw [valueOf?, first, Option.map_some, List.inj_on_of_nodup_map distinct among member own]

end Model

namespace Models

/-- No two of the texts are worded alike. -/
def ToldApart (texts : List String) : Prop :=
  texts.Pairwise fun v w => ¬Naming.WordedAlike v w

instance (texts : List String) : Decidable (ToldApart texts) :=
  inferInstanceAs (Decidable (texts.Pairwise _))

variable {config : Config} {definitions : Fields} {models : Table Model} {key : String} {m : Model}
  {texts : List String}

/-- The names of constants are different exactly if the texts are told apart. -/
theorem nodup_names_iff :
    ((Model.constantsOf (texts.map .text)).map EnumConstant.name).Nodup ↔ ToldApart texts := by
  rw [Model.map_name_constantsOf, List.map_map, List.Nodup, List.pairwise_map, ToldApart]
  simp only [Function.comp_apply, ne_eq, Naming.constantName_eq_iff]

/-- The listed names give all of the texts exactly if these are told apart. -/
theorem values_listed_iff (distinct : texts.Nodup) :
    ((Model.constantsOf (texts.map .text)).map fun c =>
      Model.valueOf? (Model.constantsOf (texts.map .text)) c.name) =
        texts.map (fun v => some (Model.constantText (.text v))) ↔ ToldApart texts := by
  have written := Model.map_value_constantsOf (texts.map .text)
  rw [List.map_map] at written
  have apart : ((Model.constantsOf (texts.map .text)).map EnumConstant.value).Nodup := by
    rw [written]
    exact distinct.map fun _ _ => Model.constantText_injective
  have given := congrArg (List.map some) written
  rw [List.map_map, List.map_map] at given
  rw [← nodup_names_iff, ← Model.map_valueOf?_iff apart]
  exact given ▸ Iff.rfl

/-- The namespace of an enumeration has a constant for each value, and lists their names. Where the
values are texts, the constants have different names exactly if no two of the texts are spelled
alike, and exactly then the names that are listed give all of the texts, if these are different. -/
theorem constants_apart_iff
    (success : (ofDefinitions config (.object definitions)).outcome = .ok models)
    (present : models.get? key = some m) (enumeration : m.kind = .enum) :
    ∃ values, m.Enumerates definitions values ∧
      (∀ setting : Config, setting.enumModule = true → Client.declaration setting m =
        .ok (Client.aliasText m.className
          (" | ".intercalate (m.constants.map Client.constantLiteral)) ++
            Model.namespaceText m.className m.constants)) ∧
      ∀ texts : List String, values = texts.map .text →
        ((m.constants.map EnumConstant.name).Nodup ↔ ToldApart texts) ∧
        (texts.Nodup →
          ((m.constants.map fun c => Model.valueOf? m.constants c.name) =
            texts.map (fun v => some (Model.constantText (.text v))) ↔ ToldApart texts)) := by
  obtain ⟨values, enumerates⟩ := exists_enumerates success present enumeration
  refine ⟨values, enumerates, fun setting asked => ?_, ?_⟩
  · rw [Model.declaration_of_enum enumerates, if_pos asked]
  · rintro texts rfl
    rw [enumerates.constants]
    exact ⟨nodup_names_iff, values_listed_iff⟩

def pairDefinitions (v w : String) : Fields :=
  [(.text "Pair", .object (Model.textsSchema [v, w]))]

theorem exists_pair (v w : String) : ∃ models key m,
    (ofDefinitions {} (.object (pairDefinitions v w))).outcome = .ok models ∧
      models.get? key = some m ∧ m.kind = .enum ∧
      m.constants = Model.constantsOf [.text v, .text w] := by
  obtain ⟨models, success, bodies⟩ : ∃ models,
      (ofDefinitions {} (.object (pairDefinitions v w))).outcome = .ok models ∧
        models.values.map Model.body = [.enum (Model.constantsOf [.text v, .text w])] :=
    ⟨_, ofDefinitions_eq_ok.mpr ⟨_, _, _, rfl, rfl, rfl, rfl⟩, rfl⟩
  obtain ⟨m, only, body⟩ := List.map_eq_singleton_iff.mp bodies
  obtain ⟨key, present⟩ := Table.mem_values.mp (by simp [only] : m ∈ models.values)
  exact ⟨models, key, m, success, present, by rw [Model.kind, body],
    by rw [Model.constants, body]⟩

/-- Values with different words have different constants, which all are found by their names. -/
theorem constants_apart_stock : ∃ models key m,
    (ofDefinitions {} (.object (pairDefinitions "inStock" "on-hold"))).outcome = .ok models ∧
    models.get? key = some m ∧ m.kind = .enum ∧
    m.constants.map EnumConstant.name = ["IN_STOCK", "ON_HOLD"] ∧
    (m.constants.map EnumConstant.name).Nodup ∧
    (m.constants.map fun c => Model.valueOf? m.constants c.name) =
      [some "inStock", some "on-hold"] := by
  obtain ⟨models, key, m, success, present, enumeration, constants⟩ :=
    exists_pair "inStock" "on-hold"
  obtain ⟨values, enumerates, -, told⟩ := constants_apart_iff success present enumeration
  have given : values = ["inStock", "on-hold"].map .text := enumerates.eq_of_singleton rfl
  obtain ⟨distinct, listed⟩ := told _ given
  have apart : ToldApart ["inStock", "on-hold"] := by decide
  refine ⟨models, key, m, success, present, enumeration, ?_, distinct.mpr apart, ?_⟩
  · rw [constants]
    decide
  · rw [(listed (by decide)).mpr apart]
    decide

/-- The signs of numbers are gaps, so that two constants have the same name, by which only the first
one is found. -/
theorem constants_clash : ∃ models key m,
    (ofDefinitions {} (.object (pairDefinitions "+1" "-1"))).outcome = .ok models ∧
    models.get? key = some m ∧ m.kind = .enum ∧
    m.Enumerates (pairDefinitions "+1" "-1") [.text "+1", .text "-1"] ∧
    m.constants.map EnumConstant.name = ["_1", "_1"] ∧
    ¬(m.constants.map EnumConstant.name).Nodup ∧
    (m.constants.map fun c => Model.valueOf? m.constants c.name) = [some "+1", some "+1"] := by
  obtain ⟨models, key, m, success, present, enumeration, constants⟩ :=
    exists_pair "+1" "-1"
  obtain ⟨values, enumerates⟩ := exists_enumerates success present enumeration
  have given : values = [.text "+1", .text "-1"] := enumerates.eq_of_singleton rfl
  rw [given] at enumerates
  have names : m.constants.map EnumConstant.name = ["_1", "_1"] := by
    rw [constants]
    decide
  refine ⟨models, key, m, success, present, enumeration, enumerates, names, ?_, ?_⟩
  · rw [names]
    decide
  · rw [constants]
    decide

end Models

end ClientGen
