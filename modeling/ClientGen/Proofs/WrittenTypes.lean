import ClientGen.Proofs.TupleTypes

/-!
# The texts of types

The text that is printed for a schema is scanned as the tokens of what the schema means, unless
places of tuples are missing (`Schema.written`, with one lemma for each kind of schema). Since
tokens are read as the type that they are written for, and as no other one, this decides when the
text is read as what the schema means (`typeAt_reads_meaning_iff`). It is misread where a union is a
branch of an intersection, as nothing is printed around the union (`typeAt_misread_piece`).
-/
namespace ClientGen.Schema

open Token (Spells Delimits IsWord delimits_blank delimits_mark delimits_literal spells_word
  spells_intercalate)
open TypeTree (joinOf all_iff all_joinOf_iff tokens_joinOf)

def Written (s : Schema) (t : TypeExpr) : Prop :=
  t.text ≠ "" ∧ ∃ tokens, Spells t.text.toList tokens ∧ s.Renders tokens

theorem delimits_junction (j : Junction) : Delimits [' ', j.mark, ' '] [.mark j.mark] := by
  have mark : Token.isMark j.mark = true := by cases j <;> rfl
  have blank : Delimits [' '] [] := delimits_blank rfl
  exact blank.append ((delimits_mark mark).append blank)

theorem delimits_comma : Delimits [',', ' '] [.mark ','] :=
  (delimits_mark rfl).append (delimits_blank rfl)

/-- Texts of types with the mark of a junction between each two are scanned as one might expect. -/
theorem spells_junction {j : Junction} {texts : List String} {pieces : List (List Token)}
    (each : List.Forall₂ Spells (texts.map String.toList) pieces) {separator : String}
    (same : separator.toList = [' ', j.mark, ' ']) :
    Spells (separator.intercalate texts).toList (separated j.mark pieces) := by
  rw [String.toList_intercalate, same]
  exact spells_intercalate rfl (delimits_junction j) each

theorem ne_empty_of_infix {s t : String} (present : s ≠ "") (within : s.toList <:+: t.toList) :
    t ≠ "" := by
  rintro rfl
  have empty : s.toList = [] := List.eq_nil_of_infix_nil (by simpa using within)
  exact present (String.toList_eq_nil_iff.mp empty)

/-- Texts that are put together are not empty if one of them is not. -/
theorem intercalate_ne_empty {separator text : String} {texts : List String}
    (member : text ∈ texts) (present : text ≠ "") : separator.intercalate texts ≠ "" :=
  ne_empty_of_infix present (Text.infix_intercalate member)

section Leaves

theorem spells_text {w : String} (isWord : IsWord w.toList) :
    w ≠ "" ∧ Spells w.toList [.word w.toList] := by
  refine ⟨?_, spells_word isWord⟩
  rintro rfl
  exact isWord.1 rfl

section Restricted

variable {name : String} {literal : Value → String} {tree : Value → TypeTree}

theorem spells_unlisted (isWord : IsWord name.toList)
    (spelled : ∀ v, (tree v).Legible → literal v ≠ "" ∧ Spells (literal v).toList (tree v).tokens)
    {const : Value} (legible : (restrictedTree name tree none const).All TypeTree.Legible) :
    (restricted name literal none const).text ≠ "" ∧
      Spells (restricted name literal none const).text.toList
        (restrictedTree name tree none const).tokens := by
  unfold restricted restrictedTree at *
  by_cases free : const = .null
  · simp only [free, if_true]
    exact spells_text isWord
  · simp only [free, if_false] at legible ⊢
    exact spelled const (all_iff.mp legible).1

/-- The literals of a restricted type are written one after another. -/
theorem spells_restricted (isWord : IsWord name.toList) (normal : ∀ v, (tree v).Normal)
    (spelled : ∀ v, (tree v).Legible → literal v ≠ "" ∧ Spells (literal v).toList (tree v).tokens)
    {enum : Option (List Value)} {const : Value}
    (legible : (restrictedTree name tree enum const).All TypeTree.Legible) :
    (restricted name literal enum const).text ≠ "" ∧
      Spells (restricted name literal enum const).text.toList
        (restrictedTree name tree enum const).tokens := by
  match enum with
  | none => exact spells_unlisted isWord spelled legible
  | some [] => exact spells_unlisted isWord spelled legible
  | some (v :: rest) =>
    have each := (all_joinOf_iff fun _ => trivial).mp legible
    have own : ∀ w ∈ v :: rest, (tree w).Legible := fun w member =>
      (all_iff.mp (each (tree w) (List.mem_map_of_mem member))).1
    have pieces : List.Forall₂ Spells (((v :: rest).map literal).map String.toList)
        (((v :: rest).map tree).map TypeTree.tokens) := by
      rw [List.map_map, List.map_map, List.forall₂_map_left_iff, List.forall₂_map_right_iff,
        List.forall₂_same]
      exact fun w member => (spelled w (own w member)).2
    have listed : ∀ t ∈ (v :: rest).map tree, t.Normal := by
      intro t member
      obtain ⟨w, -, rfl⟩ := List.mem_map.mp member
      exact normal w
    refine ⟨intercalate_ne_empty (List.mem_map_of_mem List.mem_cons_self)
      (spelled v (own v List.mem_cons_self)).1, ?_⟩
    rw [restrictedTree, tokens_joinOf listed]
    exact spells_junction (j := .union) pieces rfl

end Restricted

theorem spells_primitiveType {kind : PrimitiveType} {enum : Option (List Value)} {const : Value}
    (legible : (primitiveTree kind enum const).All TypeTree.Legible) :
    (primitiveType kind enum const).text ≠ "" ∧
      Spells (primitiveType kind enum const).text.toList
        (primitiveTree kind enum const).tokens := by
  have string : ∀ v : Value, (TypeTree.literal v.display).Legible → stringLiteral v ≠ "" ∧
      Spells (stringLiteral v).toList (TypeTree.literal v.display).tokens := by
    intro v unbroken
    refine ⟨?_, (delimits_literal rfl unbroken).spells⟩
    intro empty
    have opened : (stringLiteral v).toList ≠ [] := by simp [stringLiteral, Naming.literal]
    exact opened (by rw [empty]; rfl)
  have number : ∀ v : Value, (TypeTree.number (numberLiteral v)).Legible → numberLiteral v ≠ "" ∧
      Spells (numberLiteral v).toList (TypeTree.number (numberLiteral v)).tokens :=
    fun v numeral => spells_text numeral.1
  have stringNormal : ∀ v : Value, (TypeTree.literal v.display).Normal := fun _ => trivial
  have numberNormal : ∀ v, (TypeTree.number (numberLiteral v)).Normal := fun _ => trivial
  cases kind with
  | string => exact spells_restricted (by decide) stringNormal string legible
  | integer => exact spells_restricted (by decide) numberNormal number legible
  | number => exact spells_restricted (by decide) numberNormal number legible
  | boolean => exact spells_text (w := "boolean") (by decide)
  | null => exact spells_text (w := "null") (by decide)

end Leaves

section Parts

variable {schemas : List Schema} {types : List TypeExpr}

/-- The types of several schemas are not empty, and each is scanned as tokens of its own. -/
theorem pieces_of_types (typed : List.Forall₂ (fun s t => s.type = .ok t) schemas types)
    (each : ∀ s ∈ schemas, ∀ t, s.type = .ok t → s.Written t) :
    (∀ t ∈ types, t.text ≠ "") ∧ ∃ pieces,
      List.Forall₂ Spells ((types.map TypeExpr.text).map String.toList) pieces ∧
        List.Forall₂ Renders schemas pieces := by
  induction typed with
  | nil => exact ⟨by simp, [], .nil, .nil⟩
  | @cons s t schemas types own _ ih =>
    obtain ⟨first, later⟩ := List.forall_mem_cons.mp each
    obtain ⟨present, tokens, spelled, renders⟩ := first t own
    obtain ⟨othersPresent, pieces, othersSpelled, others⟩ := ih later
    exact ⟨List.forall_mem_cons.mpr ⟨present, othersPresent⟩, tokens :: pieces,
      .cons spelled othersSpelled, .cons renders others⟩

end Parts

section Entries

/-- A name that can be used as a property name without quotes is a word. -/
theorem isWord_of_isBareName {name : List Char} (bare : Naming.isBareName name = true)
    (unbroken : Token.Unbroken name) : IsWord name := by
  have ofBare : ∀ c, Naming.isBare c = true → Token.isWordChar c = true := by
    intro c bare
    simp [Token.isWordChar, bare]
  cases name with
  | nil => cases bare
  | cons c rest =>
    obtain ⟨start, behind⟩ := Bool.and_eq_true_iff.mp bare
    have startBare : Naming.isBare c = true := by
      rcases Bool.or_eq_true_iff.mp start with word | dollar
      · rw [Naming.isBare, (Bool.and_eq_true_iff.mp word).1, Bool.true_or]
      · rw [Naming.isBare, dollar, Bool.or_true]
    have restBare : rest.all Naming.isBare = true := by
      rcases Bool.or_eq_true_iff.mp behind with all | feed
      · exact all
      · have last : rest.getLast? = some '\n' := by simpa using (Bool.and_eq_true_iff.mp feed).1
        have broken := unbroken '\n' (List.mem_cons_of_mem c (List.mem_of_getLast? last))
        cases broken
    refine ⟨List.cons_ne_nil c rest, List.forall_mem_cons.mpr ⟨ofBare c startBare, ?_⟩⟩
    exact fun d member => ofBare d (List.all_eq_true.mp restBare d member)

/-- A text in front of the type of an entry is scanned as what stands there. -/
def Leads (front : String) (e : ObjectEntry) : Prop := Delimits front.toList e.tokens

theorem delimits_colon : Delimits [':', ' '] [.mark ':'] :=
  (delimits_mark rfl).append (delimits_blank rfl)

theorem leads_others : Leads "[key: string]: " .others := by
  have key := (spells_word (s := "key".toList) (by decide)).append rfl delimits_colon
  have ends : Delimits [']', ':', ' '] [.mark ']', .mark ':'] :=
    (delimits_mark rfl).append delimits_colon
  have string := (spells_word (s := "string".toList) (by decide)).append rfl ends
  exact (delimits_mark (c := '[') rfl).append (key.append string)

/-- The name of a member is scanned as a word or as a literal, together with what comes behind. -/
theorem delimits_propertyKey {name : String} (unbroken : Token.Unbroken name.toList) {c : Char}
    {behind : List Char} {tokens : List Token} (ends : Token.isWordChar c = false)
    (delimits : Delimits (c :: behind) tokens) :
    Delimits ((Naming.propertyKey name).toList ++ c :: behind)
      ((if Naming.isBareName name.toList then .word name.toList else .quoted name.toList) ::
        tokens) := by
  unfold Naming.propertyKey
  split
  · rename_i bare
    exact (spells_word (isWord_of_isBareName bare unbroken)).append ends delimits
  · exact (delimits_literal rfl unbroken).append delimits

theorem leads_of_memberText {m : Member} {t : TypeExpr} {text : String}
    (written : memberText m t = .ok text) (legible : (entryOf m).Legible) :
    ∃ front, text = front ++ t.text ∧ Leads front (entryOf m) := by
  obtain ⟨name, required⟩ := m
  unfold memberText at written
  obtain ⟨key, named, written⟩ := bind_eq_ok.mp written
  cases written
  refine ⟨_, rfl, ?_⟩
  cases name with
  | text name =>
    cases named
    have unbroken : Token.Unbroken name.toList := legible
    have optional : Delimits ['?', ':', ' '] [.mark '?', .mark ':'] :=
      (delimits_mark rfl).append delimits_colon
    have requiredSeparator : ": ".toList = [':', ' '] := rfl
    have optionalSeparator : "?: ".toList = ['?', ':', ' '] := rfl
    rw [Leads, String.toList_append]
    cases required with
    | true =>
      rw [if_pos rfl, requiredSeparator]
      exact delimits_propertyKey unbroken rfl delimits_colon
    | false =>
      rw [if_neg Bool.false_ne_true, optionalSeparator]
      exact delimits_propertyKey unbroken rfl optional
  | _ => cases named

def entryTokens (entries : List ObjectEntry) (pieces : List (List Token)) : List (List Token) :=
  List.zipWith (fun e tokens => e.tokens ++ tokens) entries pieces

theorem sum_places_entryTokens {entries : List ObjectEntry} {pieces : List (List Token)}
    (sameLength : pieces.length = entries.length) :
    ((entryTokens entries pieces).map places).sum =
      (entries.map fun e => places e.tokens).sum + (pieces.map places).sum := by
  induction entries generalizing pieces with
  | nil =>
    rw [List.length_nil, List.length_eq_zero_iff] at sameLength
    subst sameLength
    rfl
  | cons e entries ih =>
    cases pieces with
    | nil => cases sameLength
    | cons tokens pieces =>
      have later := ih (Nat.succ.inj sameLength)
      simp only [entryTokens, List.zipWith_cons_cons, List.map_cons, List.sum_cons,
        places_append] at later ⊢
      omega

def recordTokens (entries : List ObjectEntry) (pieces : List (List Token)) : List Token :=
  .mark '\x7b' :: separated ',' (entryTokens entries pieces) ++ [Token.mark '\x7d']

theorem places_recordTokens {entries : List ObjectEntry} {pieces : List (List Token)}
    (sameLength : pieces.length = entries.length) :
    places (recordTokens entries pieces) =
      entries.length - 1 + (entries.map fun e => places e.tokens).sum +
        (pieces.map places).sum := by
  have opening : (Token.mark '\x7b').places = 0 := rfl
  have closing : (Token.mark '\x7d').places = 0 := rfl
  have comma : (Token.mark ',').places = 1 := rfl
  have count : (entryTokens entries pieces).length = entries.length := by
    simp [entryTokens, sameLength]
  simp only [recordTokens, List.cons_append, places_cons, places_append, places_nil,
    places_separated, opening, closing, comma, count, sum_places_entryTokens sameLength]
  omega

theorem tokens_object (entries : List (ObjectEntry × Schema)) :
    (TypeTree.object (entries.map fun e => (e.1, e.2.meaning))).tokens =
      recordTokens (entries.map Prod.fst) (meant (entries.map Prod.snd)) := by
  have zipped : (entries.map fun e => e.1.tokens ++ e.2.meaning.tokens) =
      entryTokens (entries.map Prod.fst) (meant (entries.map Prod.snd)) := by
    rw [entryTokens, meant, List.map_map, List.zipWith_map, List.zipWith_self]
    rfl
  rw [TypeTree.tokens, TypeTree.tokensOfEntries_eq_map, List.map_map, recordTokens, ← zipped]
  rfl

/-- The entries of an object type are scanned one by one. -/
theorem pieces_of_entries {entries : List (ObjectEntry × Schema)} {texts : List (String × TypeExpr)}
    (typed : List.Forall₂ (fun e w => e.2.type = .ok w.2 ∧
      ∃ front, w.1 = front ++ w.2.text ∧ Leads front e.1) entries texts)
    (each : ∀ e ∈ entries, ∀ t, e.2.type = .ok t → e.2.Written t) :
    ∃ pieces, List.Forall₂ Spells ((texts.map Prod.fst).map String.toList)
        (entryTokens (entries.map Prod.fst) pieces) ∧
      List.Forall₂ Renders (entries.map Prod.snd) pieces := by
  induction typed with
  | nil => exact ⟨[], .nil, .nil⟩
  | @cons e w entries texts own _ ih =>
    obtain ⟨typed, front, text, leads⟩ := own
    obtain ⟨first, later⟩ := List.forall_mem_cons.mp each
    obtain ⟨-, tokens, spelled, renders⟩ := first w.2 typed
    obtain ⟨pieces, othersSpelled, others⟩ := ih later
    refine ⟨tokens :: pieces, .cons ?_ othersSpelled, .cons renders others⟩
    rw [text, String.toList_append]
    exact leads.append_spells spelled

end Entries

section Nodes

variable {o : Origin}

theorem written_leaf {s : Schema} {t : TypeExpr} (leaf : s.parts = [])
    (spelled : t.text ≠ "" ∧ Spells t.text.toList s.meaning.tokens) : s.Written t := by
  have plain : ∀ o items least most additional, s ≠ .tuple o items least most additional := by
    rintro o items least most additional rfl
    simp [parts] at leaf
  have fit : s.TuplesFit := (tuplesFit_iff_parts plain).mpr (by simp [leaf])
  exact ⟨spelled.1, _, spelled.2, renders_meaning fit⟩

/-- A junction of the types of schemas is written for their junction. -/
theorem written_junction {s : Schema} {j : Junction} {separator : String} {types : List TypeExpr}
    (plain : ∀ o items least most additional, s ≠ .tuple o items least most additional)
    (means : s.meaning = joinOf j (s.parts.map meaning)) (parts : s.parts ≠ [])
    (normal : ∀ part ∈ s.parts, part.meaning.Normal)
    (same : separator.toList = [' ', j.mark, ' '])
    (typed : List.Forall₂ (fun s t => s.type = .ok t) s.parts types)
    (legible : s.meaning.All TypeTree.Legible)
    (each : ∀ part ∈ s.parts, ∀ t, part.type = .ok t → part.meaning.All TypeTree.Legible →
      part.Written t) :
    s.Written (.combine separator types) := by
  rw [means] at legible
  have partsLegible := (all_joinOf_iff fun _ => trivial).mp legible
  obtain ⟨present, pieces, spelled, renders⟩ := pieces_of_types typed fun part member t typed =>
    each part member t typed (partsLegible _ (List.mem_map_of_mem member))
  have unmarked : (Token.mark j.mark).places = 0 := by cases j <;> rfl
  have counted : ∀ pieces : List (List Token), pieces.length = s.parts.length →
      places (separated j.mark pieces) = 0 + (pieces.map places).sum := by
    intro pieces _
    rw [places_separated, unmarked, Nat.mul_zero]
  have whole : s.meaning.tokens = separated j.mark (meant s.parts) := by
    have listed : ∀ t ∈ s.parts.map meaning, t.Normal := by
      intro t member
      obtain ⟨part, among, rfl⟩ := List.mem_map.mp member
      exact normal part among
    rw [means, tokens_joinOf listed, List.map_map]
    rfl
  refine ⟨?_, _, spells_junction spelled same,
    renders_of_parts (tuplesFit_iff_parts plain) whole counted renders⟩
  obtain ⟨part, among⟩ := List.exists_mem_of_ne_nil _ parts
  obtain ⟨t, member, -⟩ := exists_of_forall₂ typed among
  exact intercalate_ne_empty (List.mem_map_of_mem member) (present t member)

theorem written_nullable {inner : Schema} {t : TypeExpr} (normal : inner.meaning.Normal)
    (written : inner.Written t) : (Schema.nullable o inner).Written t.nullable := by
  obtain ⟨-, tokens, spelled, renders⟩ := written
  have null : Spells "null".toList [.word "null".toList] := spells_word (by decide)
  have pieces : List.Forall₂ Spells (["null", t.text].map String.toList)
      [[.word "null".toList], tokens] := .cons null (.cons spelled .nil)
  have text : t.nullable.text = " | ".intercalate ["null", t.text] := rfl
  have whole : (Schema.nullable o inner).meaning.tokens =
      separated '|' ([.word "null".toList] :: meant [inner]) := by
    have listed : ∀ t ∈ [.name "null", inner.meaning], t.Normal := by simpa [TypeTree.Normal]
    rw [meaning, tokens_joinOf listed]
    rfl
  have counted : ∀ pieces : List (List Token), pieces.length = [inner].length →
      places (separated '|' ([.word "null".toList] :: pieces)) = 0 + (pieces.map places).sum := by
    intro pieces _
    simp [places_separated, Token.places]
  have fit := tuplesFit_iff_parts (s := .nullable o inner) (by simp)
  refine ⟨?_, _, ?_, renders_of_parts fit whole counted (.cons renders .nil)⟩
  · rw [text]
    exact intercalate_ne_empty List.mem_cons_self (by decide : "null" ≠ "")
  · rw [text]
    exact spells_junction (j := .union) pieces rfl

theorem spells_array {text : List Char} {tokens : List Token} (spelled : Spells text tokens) :
    Spells ("Array<".toList ++ text ++ ['>'])
      ([Token.word "Array".toList, Token.mark '<'] ++ tokens ++ [Token.mark '>']) := by
  have front : Delimits "Array<".toList [.word "Array".toList, .mark '<'] :=
    (spells_word (s := "Array".toList) (by decide)).append rfl (delimits_mark rfl)
  have closing : Delimits ['>'] [.mark '>'] := delimits_mark rfl
  exact ((front.append_spells spelled).append rfl closing).spells

theorem written_array {items : Schema} {t : TypeExpr} (written : items.Written t) :
    (Schema.array o items).Written t.arrayOf := by
  obtain ⟨-, tokens, spelled, renders⟩ := written
  have text : t.arrayOf.text.toList = "Array<".toList ++ t.text.toList ++ ['>'] := by
    simp [TypeExpr.arrayOf, TypeExpr.compound]
  have whole : (Schema.array o items).meaning.tokens =
      [Token.word "Array".toList, Token.mark '<'] ++ (meant [items]).flatten ++
        [Token.mark '>'] := by
    simp [meaning, TypeTree.tokens, meant]
  have counted : ∀ pieces : List (List Token), pieces.length = [items].length →
      places ([Token.word "Array".toList, Token.mark '<'] ++ pieces.flatten ++ [Token.mark '>']) =
        0 + (pieces.map places).sum := by
    intro pieces sameLength
    obtain ⟨tokens, rfl⟩ := List.length_eq_one_iff.mp sameLength
    simp [Token.places]
  have fit := tuplesFit_iff_parts (s := .array o items) (by simp)
  refine ⟨?_, _, ?_, renders_of_parts fit whole counted (.cons renders .nil)⟩
  · intro empty
    rw [empty] at text
    simp at text
  · rw [text, List.flatten_singleton]
    exact spells_array spelled

/-- The entries of an object schema: what it says about its members and about other keys. -/
def entriesOf (members : List (Member × Schema)) (additional : Option Schema) :
    List (ObjectEntry × Schema) :=
  (members.map fun m => (entryOf m.1, m.2)) ++ additional.toList.map (ObjectEntry.others, ·)

/-- Every entry of an object type has a type, and its text leads up to that. -/
theorem forall₂_of_entries {members : List (Member × Schema)} {additional : Option Schema}
    {declared others : List (String × TypeExpr)}
    (written : List.Forall₂ (fun m e => m.2.type = .ok e.2 ∧ memberText m.1 e.2 = .ok e.1)
      members declared)
    (free : List.Forall₂ (fun s e => ∃ t, s.type = .ok t ∧ e = ("[key: string]: " ++ t.text, t))
      additional.toList others)
    (legible : ∀ m ∈ members, (entryOf m.1).Legible) :
    List.Forall₂ (fun e w => e.2.type = .ok w.2 ∧
        ∃ front, w.1 = front ++ w.2.text ∧ Leads front e.1) (entriesOf members additional)
      (declared ++ others) := by
  refine List.rel_append ?_ ?_
  · have typed := (List.forall₂_and_left _ _).mpr ⟨legible, written⟩
    refine List.forall₂_map_left_iff.mpr (typed.imp fun m w own => ?_)
    obtain ⟨legible, typed, written⟩ := own
    exact ⟨typed, leads_of_memberText written legible⟩
  · refine List.forall₂_map_left_iff.mpr (free.imp ?_)
    rintro s _ ⟨t, typed, rfl⟩
    exact ⟨typed, "[key: string]: ", rfl, leads_others⟩

theorem written_record {members : List (Member × Schema)} {required : List Value}
    {additional : Option Schema} {declared others : List (String × TypeExpr)}
    (written : List.Forall₂ (fun m e => m.2.type = .ok e.2 ∧ memberText m.1 e.2 = .ok e.1)
      members declared)
    (free : List.Forall₂ (fun s e => ∃ t, s.type = .ok t ∧ e = ("[key: string]: " ++ t.text, t))
      additional.toList others)
    (legible : ∀ m ∈ members, (entryOf m.1).Legible)
    (each : ∀ part ∈ (Schema.record o members required additional).parts,
      ∀ t, part.type = .ok t → part.Written t) :
    (Schema.record o members required additional).Written
      (.compound (recordText ((declared ++ others).map Prod.fst))
        ((declared ++ others).map Prod.snd)) := by
  have listed : (entriesOf members additional).map Prod.snd =
      (Schema.record o members required additional).parts := by
    simp [entriesOf, parts, Function.comp_def]
  have own : ∀ e ∈ entriesOf members additional, ∀ t, e.2.type = .ok t → e.2.Written t :=
    fun e member => each e.2 (listed ▸ List.mem_map_of_mem member)
  obtain ⟨pieces, spelled, renders⟩ :=
    pieces_of_entries (forall₂_of_entries written free legible) own
  have whole : (Schema.record o members required additional).meaning.tokens =
      recordTokens ((entriesOf members additional).map Prod.fst)
        (meant ((entriesOf members additional).map Prod.snd)) := by
    rw [← tokens_object, meaning_record, entriesOf, List.map_append, List.map_map, List.map_map]
    rfl
  have sameCount : ∀ pieces : List (List Token),
      pieces.length = ((entriesOf members additional).map Prod.snd).length →
        pieces.length = ((entriesOf members additional).map Prod.fst).length := by
    intro pieces sameLength
    rwa [List.length_map] at sameLength ⊢
  have counted := fun pieces sameLength => places_recordTokens (sameCount pieces sameLength)
  have fit := tuplesFit_iff_parts (s := .record o members required additional) (by simp)
  rw [← listed] at fit
  have opening : Delimits ['\x7b'] [.mark '\x7b'] := delimits_mark rfl
  have closing : Delimits ['\x7d'] [.mark '\x7d'] := delimits_mark rfl
  have inside := spells_intercalate (by decide) delimits_comma spelled
  refine ⟨?_, _, ?_, renders_of_parts fit whole counted renders⟩
  · intro empty
    have opened := congrArg String.toList empty
    simp [TypeExpr.compound, recordText] at opened
  · simpa [TypeExpr.compound, recordText, recordTokens, String.toList_intercalate] using
      ((opening.append_spells inside).append rfl closing).spells

end Nodes

section Tuples

variable {o : Origin} {items : List Schema} {minItems maxItems : Value} {additional : Option Schema}

/-- An integer counts as set unless it is zero. -/
theorem isSet_iff_of_bound {v : Value} {n : Int} (integer : bound v = .ok n) :
    v.isSet = true ↔ n ≠ 0 := by
  unfold bound at integer
  split at integer
  · rename_i m found
    cases integer
    unfold Value.index? at found
    split at found
    · cases found
      simp [Value.isSet]
    · rename_i b
      cases found
      cases b <;> simp [Value.isSet]
    · cases found
  · cases integer

/-- The places of a tuple that are printed are those below its greatest length. -/
theorem tuplesFit_tuple {least most : Nat} (le : least ≤ most) (bounded : maxItems.isSet = true)
    (smallest : leastLength minItems = .ok least) (greatest : bound maxItems = .ok most) :
    (Schema.tuple o items minItems maxItems additional).TuplesFit ↔
      most ≤ items.length + 1 ∧
        ∀ part ∈ (items ++ [additional.getD (.any o none)]).take most, part.TuplesFit := by
  have positive : (most : Int) ≠ 0 := (isSet_iff_of_bound greatest).mp bounded
  have fits : (Schema.tuple o items minItems maxItems additional).Fits ↔
      most ≤ items.length + 1 := by
    constructor
    · intro fits
      have within := (fits most greatest).2
      omega
    · intro within other same
      cases greatest.symm.trans same
      exact ⟨by omega, by omega⟩
  rw [tuplesFit_iff, fits]
  refine and_congr_right fun _ => ⟨fun each part member => ?_, fun each part prints => ?_⟩
  · exact each part (.place bounded greatest smallest (Int.ofNat_le.mpr le) (Int.le_refl _) member)
  · cases prints with
    | place _ sameGreatest sameSmallest atLeast atMost member =>
      cases greatest.symm.trans sameGreatest
      cases smallest.symm.trans sameSmallest
      have counts : 0 ≤ (least : Int) := Int.natCast_nonneg least
      exact each part (firstItems_subset _ (Int.le_trans counts atLeast) atMost member)

theorem lengths_natCast (least most : Nat) :
    lengths least most = List.range' least (most + 1 - least) := by
  have count : ((most : Int) + 1 - (least : Int)).toNat = most + 1 - least := by omega
  rw [lengths, Int.toNat_natCast, count]

theorem meaning_unbounded (absent : maxItems = .null) :
    (Schema.tuple o items minItems maxItems additional).meaning = .array (.name "any") := by
  subst absent
  rw [meaning_tuple, tupleTree]
  cases leastLength minItems <;> rfl

theorem meaning_bounded {least most : Int} (smallest : leastLength minItems = .ok least)
    (greatest : bound maxItems = .ok most) :
    (Schema.tuple o items minItems maxItems additional).meaning =
      joinOf .union ((lengths least most).map fun length =>
        .tuple (padded (items.map meaning) (additional.getD (.any o none)).meaning length)) := by
  rw [meaning_tuple, tupleTree, smallest, greatest]

theorem tokens_bounded {least most : Int} (smallest : leastLength minItems = .ok least)
    (greatest : bound maxItems = .ok most) :
    (Schema.tuple o items minItems maxItems additional).meaning.tokens =
      separated '|' ((lengths least most).map
        (meantTuple items (additional.getD (.any o none)))) := by
  have normal : ∀ t ∈ (lengths least most).map fun length => TypeTree.tuple
      (padded (items.map meaning) (additional.getD (.any o none)).meaning length), t.Normal := by
    intro t member
    obtain ⟨length, -, rfl⟩ := List.mem_map.mp member
    trivial
  rw [meaning_bounded smallest greatest, tokens_joinOf normal, List.map_map]
  congr 1
  refine List.map_congr_left fun n _ => ?_
  rw [Function.comp_apply, TypeTree.tokens, TypeTree.tokensOfAll_eq_map]
  rfl

/-- A tuple without a greatest length is written as an array, and so is one without any place. -/
theorem written_unbounded (unbounded : maxItems.isSet = false)
    (regular : (Schema.tuple o items minItems maxItems additional).Regular) :
    (Schema.tuple o items minItems maxItems additional).Written
      (.scalar ("Array<" ++ TypeExpr.anyType.text ++ ">")) := by
  have spelled := spells_array (spells_word (s := "any".toList) (by decide))
  have present : "Array<" ++ TypeExpr.anyType.text ++ ">" ≠ "" := by decide
  have text : ("Array<" ++ TypeExpr.anyType.text ++ ">").toList =
      "Array<".toList ++ "any".toList ++ ['>'] := rfl
  refine ⟨present, _, text ▸ spelled, ?_⟩
  rcases regular with absent | ⟨least, most, smallest, greatest, counts, le⟩
  · have fit : (Schema.tuple o items minItems maxItems additional).TuplesFit := by
      refine tuplesFit_iff.mpr ⟨?_, fun part prints => ?_⟩
      · intro most greatest
        rw [absent] at greatest
        cases greatest
      · cases prints with
        | place bounded => exact absurd bounded (by simp [unbounded])
    have means := renders_meaning fit
    rw [meaning_unbounded absent] at means
    exact means
  · have zero : most = 0 := by
      by_contra positive
      rw [(isSet_iff_of_bound greatest).mpr positive] at unbounded
      cases unbounded
    have least_zero : least = 0 := by omega
    subst zero least_zero
    have unfit : ¬(Schema.tuple o items minItems maxItems additional).TuplesFit := fun fit =>
      Int.lt_irrefl 0 ((tuplesFit_iff.mp fit).1 0 greatest).1
    have one : places (Schema.tuple o items minItems maxItems additional).meaning.tokens = 1 := by
      have alone : lengths 0 0 = [0] := rfl
      rw [tokens_bounded smallest greatest, alone, List.map_singleton, separated_singleton,
        meantTuple_of_le (Nat.zero_le _)]
      rfl
    refine ⟨?_, fun fit => absurd fit unfit, ?_⟩
    · rw [one]
      decide
    · rw [one]
      intro all
      exact absurd all (by decide)

theorem spells_tupleText {types : List TypeExpr} {pieces : List (List Token)}
    (each : List.Forall₂ Spells ((types.map TypeExpr.text).map String.toList) pieces) :
    Spells (tupleText types).toList (bracketed pieces) := by
  have opening : Delimits ['['] [.mark '['] := delimits_mark rfl
  have closing : Delimits [']'] [.mark ']'] := delimits_mark rfl
  have inside := spells_intercalate (by decide) delimits_comma each
  rw [List.map_map] at inside
  rw [toList_tupleText]
  exact ((opening.append_spells inside).append rfl closing).spells

/-- Tuples of several lengths are written one after another. -/
theorem spells_tupleTexts {types : List TypeExpr} {most : Nat} {lengths : List Nat}
    (within : ∀ n ∈ lengths, n ≤ most) (present : lengths ≠ []) {pieces : List (List Token)}
    (each : List.Forall₂ Spells (((types.take most).map TypeExpr.text).map String.toList) pieces) :
    " | ".intercalate (lengths.map fun n => tupleText (types.take n)) ≠ "" ∧
      Spells (" | ".intercalate (lengths.map fun n => tupleText (types.take n))).toList
        (tupleTokens pieces lengths) := by
  constructor
  · obtain ⟨n, member⟩ := List.exists_mem_of_ne_nil _ present
    refine intercalate_ne_empty (List.mem_map_of_mem member) fun empty => ?_
    have opened := congrArg String.toList empty
    rw [toList_tupleText] at opened
    cases opened
  · refine spells_junction (j := .union) ?_ rfl
    rw [List.map_map, List.forall₂_map_left_iff, List.forall₂_map_right_iff, List.forall₂_same]
    intro n member
    have first := List.forall₂_take n each
    rw [← List.map_take, ← List.map_take, List.take_take,
      Nat.min_eq_left (within n member)] at first
    exact spells_tupleText first

/-- A tuple with a greatest length is written as the tuples of all lengths. -/
theorem written_bounded {least most : Int} {types : List TypeExpr}
    (bounded : maxItems.isSet = true) (smallest : leastLength minItems = .ok least)
    (greatest : bound maxItems = .ok most) (counts : 0 ≤ least) (le : least ≤ most)
    (paired : List.Forall₂ (fun s t => s.type = .ok t) (items ++ [additional.getD (.any o none)])
      types)
    (legible : (Schema.tuple o items minItems maxItems additional).meaning.All TypeTree.Legible)
    (each : ∀ part ∈ (Schema.tuple o items minItems maxItems additional).parts, ∀ t,
      part.type = .ok t → part.meaning.All TypeTree.Legible → part.Written t) :
    (Schema.tuple o items minItems maxItems additional).Written
      (.compound (" | ".intercalate (tupleTexts types least most)) (firstItems most types)) := by
  obtain ⟨least, rfl⟩ := Int.eq_ofNat_of_zero_le counts
  obtain ⟨most, rfl⟩ := Int.eq_ofNat_of_zero_le (Int.le_trans counts le)
  have ordered : least ≤ most := Int.ofNat_le.mp le
  have count : types.length = items.length + 1 := by
    rw [← paired.length_eq, List.length_append, List.length_singleton]
  rw [meaning_bounded smallest greatest] at legible
  have longest : most ∈ lengths least most := by
    rw [lengths, List.mem_range'_1]
    omega
  have places := (all_iff.mp ((all_joinOf_iff fun _ => trivial).mp legible _
    (List.mem_map.mpr ⟨most, longest, rfl⟩))).2
  have written : ∀ part ∈ (items ++ [additional.getD (.any o none)]).take most, ∀ t,
      part.type = .ok t → part.Written t := fun part member t typed =>
    each part (List.mem_of_mem_take member) t typed (places _ (meaning_mem_padded member))
  obtain ⟨present, pieces, spelled, renders⟩ :=
    pieces_of_types (List.forall₂_take most paired) written
  have texts := tupleTexts_eq ordered present
  have whole : (Schema.tuple o items minItems maxItems additional).meaning.tokens = _ :=
    tokens_bounded smallest greatest
  rw [lengths_natCast] at whole
  rw [count] at texts
  have within : ∀ n ∈ List.range' (min least (items.length + 1))
      (min most (items.length + 1) + 1 - min least (items.length + 1)), n ≤ most := by
    intro n member
    have bounds := List.mem_range'_1.mp member
    omega
  have some : List.range' (min least (items.length + 1))
      (min most (items.length + 1) + 1 - min least (items.length + 1)) ≠ [] := by
    rw [Ne, List.range'_eq_nil_iff]
    omega
  obtain ⟨filled, listed⟩ := spells_tupleTexts within some spelled
  rw [← texts] at filled listed
  exact ⟨filled, _, listed, renders_tuple ordered whole
    (tuplesFit_tuple ordered bounded smallest greatest) renders⟩

end Tuples

/-- The class behind a reference is written, or null where there is none. -/
theorem spells_reference {target : Value} {name : Option String}
    (named : Naming.classOfRef? target = .ok name)
    (legible : (referenceTree target).All TypeTree.Legible) :
    (typeOfText (name.getD "")).text ≠ "" ∧
      Spells (typeOfText (name.getD "")).text.toList (referenceTree target).tokens := by
  have null := spells_text (w := "null") (by decide)
  rw [referenceTree, named] at legible ⊢
  cases name with
  | none => exact null
  | some name =>
    simp only at legible ⊢
    by_cases empty : name = ""
    · subst empty
      exact null
    · rw [if_neg empty] at legible ⊢
      rw [Option.getD_some, typeOfText, if_neg empty]
      exact spells_text (all_iff.mp legible).1.1

/-- What is written for a regular schema is what it stands for, as far as its tuples fit. -/
theorem written (s : Schema) (regular : s.Everywhere Regular) {t : TypeExpr}
    (typed : s.type = .ok t) (legible : s.meaning.All TypeTree.Legible) : s.Written t := by
  induction s using induction_on_parts generalizing t with
  | step s ih =>
    obtain ⟨own, inside⟩ := everywhere_iff.mp regular
    have each : ∀ part ∈ s.parts, ∀ t, part.type = .ok t → part.meaning.All TypeTree.Legible →
        part.Written t := fun part member t typed =>
      ih part member (inside part member) typed
    have normal : ∀ part ∈ s.parts, part.meaning.Normal := fun part member =>
      (all_iff.mp (normal_meaning part (inside part member))).1
    cases hasType_of_type typed with
    | null => exact written_leaf rfl (spells_text (w := "null") (by decide))
    | ref named =>
      rw [meaning] at legible
      exact written_leaf rfl (spells_reference named legible)
    | override => exact own.elim
    | @nullable o inner u innerTyped =>
      rw [meaning] at legible
      have member := List.mem_singleton_self inner
      have innerLegible := (all_joinOf_iff fun _ => trivial).mp legible inner.meaning (by simp)
      exact written_nullable (normal inner member) (each inner member u innerTyped innerLegible)
    | @union o keyword variants ts variantsTyped =>
      have means : (Schema.union o keyword variants).meaning =
          joinOf .union (variants.map meaning) := by rw [meaning, meanings_eq_map]
      exact written_junction (by simp) means own normal rfl variantsTyped legible each
    | @intersection o branches ts branchesTyped =>
      have means : (Schema.intersection o branches).meaning =
          joinOf .intersection (branches.map meaning) := by rw [meaning, meanings_eq_map]
      exact written_junction (by simp) means own normal rfl branchesTyped legible each
    | primitive =>
      rw [meaning] at legible
      exact written_leaf rfl (spells_primitiveType legible)
    | file => exact written_leaf rfl (spells_text (w := "Blob") (by decide))
    | @array o items u itemsTyped =>
      rw [meaning] at legible
      have member := List.mem_singleton_self items
      have itemsLegible := (all_iff.mp legible).2 items.meaning (List.mem_singleton_self _)
      exact written_array (each items member u itemsTyped itemsLegible)
    | bounded given smallest greatest paired =>
      rcases own with rfl | ⟨_, _, sameLeast, sameMost, counts, le⟩
      · cases given
      · cases smallest.symm.trans sameLeast
        cases greatest.symm.trans sameMost
        exact written_bounded given smallest greatest counts le paired legible each
    | unbounded missing => exact written_unbounded missing own
    | @record o members required additional declared others written free =>
      rw [meaning_record] at legible
      obtain ⟨keys, partsLegible⟩ := all_iff.mp legible
      refine written_record written free (fun m member => ?_) fun part member t typed => ?_
      · exact keys _ (List.mem_append_left _ (List.mem_map.mpr ⟨m, member, rfl⟩))
      · refine each part member t typed (partsLegible _ ?_)
        rw [TypeTree.parts, List.map_append, List.map_map, List.map_map]
        rw [parts] at member
        have listed := List.mem_map_of_mem (f := meaning) member
        rw [List.map_append, List.map_map] at listed
        exact listed
    | any => exact written_leaf rfl (spells_text (w := "any") (by decide))

end ClientGen.Schema

namespace ClientGen

open Schema

/-- The text that is printed for a regular schema is read as the type that the schema stands for
exactly if its tuples fit, everything in that type can be written, and no union is a branch of an
intersection. -/
theorem typeAt_reads_meaning_iff {path : String} {v : Value} {s : Schema}
    (parsed : Schema.parse path v = .ok s) (regular : s.Everywhere Regular) :
    ∃ t, typeAt path v = .ok t ∧
      (TypeTree.read t.text = some s.meaning ↔
        s.TuplesFit ∧ s.meaning.All TypeTree.Legible ∧ s.meaning.All TypeTree.Flat) := by
  obtain ⟨t, typed⟩ := exists_type s regular
  refine ⟨t, bind_eq_ok.mpr ⟨s, parsed, typed⟩, ?_⟩
  constructor
  · intro found
    obtain ⟨readable, tokens, scanned, counted⟩ := TypeTree.of_read found
    obtain ⟨-, _, spelled, renders⟩ := written s regular typed readable.legible
    cases scanned.symm.trans spelled.scan_eq
    exact ⟨renders.only (Nat.le_of_eq counted.symm), readable.legible, readable.flat⟩
  · rintro ⟨fit, legible, flat⟩
    obtain ⟨-, tokens, spelled, renders⟩ := written s regular typed legible
    have scanned := spelled.scan_eq
    rw [renders.same fit] at scanned
    exact TypeTree.read_of_scan scanned ⟨legible, normal_meaning s regular, flat⟩

section Examples

def referenceTo (name : String) : Value :=
  .object [(.text "$ref", .text (Model.definitionPath name))]

def referenceNode (path name : String) : Schema :=
  .ref ⟨path, .null⟩ (.text (Model.definitionPath name))

theorem regular_referenceNode (path name : String) :
    (referenceNode path name).Everywhere Regular :=
  throughout_leaf rfl ⟨_, rfl⟩

/-- An owner is a user that is a member as well, or null. -/
def ownerSchema : Value :=
  .object [(.text "x-nullable", .bool true),
    (.text "allOf", .list [referenceTo "User", referenceTo "Member"])]

def ownerNode : Schema :=
  .nullable ⟨"#", .null⟩ (.intersection ⟨"#", .null⟩
    [referenceNode "#/allOf/0" "User", referenceNode "#/allOf/1" "Member"])

theorem regular_ownerNode : ownerNode.Everywhere Regular := by
  have references : ∀ s ∈ [referenceNode "#/allOf/0" "User", referenceNode "#/allOf/1" "Member"],
      s.Everywhere Regular := by
    simp [regular_referenceNode]
  refine everywhere_iff.mpr ⟨trivial, List.forall_mem_singleton.mpr ?_⟩
  exact everywhere_iff.mpr ⟨List.cons_ne_nil _ _, references⟩

theorem tuplesFit_ownerNode : ownerNode.TuplesFit := by
  have leaf : ∀ path name, (referenceNode path name).TuplesFit := fun path name =>
    (tuplesFit_iff_parts (by simp [referenceNode])).mpr (by simp [referenceNode, parts])
  have references : ∀ s ∈ [referenceNode "#/allOf/0" "User", referenceNode "#/allOf/1" "Member"],
      s.TuplesFit := by
    simp [leaf]
  refine (tuplesFit_iff_parts (by simp [ownerNode])).mpr (List.forall_mem_singleton.mpr ?_)
  exact (tuplesFit_iff_parts (by simp)).mpr references

theorem readable_names {words : List String} (names : ∀ word ∈ words,
      Token.IsWord word.toList ∧ TypeTree.isNumeral word.toList = false) :
    ∀ word ∈ words, (TypeTree.name word).Readable :=
  fun word member => TypeTree.readable_name (names word member).1 (names word member).2

/-- The text for an owner is read as the union of null and an intersection. -/
theorem typeAt_reads_meaning_owner : Schema.parse "#" ownerSchema = .ok ownerNode ∧
    ownerNode.Everywhere Regular ∧
    ownerNode.meaning =
      .join .union [.name "null", .join .intersection [.name "User", .name "Member"]] ∧
    ∃ t, typeAt "#" ownerSchema = .ok t ∧ TypeTree.read t.text = some ownerNode.meaning := by
  have parsed : Schema.parse "#" ownerSchema = .ok ownerNode := by cbv
  have means : ownerNode.meaning =
      .join .union [.name "null", .join .intersection [.name "User", .name "Member"]] := by cbv
  have names : ∀ word ∈ ["null", "User", "Member"], (TypeTree.name word).Readable :=
    readable_names (by decide)
  have both : (TypeTree.join .intersection [.name "User", .name "Member"]).Readable :=
    TypeTree.readable_join (by decide) (by decide) (by simp [names])
  have readable : ownerNode.meaning.Readable := by
    rw [means]
    exact TypeTree.readable_join (by decide) (by decide) (by simp [names, both])
  obtain ⟨t, typed, reads⟩ := typeAt_reads_meaning_iff parsed regular_ownerNode
  exact ⟨parsed, regular_ownerNode, means, t, typed,
    reads.mpr ⟨tuplesFit_ownerNode, readable.legible, readable.flat⟩⟩

/-- A piece is one of two things that is a part as well. -/
def pieceSchema : Value :=
  .object [(.text "allOf", .list [
    .object [(.text "oneOf", .list [referenceTo "A", referenceTo "B"])], referenceTo "C"])]

def pieceNode : Schema :=
  .intersection ⟨"#", .null⟩ [
    .union ⟨"#/allOf/0", .null⟩ .oneOf
      [referenceNode "#/allOf/0/oneOf/0" "A", referenceNode "#/allOf/0/oneOf/1" "B"],
    referenceNode "#/allOf/1" "C"]

theorem regular_pieceNode : pieceNode.Everywhere Regular := by
  have union : (Schema.union ⟨"#/allOf/0", .null⟩ .oneOf
      [referenceNode "#/allOf/0/oneOf/0" "A",
        referenceNode "#/allOf/0/oneOf/1" "B"]).Everywhere Regular :=
    everywhere_iff.mpr ⟨List.cons_ne_nil _ _, by simp [parts, regular_referenceNode]⟩
  exact everywhere_iff.mpr ⟨List.cons_ne_nil _ _, by
    simp [pieceNode, parts, regular_referenceNode, union]⟩

/-- The text for a piece is read as a union one of whose parts is an intersection, though the piece
stands for an intersection one of whose branches is a union. -/
theorem typeAt_misread_piece : Schema.parse "#" pieceSchema = .ok pieceNode ∧
    pieceNode.Everywhere Regular ∧
    pieceNode.meaning = .join .intersection [.join .union [.name "A", .name "B"], .name "C"] ∧
    ∃ t, typeAt "#" pieceSchema = .ok t ∧ t.text = "A | B & C" ∧
      TypeTree.read t.text =
        some (.join .union [.name "A", .join .intersection [.name "B", .name "C"]]) := by
  have names : ∀ word ∈ ["A", "B", "C"], (TypeTree.name word).Readable :=
    readable_names (by decide)
  have intersection : (TypeTree.join .intersection [.name "B", .name "C"]).Readable :=
    TypeTree.readable_join (by decide) (by decide) (by simp [names])
  have union : (TypeTree.join .union
      [.name "A", .join .intersection [.name "B", .name "C"]]).Readable :=
    TypeTree.readable_join (by decide) (by decide) (by simp [names, intersection])
  refine ⟨by cbv, regular_pieceNode, by cbv, ⟨"A | B & C", some ["A", "B", "C"]⟩, by cbv, rfl, ?_⟩
  exact TypeTree.read_of_scan (by cbv) union

end Examples

end ClientGen
