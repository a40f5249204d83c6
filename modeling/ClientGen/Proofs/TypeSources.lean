import ClientGen.Proofs.LetterCase
import ClientGen.Proofs.SchemaSources
import ClientGen.Proofs.TypeLeaves

/-!
# What a type names

A name that a type depends on is the word for a built-in type, a literal, or it comes from a
reference or a type given word for word, which stand in the value that the type is read from
(`mentions_or_basic_of_type`). A literal for a text starts with a quote and never leads to a model.
-/
namespace ClientGen

namespace Schema

open Value (Holds)

/-- The text of a type leads to a key once its wrappers are dropped, or once those are dropped that
then show. -/
def LeadsToKey (text key : String) : Prop :=
  Naming.key (TypeExpr.strip text) = key ∨ Dependencies.keyOf (TypeExpr.strip text) = key

/-- A reference or a type given word for word that stands in the value leads to the key. -/
def Mentions (v : Value) (key : String) : Prop :=
  ∃ fields : Fields, Holds v (.object fields) ∧
    ((∃ ref, fields.get "$ref" = .text ref ∧ Naming.key (Naming.classOfRef ref) = key) ∨
      fields.get "x-type" ≠ .null ∧
        LeadsToKey (Text.replaceAll "List<" "Array<" (fields.get "x-type").display) key)

def builtInKeys : List String := ["any", "blob", "boolean", "null", "number", "string"]

/-- A number that an object of the value describes is restricted to literals that lead to the
key. -/
def RestrictsNumber (v : Value) (key : String) : Prop :=
  ∃ (schema : Fields) (kind : PrimitiveType) (enum : Option (List Value)), Describes v schema ∧
    (kind = .integer ∨ kind = .number) ∧ schema.get? "type" = some (.text kind.name) ∧
    enumValues schema = .ok enum ∧
    LeadsToKey (restricted "number" numberLiteral enum (schema.get "const")).text key

/-- A key that a type may lead to that names no model. -/
def Basic (v : Value) (key : String) : Prop :=
  key ∈ builtInKeys ∨ RestrictsNumber v key

theorem Mentions.mono {v w : Value} {key : String} (mentions : Mentions w key)
    (within : ∀ fields, Holds w (.object fields) → Holds v (.object fields)) : Mentions v key := by
  obtain ⟨fields, holds, named⟩ := mentions
  exact ⟨fields, within fields holds, named⟩

theorem Basic.mono {v w : Value} {key : String} (basic : Basic w key)
    (within : ∀ fields, Holds w (.object fields) → Holds v (.object fields)) : Basic v key := by
  refine basic.imp_right fun restricts => ?_
  obtain ⟨schema, kind, enum, describes, rest⟩ := restricts
  exact ⟨schema, kind, enum, describes.mono within, rest⟩

section Names

variable {s : Schema} {t : TypeExpr} {word : String}

/-- What a type names is its own text, or it is named by the type of a part. -/
theorem names_step (typed : s.type = .ok t) (named : t.Names word) :
    (∃ text, t = .scalar text ∧ TypeExpr.strip text = word ∧ ∀ o inner, s ≠ .nullable o inner) ∨
      ∃ part ∈ s.parts, ∃ u, part.type = .ok u ∧ u.Names word := by
  have own : ∀ {text}, t = .scalar text → (∀ o inner, s ≠ .nullable o inner) →
      ∃ text, t = .scalar text ∧ TypeExpr.strip text = word ∧ ∀ o inner, s ≠ .nullable o inner := by
    rintro text rfl unmarked
    exact ⟨text, rfl, TypeExpr.names_scalar.mp named, unmarked⟩
  have among : ∀ {schemas : List Schema} {types : List TypeExpr} {text : String},
      List.Forall₂ (fun s t => s.type = .ok t) schemas types → t = .compound text types →
        ∃ part ∈ schemas, ∃ u, part.type = .ok u ∧ u.Names word := by
    rintro schemas types text each rfl
    obtain ⟨u, listed, names⟩ := TypeExpr.names_compound.mp named
    obtain ⟨part, member, own⟩ := exists_of_forall₂ each.flip listed
    exact ⟨part, member, u, own, names⟩
  cases hasType_of_type typed with
  | null | file | any | unbounded => exact .inl (own rfl (by simp))
  | ref | override =>
    obtain ⟨text, same⟩ := exists_scalar_typeOfText _
    exact .inl (own same (by simp))
  | @primitive o kind enum const =>
    obtain ⟨text, same⟩ := exists_scalar_primitiveType kind enum const
    exact .inl (own same (by simp))
  | @nullable o inner u inside =>
    exact .inr ⟨inner, List.mem_singleton_self _, u, inside, TypeExpr.names_nullable.mp named⟩
  | union each => exact .inr (among each rfl)
  | intersection each => exact .inr (among each rfl)
  | array inside => exact .inr (among (.cons inside .nil) rfl)
  | @bounded _ _ _ _ _ _ _ most _ _ _ each =>
    obtain ⟨part, member, inside⟩ := among (forall₂_firstItems each most) rfl
    refine .inr ⟨part, ?_, inside⟩
    cases most <;> exact List.take_subset _ _ member
  | record written free => exact .inr (among (forall₂_entries written free) rfl)

/-- Behind what a type names stands a schema with a text of its own. -/
theorem exists_base {p : Schema → Prop} (everywhere : s.Everywhere p) (typed : s.type = .ok t)
    (named : t.Names word) : ∃ base text, p base ∧ base.type = .ok (.scalar text) ∧
      TypeExpr.strip text = word ∧ ∀ o inner, base ≠ .nullable o inner := by
  induction s using induction_on_parts generalizing t with
  | step s ih =>
    obtain ⟨own, inside⟩ := everywhere_iff.mp everywhere
    rcases names_step typed named with ⟨text, rfl, same, unmarked⟩ | ⟨part, member, u, inner, names⟩
    · exact ⟨s, text, own, typed, same, unmarked⟩
    · exact ih part member (inside part member) inner names

end Names

section Keys

/-- Stripping leaves a quote at the start. -/
theorem head?_strip {s : String} (quoted : s.toList.head? = some '\x27') :
    (TypeExpr.strip s).toList.head? = some '\x27' := by
  obtain ⟨rest, same⟩ := List.head?_eq_some_iff.mp quoted
  have other : ∀ mark : List Char, mark.head? ≠ some '\x27' → mark ≠ [] → ∀ others,
      ¬mark <+: '\x27' :: others := by
    rintro (_ | ⟨c, mark⟩) first given others starts
    · exact given rfl
    · exact first (congrArg some (List.cons_prefix_cons.mp starts).1)
  unfold TypeExpr.strip TypeExpr.withoutWrappers TypeExpr.withoutNull
  rw [same, List.filter_cons_of_pos (by decide), TypeExpr.dropNullMarks,
    if_neg (other _ (by decide) (by decide) _), if_neg (other _ (by decide) (by decide) _),
    TypeExpr.dropArrayMarks, if_neg fun both => other _ (by decide) (by decide) _ both.1]
  simp [TypeExpr.dropBrackets]

/-- No text that starts with a quote leads to a key of word characters. -/
theorem not_leads_of_quote {text key : String} (quoted : text.toList.head? = some '\x27')
    (words : ∀ c ∈ key.toList, Naming.isWord c = true) : ¬LeadsToKey text key := by
  have apart : ∀ s : String, s.toList.head? = some '\x27' → Naming.key s ≠ key := by
    rintro s starts rfl
    obtain ⟨rest, same⟩ := List.head?_eq_some_iff.mp starts
    have lower : (Naming.key s).toList = '\x27' :: Text.lowerAfter ['\x27'] rest := by
      rw [Naming.key, Text.lower, String.toList_ofList, same]
      rfl
    exact absurd (words '\x27' (by simp [lower])) (by decide)
  rintro (same | same)
  · exact apart _ (head?_strip quoted) same
  · exact apart _ (head?_strip (head?_strip quoted)) same

theorem head?_intercalate {separator first : String} {rest : List String} {c : Char}
    (starts : first.toList.head? = some c) :
    (separator.intercalate (first :: rest)).toList.head? = some c := by
  cases rest with
  | nil => simpa using starts
  | cons second rest => simp [String.intercalate_cons_cons, List.head?_append, starts]

variable {v : Value} {base : Schema} {text key : String}

theorem basic_of_leads {own word : String} (leads : LeadsToKey own key)
    (once : Naming.key (TypeExpr.strip own) = word)
    (twice : Dependencies.keyOf (TypeExpr.strip own) = word) (builtIn : word ∈ builtInKeys) :
    Basic v key := by
  rw [LeadsToKey, once, twice, or_self] at leads
  exact .inl (leads ▸ builtIn)

theorem basic_of_null (leads : LeadsToKey "null" key) : Basic v key :=
  basic_of_leads leads (by cbv) (by cbv) (by decide : "null" ∈ builtInKeys)

theorem basic_of_any (leads : LeadsToKey "any" key) : Basic v key :=
  basic_of_leads leads (by cbv) (by cbv) (by decide : "any" ∈ builtInKeys)

/-- The literals for texts start with a quote, so the type of a text leads to no other key than its
own. -/
theorem basic_of_string {enum : Option (List Value)} {const : Value}
    (leads : LeadsToKey (restricted "string" stringLiteral enum const).text key)
    (words : ∀ c ∈ key.toList, Naming.isWord c = true) : Basic v key := by
  have literal : ∀ w, (stringLiteral w).toList.head? = some '\x27' := by
    intro w
    simp [stringLiteral, Naming.literal]
  unfold restricted at leads
  split at leads
  · exact absurd leads (not_leads_of_quote (head?_intercalate (literal _)) words)
  · split at leads
    · exact basic_of_leads leads (by cbv) (by cbv) (by decide : "string" ∈ builtInKeys)
    · exact absurd leads (not_leads_of_quote (literal const) words)

theorem mentions_of_ref {schema : Fields} {name : String} (describes : Describes v schema)
    (read : Naming.classOfRef? (schema.get "$ref") = .ok (some name))
    (leads : LeadsToKey name key) : Mentions v key := by
  obtain ⟨fields, holds, same⟩ := describes.written
  rw [same _ (by decide) (by decide)] at read
  have stripped := strip_of_classOfRef? read
  rw [LeadsToKey, Dependencies.keyOf, stripped, stripped, or_self] at leads
  unfold Naming.classOfRef? at read
  split at read
  · obtain ⟨ref, text, read⟩ := bind_eq_ok.mp read
    have own : Naming.classOfRef ref = name := Option.some.inj (Except.ok.inj read)
    refine ⟨fields, holds, .inl ⟨ref, ?_, own ▸ leads⟩⟩
    unfold Value.asText at text
    split at text
    · rename_i given
      cases text
      exact given
    · cases text
  · cases read

theorem mentions_of_override {schema : Fields} (describes : Describes v schema)
    (given : schema.get "x-type" ≠ .null)
    (leads : LeadsToKey (Text.replaceAll "List<" "Array<" (schema.get "x-type").display) key) :
    Mentions v key := by
  obtain ⟨fields, holds, same⟩ := describes.written
  rw [same _ (by decide) (by decide)] at given leads
  exact ⟨fields, holds, .inr ⟨given, leads⟩⟩

/-- Where a schema with a text of its own leads to a key of word characters, the text is the word
for a built-in type or a literal for a number, or it comes from what stands in the value. -/
theorem mentions_or_basic_of_base (sourced : Sourced v base)
    (typed : base.type = .ok (.scalar text)) (unmarked : ∀ o inner, base ≠ .nullable o inner)
    (leads : LeadsToKey text key) (words : ∀ c ∈ key.toList, Naming.isWord c = true) :
    Mentions v key ∨ Basic v key := by
  generalize written : TypeExpr.scalar text = t at typed
  cases hasType_of_type typed with
  | null =>
    cases written
    exact .inr (basic_of_null leads)
  | @ref o target name read =>
    obtain ⟨schema, describes, tells⟩ := sourced.resolve_left (by simp [Implied])
    cases tells
    rw [typeOfText] at written
    split at written
    · cases written
      exact .inr (basic_of_null leads)
    · rename_i given
      cases name with
      | none => exact absurd rfl given
      | some name =>
        cases written
        exact .inl (mentions_of_ref describes read leads)
  | override =>
    obtain ⟨schema, describes, present, rfl⟩ := sourced.resolve_left (by simp [Implied])
    rw [typeOfText] at written
    split at written
    · cases written
      exact .inr (basic_of_null leads)
    · cases written
      exact .inl (mentions_of_override describes present leads)
  | @primitive o kind enum const =>
    obtain ⟨schema, describes, given, values, rfl⟩ := sourced.resolve_left (by simp [Implied])
    have own : text = (primitiveType kind enum (schema.get "const")).text :=
      congrArg TypeExpr.text written
    subst own
    cases kind with
    | string => exact .inr (basic_of_string leads words)
    | integer => exact .inr (.inr ⟨schema, _, enum, describes, .inl rfl, given, values, leads⟩)
    | number => exact .inr (.inr ⟨schema, _, enum, describes, .inr rfl, given, values, leads⟩)
    | boolean =>
      exact .inr (basic_of_leads leads (by cbv) (by cbv) (by decide : "boolean" ∈ builtInKeys))
    | null => exact .inr (basic_of_null leads)
  | file =>
    cases written
    exact .inr (basic_of_leads leads (by cbv) (by cbv) (by decide : "blob" ∈ builtInKeys))
  | any =>
    cases written
    exact .inr (basic_of_any leads)
  | unbounded =>
    cases written
    exact .inr (basic_of_leads leads (by cbv) (by cbv) (by decide : "any" ∈ builtInKeys))
  | @nullable o inner => exact absurd rfl (unmarked o inner)
  | union | intersection | array | bounded | record => cases written

/-- A dependency of a type leads to what the type names, perhaps with wrappers that show when those
around them are dropped. -/
theorem exists_named {t : TypeExpr} {name : String} (among : name ∈ t.dependencyNames) :
    ∃ word, t.Names word ∧
      (Naming.key word = Dependencies.keyOf name ∨
        Dependencies.keyOf word = Dependencies.keyOf name) := by
  obtain ⟨text, constituents⟩ := t
  cases constituents with
  | none =>
    rw [TypeExpr.dependencyNames, Option.getD_none, List.mem_singleton] at among
    exact ⟨name, ⟨text, by simp [TypeExpr.leaves], among.symm⟩, .inr rfl⟩
  | some names => exact ⟨TypeExpr.strip name, ⟨name, among, rfl⟩, .inl rfl⟩

/-- Whatever a type names that leads to a key of word characters is the word for a built-in type or
a literal for a number, or it comes from what stands in the value that the type is read from. -/
theorem mentions_or_basic_of_type {path word : String} {t : TypeExpr}
    (typed : typeAt path v = .ok t) (named : t.Names word)
    (leads : Naming.key word = key ∨ Dependencies.keyOf word = key)
    (words : ∀ c ∈ key.toList, Naming.isWord c = true) : Mentions v key ∨ Basic v key := by
  obtain ⟨s, read, typed⟩ := bind_eq_ok.mp typed
  obtain ⟨base, text, sourced, own, rfl, unmarked⟩ :=
    exists_base (everywhere_sourced read) typed named
  exact mentions_or_basic_of_base sourced own unmarked leads words

end Keys

end Schema

end ClientGen
