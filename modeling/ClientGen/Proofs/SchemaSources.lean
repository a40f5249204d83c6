import ClientGen.Proofs.OverridingKeywords
import ClientGen.Proofs.SchemaParts
import ClientGen.Proofs.TagDeletion

/-!
# Where the parts of a schema come from

Every schema that stands in one that is read from a value is read from an object that stands in the
value, from that object without its null mark or with one of the types it lists, or it stands for a
missing schema or for one that says nothing (`everywhere_sourced`). What an object says under the
other keywords is therefore what is written in the value. `parseFields_step` is the step: what is
read from an object, and what its parts are read from.
-/
namespace ClientGen

namespace Value

def parts : Value → List Value
  | .scalar _ => []
  | .list items => items
  | .object fields => fields.map Prod.snd

/-- The value `w` stands in `v`, at whatever depth. -/
def Holds (v w : Value) : Prop :=
  Relation.ReflTransGen (fun outer part => part ∈ outer.parts) v w

theorem weight_lt_of_mem_parts {v part : Value} (member : part ∈ v.parts) :
    part.weight < v.weight := by
  cases v with
  | scalar s => cases member
  | list items => exact weight_mem_lt member
  | object fields =>
    obtain ⟨⟨key, w⟩, among, rfl⟩ := List.mem_map.mp member
    clear member
    rw [weight]
    induction fields with
    | nil => cases among
    | cons entry rest ih =>
      rw [weightFields]
      rcases List.mem_cons.mp among with rfl | later
      · dsimp only
        omega
      · have inner := ih later
        dsimp only at inner ⊢
        omega

theorem Holds.weight_le {v w : Value} (holds : Holds v w) : w.weight ≤ v.weight := by
  induction holds with
  | refl => exact Nat.le_refl _
  | tail _ member ih => exact Nat.le_of_lt (Nat.lt_of_lt_of_le (weight_lt_of_mem_parts member) ih)

theorem not_holds_scalar {s : Scalar} {fields : Fields} : ¬Holds (.scalar s) (.object fields) := by
  intro holds
  rcases holds.cases_head with same | ⟨part, member, -⟩
  · cases same
  · cases member

theorem Holds.ne_null {v : Value} {fields : Fields} (holds : Holds v (.object fields)) :
    v ≠ .null := by
  rintro rfl
  exact not_holds_scalar holds

/-- What is under a key of an object stands in the object. -/
theorem holds_get {fields inner : Fields} {key : String}
    (holds : Holds (fields.get key) (.object inner)) : Holds (.object fields) (.object inner) :=
  .head (List.mem_map_of_mem (Fields.mem_of_get rfl holds.ne_null)) holds

end Value

namespace Fields

theorem lookup_replace_of_ne {key : String} {other : Scalar} (differs : other ≠ .text key)
    (fields : Fields) (value : Value) :
    (fields.replace key value).lookup other = fields.lookup other := by
  induction fields with
  | nil => rfl
  | cons entry rest ih =>
    obtain ⟨k, v⟩ := entry
    by_cases here : k = .text key
    · subst here
      have other : (other == Scalar.text key) = false := by simpa using differs
      rw [replace, if_pos rfl, List.lookup_cons, List.lookup_cons, other]
    · rw [replace, if_neg here, List.lookup_cons, List.lookup_cons, ih]

theorem get_replace_of_ne {key other : String} (differs : other ≠ key) (fields : Fields)
    (value : Value) : (fields.replace key value).get other = fields.get other := by
  unfold get get?
  rw [lookup_replace_of_ne (by simpa using differs)]

theorem get_replace_self {key : String} {fields : Fields} (there : fields.get key ≠ .null)
    (value : Value) : (fields.replace key value).get key = value := by
  induction fields with
  | nil => exact absurd rfl there
  | cons entry rest ih =>
    obtain ⟨k, v⟩ := entry
    unfold get get? at there ih ⊢
    by_cases here : k = .text key
    · subst here
      rw [replace, if_pos rfl, List.lookup_cons, beq_self_eq_true]
      rfl
    · have other : (Scalar.text key == k) = false := by simpa using Ne.symm here
      rw [List.lookup_cons, other] at there
      rw [replace, if_neg here, List.lookup_cons, other]
      exact ih there

end Fields

namespace Schema

open Value

/-- The object `inner` is read on the way of reading the object `schema`: without its null mark,
with one of the types it lists, or because it stands under another keyword. -/
inductive ReadsInside (schema : Fields) : Fields → Prop
  | unmarked (marked : (schema.get "x-nullable").isSet = true) :
    ReadsInside schema (schema.without "x-nullable")
  | typed {types : List Value} {t : Value} (listed : schema.get? "type" = some (.list types))
      (member : t ∈ types) : ReadsInside schema (schema.replace "type" t)
  | within {keyword : String} {inner : Fields} (noType : keyword ≠ "type")
      (noMark : keyword ≠ "x-nullable") (holds : Holds (schema.get keyword) (.object inner)) :
    ReadsInside schema inner

theorem ReadsInside.weight_lt {schema inner : Fields} (inside : ReadsInside schema inner) :
    weightFields inner < weightFields schema := by
  cases inside with
  | unmarked marked => exact weight_without_mark_lt marked
  | typed listed member => exact Fields.weight_replace_lt listed (weight_mem_lt member)
  | within noType noMark holds =>
    have inner := holds.weight_le
    have outer := Fields.weight_get_lt holds.ne_null
    rw [weight] at inner
    omega

/-- A schema that stands for a missing one, or for one that says nothing. -/
def Implied (s : Schema) : Prop :=
  (∃ o, s = .null o) ∨ ∃ o, s = .any o none

/-- A schema that stands for a missing one, or is read from an object that stands in the value. -/
def ReadIn (v : Value) (s : Schema) : Prop :=
  Implied s ∨ ∃ place inner, Holds v (.object inner) ∧ parseFields place inner = .ok s

theorem ReadIn.mono {v w : Value} {s : Schema} (read : ReadIn w s) (holds : Holds v w) :
    ReadIn v s := by
  rcases read with implied | ⟨place, inner, stands, read⟩
  · exact .inl implied
  · exact .inr ⟨place, inner, holds.trans stands, read⟩

theorem readIn_of_parse {path : String} {v : Value} {s : Schema} (read : parse path v = .ok s) :
    ReadIn v s := by
  unfold parse at read
  split at read
  · exact .inr ⟨path, _, .refl, read⟩
  · cases read
    exact .inl (.inl ⟨_, rfl⟩)

theorem readIn_of_parseEach {path keyword : String} {values : List Value} {start : Nat}
    {schemas : List Schema} (read : parseEach path keyword start values = .ok schemas) :
    List.Forall₂ ReadIn values schemas := by
  induction values generalizing start schemas with
  | nil =>
    rw [parseEach] at read
    cases read
    exact .nil
  | cons v rest ih =>
    rw [parseEach] at read
    obtain ⟨first, head, read⟩ := bind_eq_ok.mp read
    obtain ⟨others, tail, read⟩ := bind_eq_ok.mp read
    cases read
    exact .cons (readIn_of_parse head) (ih tail)

theorem readIn_of_parseBranches {path : String} {values : List Value} {start : Nat}
    {schemas : List Schema} (read : parseBranches path start values = .ok schemas) :
    List.Forall₂ ReadIn (values.filter (!isNullMarked ·)) schemas := by
  induction values generalizing start schemas with
  | nil =>
    rw [parseBranches] at read
    cases read
    exact .nil
  | cons v rest ih =>
    rw [parseBranches] at read
    by_cases marked : isNullMarked v = true
    · rw [if_pos marked] at read
      rw [List.filter_cons_of_neg (by simp [marked])]
      exact ih read
    · rw [if_neg marked] at read
      obtain ⟨first, head, read⟩ := bind_eq_ok.mp read
      obtain ⟨others, tail, read⟩ := bind_eq_ok.mp read
      cases read
      rw [List.filter_cons_of_pos (by simp [marked])]
      exact .cons (readIn_of_parse head) (ih tail)

theorem readIn_of_parseAdditional {path : String} {v : Value} {additional : Option Schema}
    (read : parseAdditional path v = .ok additional) : ∀ s ∈ additional, ReadIn v s := by
  unfold parseAdditional at read
  split at read
  · obtain ⟨s, inner, read⟩ := bind_eq_ok.mp read
    cases read
    intro other same
    cases same
    exact .inr ⟨path, _, .refl, inner⟩
  · cases read
    simp

theorem readIn_of_parseMembers {path : String} {required : Value} {fields : Fields}
    {members : List (Member × Schema)} (read : parseMembers path required fields = .ok members) :
    ∀ m ∈ members, ReadIn (.object fields) m.2 := by
  suffices each : List.Forall₂ (fun entry m => ReadIn entry.2 m.2) fields members by
    intro m member
    obtain ⟨⟨key, v⟩, among, read⟩ := exists_of_forall₂ each.flip member
    exact ReadIn.mono read (.single (List.mem_map_of_mem among))
  induction fields generalizing members with
  | nil =>
    rw [parseMembers] at read
    cases read
    exact .nil
  | cons entry rest ih =>
    obtain ⟨name, v⟩ := entry
    rw [parseMembers] at read
    obtain ⟨s, head, read⟩ := bind_eq_ok.mp read
    obtain ⟨isRequired, -, read⟩ := bind_eq_ok.mp read
    obtain ⟨others, tail, read⟩ := bind_eq_ok.mp read
    cases read
    exact .cons (readIn_of_parse head) (ih tail)

theorem readIn_of_parseProperties {path : String} {required v : Value}
    {members : List (Member × Schema)} (read : parseProperties path required v = .ok members) :
    ∀ m ∈ members, ReadIn v m.2 := by
  unfold parseProperties at read
  split at read
  · exact readIn_of_parseMembers read
  · split at read
    · cases read
    · cases read
      simp

def ReadWithin (schema : Fields) (s : Schema) : Prop :=
  Implied s ∨ ∃ place inner, ReadsInside schema inner ∧ parseFields place inner = .ok s

theorem ReadIn.within {schema : Fields} {keyword : String} {s : Schema}
    (read : ReadIn (schema.get keyword) s) (noType : keyword ≠ "type")
    (noMark : keyword ≠ "x-nullable") : ReadWithin schema s := by
  rcases read with implied | ⟨place, inner, holds, read⟩
  · exact .inl implied
  · exact .inr ⟨place, inner, .within noType noMark holds, read⟩

def Tells (schema : Fields) : Schema → Prop
  | .ref _ target => schema.get "$ref" = target
  | .override _ given => schema.get "x-type" ≠ .null ∧ given = (schema.get "x-type").display
  | .union _ _ variants => variants = [] → schema.get? "type" = some (.list [])
  | .intersection _ branches => branches = [] → ∃ values, schema.get "allOf" = .list values ∧
    values ≠ [] ∧ ∀ v ∈ values, isNullMarked v = true
  | .primitive _ type enum const => schema.get? "type" = some (.text type.name) ∧
    enumValues schema = .ok enum ∧ schema.get "const" = const
  | .tuple _ _ minItems maxItems _ =>
    schema.get "minItems" = minItems ∧ schema.get "maxItems" = maxItems
  | _ => True

/-- A schema is read from an object: the object tells what it is, and its parts are read from what
the object holds. -/
structure ReadFromFields (schema : Fields) (s : Schema) : Prop where
  tells : Tells schema s
  parts : ∀ part ∈ s.parts, ReadWithin schema part

variable {path : String} {origin : Origin} {schema : Fields} {s : Schema}

theorem parseArray_step (read : parseArray path origin schema = .ok s) :
    ReadFromFields schema s := by
  unfold parseArray at read
  split at read
  · rename_i values listed
    obtain ⟨items, each, read⟩ := bind_eq_ok.mp read
    obtain ⟨additional, rest, read⟩ := bind_eq_ok.mp read
    cases read
    refine ⟨⟨rfl, rfl⟩, fun part member => ?_⟩
    rcases List.mem_append.mp member with listed' | last
    · obtain ⟨v, among, read⟩ := exists_of_forall₂ (readIn_of_parseEach each).flip listed'
      have stands : ReadIn (schema.get "items") part := listed ▸ ReadIn.mono read (.single among)
      exact stands.within (by decide) (by decide)
    · rw [List.mem_singleton] at last
      subst last
      cases additional with
      | none => exact .inl (.inr ⟨_, rfl⟩)
      | some part =>
        exact (readIn_of_parseAdditional rest part rfl).within (by decide) (by decide)
  · cases read
    refine ⟨trivial, fun part member => ?_⟩
    rw [List.mem_singleton.mp member]
    exact .inl (.inr ⟨_, rfl⟩)
  · rename_i fields given
    obtain ⟨items, inner, read⟩ := bind_eq_ok.mp read
    cases read
    refine ⟨trivial, fun part member => ?_⟩
    rw [List.mem_singleton.mp member]
    have stands : ReadIn (schema.get "items") items := given ▸ .inr ⟨_, fields, .refl, inner⟩
    exact stands.within (by decide) (by decide)
  · cases read
    refine ⟨trivial, fun part member => ?_⟩
    rw [List.mem_singleton.mp member]
    exact .inl (.inl ⟨_, rfl⟩)

theorem parseRecord_step (read : parseRecord path origin schema = .ok s) :
    ReadFromFields schema s := by
  unfold parseRecord at read
  obtain ⟨members, properties, read⟩ := bind_eq_ok.mp read
  obtain ⟨declared, given, read⟩ := bind_eq_ok.mp read
  obtain ⟨required, -, read⟩ := bind_eq_ok.mp read
  cases read
  refine ⟨trivial, fun part member => ?_⟩
  rcases List.mem_append.mp member with listed | last
  · obtain ⟨m, among, rfl⟩ := List.mem_map.mp listed
    exact (readIn_of_parseProperties properties m among).within (by decide) (by decide)
  · rw [Option.mem_toList] at last
    cases declared with
    | some s =>
      cases last
      exact (readIn_of_parseAdditional given part rfl).within (by decide) (by decide)
    | none =>
      rw [Option.none_or] at last
      split at last
      · cases last
        exact .inl (.inr ⟨_, rfl⟩)
      · cases last

theorem ne_nil_of_elements {v : Value} (given : v.isSet = true) {values : List Value}
    (listed : v.elements = .ok values) : values ≠ [] := by
  rintro rfl
  cases v with
  | list items =>
    cases listed
    cases given
  | object fields =>
    cases fields with
    | nil => cases given
    | cons entry rest => cases listed
  | scalar s =>
    cases s with
    | text s =>
      simp only [elements, Except.ok.injEq, List.map_eq_nil_iff, String.toList_eq_nil_iff] at listed
      subst listed
      cases given
    | null | bool _ | int _ | float _ | date _ => cases listed

theorem isSet_variantKeyword (varies : hasVariants schema = true) :
    (schema.get (variantKeyword schema).name).isSet = true := by
  unfold hasVariants at varies
  unfold variantKeyword
  split
  · assumption
  · rename_i missing
    exact (Bool.or_eq_true_iff.mp varies).resolve_left missing

/-- Where something is given that is no list, missing schemas are read, at least one. -/
theorem implied_of_missingEach {path keyword : String} {v : Value} {schemas : List Schema}
    (read : missingEach path keyword v = .ok schemas) (given : v.isSet = true) :
    schemas ≠ [] ∧ ∀ s ∈ schemas, Implied s := by
  unfold missingEach at read
  obtain ⟨values, listed, read⟩ := bind_eq_ok.mp read
  cases read
  refine ⟨?_, ?_⟩
  · rw [ne_eq, List.mapIdx_eq_nil_iff]
    exact ne_nil_of_elements given listed
  · intro s member
    obtain ⟨index, -, rfl⟩ := List.mem_mapIdx.mp member
    exact .inl ⟨_, rfl⟩

theorem parseUntyped_step (read : parseUntyped path origin schema = .ok s) :
    ReadFromFields schema s := by
  unfold parseUntyped at read
  split at read
  · rename_i varies
    have given := isSet_variantKeyword varies
    dsimp only at read
    split at read
    · rename_i values listed
      obtain ⟨variants, each, read⟩ := bind_eq_ok.mp read
      cases read
      have paired := readIn_of_parseEach each
      refine ⟨?_, fun part member => ?_⟩
      · rintro rfl
        cases paired
        rw [listed] at given
        cases given
      · obtain ⟨v, among, read⟩ := exists_of_forall₂ paired.flip member
        have stands : ReadIn (schema.get (variantKeyword schema).name) part :=
          listed ▸ ReadIn.mono read (.single among)
        refine stands.within ?_ ?_ <;> cases variantKeyword schema <;> decide
    · obtain ⟨variants, missing, read⟩ := bind_eq_ok.mp read
      cases read
      obtain ⟨filled, implied⟩ := implied_of_missingEach missing given
      exact ⟨fun empty => absurd empty filled, fun part member => .inl (implied part member)⟩
  · split at read
    · rename_i given
      split at read
      · rename_i values listed
        obtain ⟨branches, each, read⟩ := bind_eq_ok.mp read
        cases read
        have paired := readIn_of_parseBranches each
        refine ⟨?_, fun part member => ?_⟩
        · rintro rfl
          have marked := List.forall₂_nil_right_iff.mp paired
          rw [List.filter_eq_nil_iff] at marked
          refine ⟨values, listed, ?_, fun v among => by simpa using marked v among⟩
          rintro rfl
          rw [listed] at given
          cases given
        · obtain ⟨v, among, read⟩ := exists_of_forall₂ paired.flip member
          have stands : ReadIn (schema.get "allOf") part :=
            listed ▸ ReadIn.mono read (.single (List.mem_of_mem_filter among))
          exact stands.within (by decide) (by decide)
      · obtain ⟨branches, missing, read⟩ := bind_eq_ok.mp read
        cases read
        obtain ⟨filled, implied⟩ := implied_of_missingEach missing given
        exact ⟨fun empty => absurd empty filled, fun part member => .inl (implied part member)⟩
    · split at read
      · exact parseRecord_step read
      · cases read
        exact ⟨trivial, by simp [parts]⟩

theorem within_of_parseTypes {types : List Value} {start : Nat} {variants : List Schema}
    {lighter : ∀ t ∈ types, weightFields (schema.replace "type" t) < weightFields schema}
    (read : parseTypes path schema types start lighter = .ok variants) :
    List.Forall₂ (fun t s => ∃ place, parseFields place (schema.replace "type" t) = .ok s)
      types variants := by
  induction types generalizing start variants with
  | nil =>
    rw [parseTypes] at read
    cases read
    exact .nil
  | cons t rest ih =>
    rw [parseTypes] at read
    obtain ⟨first, head, read⟩ := bind_eq_ok.mp read
    obtain ⟨others, tail, read⟩ := bind_eq_ok.mp read
    cases read
    exact .cons ⟨_, head⟩ (ih tail)

/-- Reading an object as a schema goes on inside the object only. -/
theorem parseFields_step (read : parseFields path schema = .ok s) : ReadFromFields schema s := by
  rw [parseFields] at read
  split at read
  · cases read
    exact ⟨trivial, by simp [parts]⟩
  split at read
  · cases read
    exact ⟨rfl, by simp [parts]⟩
  split at read
  · rename_i given
    cases read
    exact ⟨⟨given, rfl⟩, by simp [parts]⟩
  split at read
  · rename_i marked
    obtain ⟨inner, unmarked, read⟩ := bind_eq_ok.mp read
    cases read
    refine ⟨trivial, fun part member => ?_⟩
    rw [List.mem_singleton.mp member]
    exact .inr ⟨_, _, .unmarked marked, unmarked⟩
  split at read
  · exact parseUntyped_step read
  · rename_i types listed
    obtain ⟨variants, each, read⟩ := bind_eq_ok.mp read
    cases read
    have paired := within_of_parseTypes each
    refine ⟨?_, fun part member => ?_⟩
    · rintro rfl
      cases paired
      exact listed
    · obtain ⟨t, among, place, read⟩ := exists_of_forall₂ paired.flip member
      exact .inr ⟨place, _, .typed listed among, read⟩
  · cases read
  · rename_i name typed
    split at read
    · exact parseArray_step read
    split at read
    · exact parseRecord_step read
    split at read
    · cases read
      exact ⟨trivial, by simp [parts]⟩
    split at read
    · rename_i kind known
      obtain ⟨enum, values, read⟩ := bind_eq_ok.mp read
      cases read
      refine ⟨⟨?_, values, rfl⟩, by simp [parts]⟩
      have same := List.find?_some known
      rw [beq_iff_eq] at same
      rw [typed, same]
    · cases read
      exact ⟨trivial, by simp [parts]⟩
  · cases read
    exact ⟨trivial, by simp [parts]⟩

/-- The object is read on the way of reading the value: it stands there, or it is one that is read
on the way without its null mark or with one of the types it lists. -/
inductive Describes (v : Value) : Fields → Prop
  | own {schema : Fields} (holds : Holds v (.object schema)) : Describes v schema
  | unmarked {schema : Fields} (describes : Describes v schema)
      (marked : (schema.get "x-nullable").isSet = true) :
      Describes v (schema.without "x-nullable")
  | typed {schema : Fields} {types : List Value} {t : Value} (describes : Describes v schema)
      (listed : schema.get? "type" = some (.list types)) (member : t ∈ types) :
      Describes v (schema.replace "type" t)

/-- But for the null mark and the type, an object that is read says what one says that is
written in the value. -/
theorem Describes.written {v : Value} (describes : Describes v schema) :
    ∃ fields : Fields, Holds v (.object fields) ∧
      ∀ keyword, keyword ≠ "type" → keyword ≠ "x-nullable" →
        schema.get keyword = fields.get keyword := by
  induction describes with
  | own holds => exact ⟨_, holds, fun _ _ _ => rfl⟩
  | unmarked _ _ ih =>
    obtain ⟨fields, holds, same⟩ := ih
    refine ⟨fields, holds, fun keyword noType noMark => ?_⟩
    rw [Fields.get_without_of_ne noMark, same keyword noType noMark]
  | typed _ _ _ ih =>
    obtain ⟨fields, holds, same⟩ := ih
    refine ⟨fields, holds, fun keyword noType noMark => ?_⟩
    rw [Fields.get_replace_of_ne noType, same keyword noType noMark]

theorem Describes.inside {v : Value} {inner : Fields} (describes : Describes v schema)
    (inside : ReadsInside schema inner) : Describes v inner := by
  cases inside with
  | unmarked marked => exact .unmarked describes marked
  | typed listed member => exact .typed describes listed member
  | within noType noMark holds =>
    obtain ⟨fields, stands, same⟩ := describes.written
    rw [same _ noType noMark] at holds
    exact .own (stands.trans (holds_get holds))

/-- An object is read on the way of reading whatever holds all objects of a value. -/
theorem Describes.mono {v w : Value} (describes : Describes w schema)
    (within : ∀ fields, Holds w (.object fields) → Holds v (.object fields)) :
    Describes v schema := by
  induction describes with
  | own holds => exact .own (within _ holds)
  | unmarked _ marked ih => exact .unmarked ih marked
  | typed _ listed member ih => exact .typed ih listed member

/-- A schema stands for a missing one, or says what an object says that the value describes. -/
def Sourced (v : Value) (s : Schema) : Prop :=
  Implied s ∨ ∃ schema, Describes v schema ∧ Tells schema s

theorem everywhere_of_implied {p : Schema → Prop} (implied : Implied s) (own : p s) :
    s.Everywhere p := by
  rcases implied with ⟨o, rfl⟩ | ⟨o, rfl⟩ <;> exact throughout_leaf rfl own

theorem everywhere_sourced_of_parseFields {path : String} {schema : Fields} {s : Schema}
    {v : Value} (describes : Describes v schema) (read : parseFields path schema = .ok s) :
    s.Everywhere (Sourced v) := by
  have step := parseFields_step read
  refine everywhere_iff.mpr ⟨.inr ⟨schema, describes, step.tells⟩, fun part member => ?_⟩
  rcases step.parts part member with implied | ⟨place, inner, inside, read⟩
  · exact everywhere_of_implied implied (.inl implied)
  · have lighter := inside.weight_lt
    exact everywhere_sourced_of_parseFields (describes.inside inside) read
termination_by weightFields schema

/-- Whatever stands in the schema of a value is told by an object that the value describes, unless
it stands for a missing schema. -/
theorem everywhere_sourced {v : Value} (read : parse path v = .ok s) :
    s.Everywhere (Sourced v) := by
  rcases readIn_of_parse read with implied | ⟨place, inner, holds, read⟩
  · exact everywhere_of_implied implied (.inl implied)
  · exact everywhere_sourced_of_parseFields (.own holds) read

end Schema

end ClientGen
