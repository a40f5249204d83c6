import ClientGen.Proofs.SchemaSources

/-!
# Places of schemas

A schema remembers where it stands and what describes it (`Schema.origin_parseFields`). Its type
does not depend on this: a value has the same type at all places of a document, or fails in the same
way at all of them (`typeAt_eq_typeAt`).
-/
namespace ClientGen

/-- Two runs fail in the same way, or give related values. -/
inductive Alike {ε α β : Type} (related : α → β → Prop) : Except ε α → Except ε β → Prop
  | ok {a : α} {b : β} (same : related a b) : Alike related (.ok a) (.ok b)
  | error (e : ε) : Alike related (.error e) (.error e)

namespace Alike

variable {ε α β γ δ : Type} {related : α → β → Prop} {linked : γ → δ → Prop}

theorem refl {related : α → α → Prop} (same : ∀ a, related a a) (run : Except ε α) :
    Alike related run run := by
  cases run with
  | ok a => exact .ok (same a)
  | error e => exact .error e

theorem bind {x : Except ε α} {y : Except ε β} {f : α → Except ε γ} {g : β → Except ε δ}
    (first : Alike related x y) (next : ∀ a b, related a b → Alike linked (f a) (g b)) :
    Alike linked (x >>= f) (y >>= g) := by
  cases first with
  | ok same => exact next _ _ same
  | error e => exact .error e

theorem eq {x y : Except ε α} (alike : Alike Eq x y) : x = y := by
  cases alike with
  | ok same => rw [same]
  | error e => rfl

end Alike

namespace Schema

open Value

section Origins

variable {path : String} {origin : Origin} {schema : Fields} {s : Schema}

theorem origin_parseArray (read : parseArray path origin schema = .ok s) : s.origin = origin := by
  unfold parseArray at read
  split at read
  · obtain ⟨items, -, read⟩ := bind_eq_ok.mp read
    obtain ⟨additional, -, read⟩ := bind_eq_ok.mp read
    cases read
    rfl
  · cases read
    rfl
  · obtain ⟨items, -, read⟩ := bind_eq_ok.mp read
    cases read
    rfl
  · cases read
    rfl

theorem origin_parseRecord (read : parseRecord path origin schema = .ok s) :
    s.origin = origin := by
  unfold parseRecord at read
  obtain ⟨members, -, read⟩ := bind_eq_ok.mp read
  obtain ⟨declared, -, read⟩ := bind_eq_ok.mp read
  obtain ⟨required, -, read⟩ := bind_eq_ok.mp read
  cases read
  rfl

theorem origin_parseUntyped (read : parseUntyped path origin schema = .ok s) :
    s.origin = origin := by
  unfold parseUntyped at read
  split at read
  · dsimp only at read
    split at read
    all_goals
      obtain ⟨variants, -, read⟩ := bind_eq_ok.mp read
      cases read
      rfl
  split at read
  · split at read
    all_goals
      obtain ⟨branches, -, read⟩ := bind_eq_ok.mp read
      cases read
      rfl
  split at read
  · exact origin_parseRecord read
  · cases read
    rfl

/-- A schema that is read from an object stands where the object does, and is described as the
object says. -/
theorem origin_parseFields (read : parseFields path schema = .ok s) :
    s.origin.path = path ∧ s.origin.description = schema.get "description" := by
  suffices same : s.origin = ⟨path, schema.get "description"⟩ by simp [same]
  rw [parseFields] at read
  split at read
  · cases read
    rfl
  split at read
  · cases read
    rfl
  split at read
  · cases read
    rfl
  split at read
  · obtain ⟨inner, -, read⟩ := bind_eq_ok.mp read
    cases read
    rfl
  split at read
  · exact origin_parseUntyped read
  · obtain ⟨variants, -, read⟩ := bind_eq_ok.mp read
    cases read
    rfl
  · cases read
  · split at read
    · exact origin_parseArray read
    split at read
    · exact origin_parseRecord read
    split at read
    · cases read
      rfl
    split at read
    · obtain ⟨enum, -, read⟩ := bind_eq_ok.mp read
      cases read
      rfl
    · cases read
      rfl
  · cases read
    rfl

end Origins

/-- Two schemas have the same type, or fail to have one in the same way. -/
def SameType (s t : Schema) : Prop := s.type = t.type

/-- The members of two objects have the same names and types. -/
def SameMember (m n : Member × Schema) : Prop := m.1 = n.1 ∧ SameType m.2 n.2

/-- An object is read as schemas of the same type at all places. -/
def PlaceFree (schema : Fields) : Prop :=
  ∀ p q, Alike SameType (parseFields p schema) (parseFields q schema)

/-- All objects that stand in a value are read as schemas of the same type at all places. -/
def FreeInside (v : Value) : Prop := ∀ inner, Holds v (.object inner) → PlaceFree inner

theorem FreeInside.part {v part : Value} (free : FreeInside v) (member : part ∈ v.parts) :
    FreeInside part :=
  fun inner holds => free inner (.head member holds)

section Types

theorem types_congr {schemas others : List Schema}
    (same : List.Forall₂ SameType schemas others) : types schemas = types others := by
  induction same with
  | nil => rfl
  | cons head _ ih => rw [types, types, head, ih]

theorem memberTypes_congr {members others : List (Member × Schema)}
    (same : List.Forall₂ SameMember members others) :
    memberTypes members = memberTypes others := by
  induction same with
  | nil => rfl
  | @cons m n _ _ head _ ih =>
    obtain ⟨m, s⟩ := m
    obtain ⟨n, t⟩ := n
    obtain ⟨rfl, typed⟩ := head
    rw [memberTypes, memberTypes, typed, ih]

theorem additionalType_congr {additional other : Option Schema}
    (same : Option.Rel SameType additional other) :
    additionalType additional = additionalType other := by
  cases same with
  | none => rfl
  | some typed => rw [additionalType, additionalType, typed]

end Types

variable {p q : String} {v : Value} {values : List Value} {o o' : Origin} {schema : Fields}

theorem alike_parse (free : FreeInside v) : Alike SameType (parse p v) (parse q v) := by
  unfold parse
  split
  · rename_i fields
    exact free fields .refl p q
  · exact .ok rfl

theorem alike_parseEach {keyword : String} {start : Nat} (free : ∀ v ∈ values, FreeInside v) :
    Alike (List.Forall₂ SameType) (parseEach p keyword start values)
      (parseEach q keyword start values) := by
  induction values generalizing start with
  | nil =>
    rw [parseEach, parseEach]
    exact .ok .nil
  | cons v rest ih =>
    obtain ⟨first, others⟩ := List.forall_mem_cons.mp free
    rw [parseEach.eq_def p, parseEach.eq_def q]
    refine (alike_parse first).bind fun s t head => ?_
    exact (ih others).bind fun ss ts tail => .ok (.cons head tail)

theorem alike_parseBranches {start : Nat} (free : ∀ v ∈ values, FreeInside v) :
    Alike (List.Forall₂ SameType) (parseBranches p start values) (parseBranches q start values) := by
  induction values generalizing start with
  | nil =>
    rw [parseBranches, parseBranches]
    exact .ok .nil
  | cons v rest ih =>
    obtain ⟨first, others⟩ := List.forall_mem_cons.mp free
    rw [parseBranches.eq_def p, parseBranches.eq_def q]
    by_cases marked : isNullMarked v = true
    · simp only [marked, if_true]
      exact ih others
    · simp only [marked]
      refine (alike_parse first).bind fun s t head => ?_
      exact (ih others).bind fun ss ts tail => .ok (.cons head tail)

theorem alike_missingEach {keyword : String} :
    Alike (List.Forall₂ SameType) (missingEach p keyword v) (missingEach q keyword v) := by
  unfold missingEach
  refine (Alike.refl (fun _ => rfl) v.elements).bind fun items _ same => ?_
  subst same
  refine .ok (List.forall₂_iff_get.mpr ⟨by simp, fun i _ _ => ?_⟩)
  simp [SameType, type]

theorem alike_parseAdditional (free : FreeInside v) :
    Alike (Option.Rel SameType) (parseAdditional p v) (parseAdditional q v) := by
  unfold parseAdditional
  split
  · rename_i fields
    exact (free fields .refl p q).bind fun s t same => .ok (.some same)
  · exact .ok .none

theorem alike_parseMembers {required : Value} {fields : Fields}
    (free : FreeInside (.object fields)) :
    Alike (List.Forall₂ SameMember) (parseMembers p required fields)
      (parseMembers q required fields) := by
  have each : ∀ entry ∈ fields, FreeInside entry.2 := fun entry member =>
    free.part (List.mem_map_of_mem member)
  clear free
  induction fields with
  | nil =>
    rw [parseMembers, parseMembers]
    exact .ok .nil
  | cons entry rest ih =>
    obtain ⟨name, v⟩ := entry
    obtain ⟨first, others⟩ := List.forall_mem_cons.mp each
    rw [parseMembers.eq_def p, parseMembers.eq_def q]
    refine (alike_parse first).bind fun s t head => ?_
    refine (Alike.refl (fun _ => rfl) (required.names name)).bind fun asked _ same => ?_
    subst same
    exact (ih others).bind fun ms ns tail => .ok (.cons ⟨rfl, head⟩ tail)

theorem alike_parseProperties {required : Value} (free : FreeInside v) :
    Alike (List.Forall₂ SameMember) (parseProperties p required v) (parseProperties q required v) := by
  unfold parseProperties
  split
  · exact alike_parseMembers free
  · exact .refl (fun _ => List.forall₂_same.mpr fun _ _ => ⟨rfl, rfl⟩) _

/-- What stands under a keyword is read inside the object. -/
theorem FreeInside.get {keyword : String}
    (inside : ∀ inner, ReadsInside schema inner → PlaceFree inner)
    (noType : keyword ≠ "type" := by decide) (noMark : keyword ≠ "x-nullable" := by decide) :
    FreeInside (schema.get keyword) :=
  fun inner holds => inside inner (.within noType noMark holds)

theorem alike_parseRecord (inside : ∀ inner, ReadsInside schema inner → PlaceFree inner) :
    Alike SameType (parseRecord p o schema) (parseRecord q o' schema) := by
  unfold parseRecord
  refine (alike_parseProperties (.get inside)).bind fun ms ns members => ?_
  refine (alike_parseAdditional (.get inside)).bind fun a b declared => ?_
  refine (Alike.refl (fun _ => rfl) (requiredNames schema).elements).bind fun _ _ _ => .ok ?_
  have rest : Option.Rel SameType
      (a.or (if (schema.get "additionalProperties").isSet then
        some (.any ⟨p ++ "/additionalProperties", .null⟩ none) else none))
      (b.or (if (schema.get "additionalProperties").isSet then
        some (.any ⟨q ++ "/additionalProperties", .null⟩ none) else none)) := by
    cases declared with
    | some same => exact .some same
    | none =>
      rw [Option.none_or, Option.none_or]
      split
      · exact .some rfl
      · exact .none
  rw [SameType, type, type, memberTypes_congr members, additionalType_congr rest]

theorem alike_parseArray (inside : ∀ inner, ReadsInside schema inner → PlaceFree inner) :
    Alike SameType (parseArray p o schema) (parseArray q o' schema) := by
  have free : FreeInside (schema.get "items") := .get inside
  rw [parseArray.eq_def p, parseArray.eq_def q]
  split
  · rename_i items given
    rw [given] at free
    refine (alike_parseEach fun v member => free.part member).bind fun ss ts places => ?_
    refine (alike_parseAdditional (.get inside)).bind fun a b rest => .ok ?_
    rw [SameType, type, type, types_congr places, additionalType_congr rest]
  · exact .ok rfl
  · rename_i fields given
    rw [given] at free
    refine (free fields .refl _ _).bind fun s t same => .ok ?_
    rw [SameType, type, type, same]
  · exact .ok rfl

theorem alike_parseUntyped (inside : ∀ inner, ReadsInside schema inner → PlaceFree inner) :
    Alike SameType (parseUntyped p o schema) (parseUntyped q o' schema) := by
  have union : ∀ {ss ts : List Schema} {keyword : UnionKeyword}, List.Forall₂ SameType ss ts →
      SameType (.union o keyword ss) (.union o' keyword ts) := by
    intro ss ts keyword same
    rw [SameType, type, type, types_congr same]
  have intersection : ∀ {ss ts : List Schema}, List.Forall₂ SameType ss ts →
      SameType (.intersection o ss) (.intersection o' ts) := by
    intro ss ts same
    rw [SameType, type, type, types_congr same]
  rw [parseUntyped.eq_def p, parseUntyped.eq_def q]
  split
  · have free : FreeInside (schema.get (variantKeyword schema).name) := by
      refine .get inside ?_ ?_ <;> cases variantKeyword schema <;> decide
    dsimp only
    split
    · rename_i variants listed
      rw [listed] at free
      exact (alike_parseEach fun v member => free.part member).bind fun ss ts same =>
        .ok (union same)
    · exact alike_missingEach.bind fun ss ts same => .ok (union same)
  split
  · have free : FreeInside (schema.get "allOf") := .get inside
    split
    · rename_i branches listed
      rw [listed] at free
      exact (alike_parseBranches fun v member => free.part member).bind fun ss ts same =>
        .ok (intersection same)
    · exact alike_missingEach.bind fun ss ts same => .ok (intersection same)
  split
  · exact alike_parseRecord inside
  · exact .ok rfl

theorem alike_parseTypes {types : List Value} {start : Nat}
    (lighter : ∀ t ∈ types, weightFields (schema.replace "type" t) < weightFields schema)
    (free : ∀ t ∈ types, PlaceFree (schema.replace "type" t)) :
    Alike (List.Forall₂ SameType) (parseTypes p schema types start lighter)
      (parseTypes q schema types start lighter) := by
  induction types generalizing start with
  | nil =>
    rw [parseTypes, parseTypes]
    exact .ok .nil
  | cons t rest ih =>
    obtain ⟨first, others⟩ := List.forall_mem_cons.mp free
    rw [parseTypes.eq_def p, parseTypes.eq_def q]
    refine (first _ _).bind fun s u head => ?_
    exact (ih _ others).bind fun ss us tail => .ok (.cons head tail)

/-- An object has the same type at all places if all have that are read inside it. -/
theorem placeFree_of_inside (inside : ∀ inner, ReadsInside schema inner → PlaceFree inner) :
    PlaceFree schema := by
  intro p q
  rw [parseFields.eq_def p, parseFields.eq_def q]
  dsimp only
  split
  · exact .ok rfl
  split
  · exact .ok rfl
  split
  · exact .ok rfl
  split
  · rename_i marked
    refine (inside _ (.unmarked marked) p q).bind fun s t same => .ok ?_
    rw [SameType, type, type, same]
  split
  · exact alike_parseUntyped inside
  · rename_i types listed
    refine (alike_parseTypes _ fun t member => inside _ (.typed listed member)).bind
      fun ss ts same => .ok ?_
    rw [SameType, type, type, types_congr same]
  · exact .error _
  · split
    · exact alike_parseArray inside
    split
    · exact alike_parseRecord inside
    split
    · exact .ok rfl
    split
    · exact (Alike.refl (fun _ => rfl) (enumValues schema)).bind fun a b same => .ok (by
        rw [SameType, type, type, same])
    · exact .ok rfl
  · exact .ok rfl

theorem placeFree (schema : Fields) : PlaceFree schema :=
  placeFree_of_inside fun inner inside =>
    have := inside.weight_lt
    placeFree inner
termination_by weightFields schema

end Schema

/-- A value has the same type at all places. -/
theorem typeAt_eq_typeAt (p q : String) (v : Value) : typeAt p v = typeAt q v := by
  have read : Alike Schema.SameType (Schema.parse p v) (Schema.parse q v) :=
    Schema.alike_parse fun inner _ => Schema.placeFree inner
  exact (read.bind fun s t same => same ▸ .refl (fun _ => rfl) s.type).eq

end ClientGen
