import Mathlib.Data.List.Induction
import Mathlib.Data.List.Nodup
import ClientGen.Dependency
import ClientGen.Proofs.ClassNames

/-!
# The classes that a type names

A type names the classes behind its constituents. A compound names what its parts name, a null mark
changes nothing, and the dependencies of a type lead to all classes that it names.
-/
namespace ClientGen.TypeExpr

theorem mem_distinct {names : List String} {name : String} :
    name ∈ distinct names ↔ name ∈ names := by
  have added : ∀ (rest seen : List String),
      name ∈ rest.foldl (fun seen n => if n ∈ seen then seen else seen ++ [n]) seen ↔
        name ∈ seen ∨ name ∈ rest := by
    intro rest
    induction rest with
    | nil => simp
    | cons n rest ih =>
      intro seen
      rw [List.foldl_cons, ih, List.mem_cons]
      by_cases known : n ∈ seen
      · rw [if_pos known]
        constructor
        · rintro (earlier | later)
          · exact Or.inl earlier
          · exact Or.inr (Or.inr later)
        · rintro (earlier | rfl | later)
          · exact Or.inl earlier
          · exact Or.inl known
          · exact Or.inr later
      · rw [if_neg known, List.mem_append, List.mem_singleton, or_assoc]
  have from_nothing := added names []
  simp only [List.not_mem_nil, false_or] at from_nothing
  exact from_nothing

theorem distinct_of_nodup {names : List String} (nodup : names.Nodup) : distinct names = names := by
  have added : ∀ (rest seen : List String), (seen ++ rest).Nodup →
      rest.foldl (fun seen name => if name ∈ seen then seen else seen ++ [name]) seen =
        seen ++ rest := by
    intro rest
    induction rest with
    | nil => simp
    | cons name rest ih =>
      intro seen apart
      have fresh : name ∉ seen := fun member =>
        (List.disjoint_of_nodup_append apart) member (by simp)
      have again : (seen ++ [name] ++ rest).Nodup := by simpa using apart
      rw [List.foldl_cons, if_neg fresh, ih _ again]
      simp
  exact added names [] (by simpa using nodup)

theorem distinct_concat (names : List String) (name : String) :
    distinct (names ++ [name]) =
      if name ∈ names then distinct names else distinct names ++ [name] := by
  have known : name ∈ distinct names ↔ name ∈ names := mem_distinct
  have added : distinct (names ++ [name]) =
      if name ∈ distinct names then distinct names else distinct names ++ [name] := by
    unfold distinct
    rw [List.foldl_append]
    rfl
  simp only [added, known]

/-- Names that are taken once each have no repetitions. -/
theorem nodup_distinct (names : List String) : (distinct names).Nodup := by
  induction names using List.reverseRecOn with
  | nil => exact List.nodup_nil
  | append_singleton names name ih =>
    rw [distinct_concat]
    by_cases known : name ∈ names
    · rwa [if_pos known]
    · rw [if_neg known, List.nodup_append]
      refine ⟨ih, List.nodup_singleton name, ?_⟩
      intro other earlier last isLast equal
      rw [List.mem_singleton] at isLast
      exact known (mem_distinct.mp (isLast ▸ equal ▸ earlier))

/-- A constituent of the type is the class `name`, perhaps behind null marks. -/
def Names (t : TypeExpr) (name : String) : Prop :=
  ∃ leaf ∈ t.leaves, strip leaf = name

@[simp] theorem names_compound {text name : String} {parts : List TypeExpr} :
    (compound text parts).Names name ↔ ∃ t ∈ parts, t.Names name := by
  simp only [Names, compound, leaves, Option.getD_some, merge, mem_distinct, List.mem_flatMap]
  constructor
  · rintro ⟨leaf, ⟨t, member, among⟩, same⟩
    exact ⟨t, member, leaf, among, same⟩
  · rintro ⟨t, member, leaf, among, same⟩
    exact ⟨leaf, ⟨t, member, among⟩, same⟩

@[simp] theorem names_nullable {t : TypeExpr} {name : String} :
    t.nullable.Names name ↔ t.Names name := by
  obtain ⟨text, constituents⟩ := t
  cases constituents with
  | none => simp [Names, nullable, leaves, strip_null_mark]
  | some names => simp [Names, nullable, leaves]

@[simp] theorem names_scalar {text name : String} :
    (scalar text).Names name ↔ strip text = name := by
  simp [Names, scalar, leaves]

/-- The dependencies of a type lead to the classes that it names. -/
theorem exists_dependencyName {t : TypeExpr} {name : String} (named : t.Names name)
    (plain : strip name = name) :
    ∃ dependency ∈ t.dependencyNames, Dependencies.keyOf dependency = Naming.key name := by
  obtain ⟨text, constituents⟩ := t
  obtain ⟨leaf, member, same⟩ := named
  unfold Dependencies.keyOf
  cases constituents with
  | none =>
    simp only [leaves, Option.getD_none, List.mem_singleton] at member
    refine ⟨strip text, by simp [dependencyNames], ?_⟩
    rw [← member, same, plain]
  | some names => exact ⟨leaf, member, by rw [same]⟩

end ClientGen.TypeExpr
