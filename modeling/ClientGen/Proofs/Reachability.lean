import ClientGen.Proofs.Tables
import ClientGen.Reachable

/-!
# The reachable models

`Reaches` says which models of a table can be come to from class names along dependencies, as a
least relation. The search visits exactly these: what it visits is reachable, it visits what it
starts from, and it visits the dependencies of everything it visits.
-/
namespace ClientGen.Reachable

/-- The keys of the models that class names lead to, directly or through dependencies. Names
without a model lead nowhere. -/
inductive Reaches (models : Table Model) (classes : List String) : String → Prop
  | root {name : String} {m : Model} (used : name ∈ classes)
      (present : models.get? (Naming.key name) = some m) : Reaches models classes (Naming.key name)
  | step {key name : String} {m d : Model} (reached : Reaches models classes key)
      (found : models.get? key = some m) (depends : name ∈ m.dependencies)
      (present : models.get? (Naming.key name) = some d) :
      Reaches models classes (Naming.key name)

/-- There is a model under every reachable key. -/
theorem Reaches.present {models : Table Model} {classes : List String} {key : String}
    (reached : Reaches models classes key) : ∃ m, models.get? key = some m := by
  cases reached with
  | root _ present => exact ⟨_, present⟩
  | step _ _ _ present => exact ⟨_, present⟩

variable {models : Table Model}

/-- A property of what is visited and of what waits, which dependencies inherit, is one of all
that the search visits. -/
theorem visit_induction {P : String → Prop}
    (inherit : ∀ key m, P key → models.get? key = some m → ∀ name ∈ m.dependencies,
      ∀ d, models.get? (Naming.key name) = some d → P (Naming.key name))
    (visited waiting : List String) (seen : ∀ key ∈ visited, P key)
    (next : ∀ key ∈ waiting, ∀ m, models.get? key = some m → P key) :
    ∀ key ∈ visit models visited waiting, P key := by
  fun_induction visit models visited waiting with
  | case1 => exact seen
  | case2 visited key rest _ ih =>
    exact ih seen fun k member => next k (List.mem_cons_of_mem key member)
  | case3 visited key rest _ _ ih =>
    exact ih seen fun k member => next k (List.mem_cons_of_mem key member)
  | case4 visited key rest _ m found ih =>
    have here : P key := next key (by simp) m found
    apply ih
    · intro k member
      rcases List.mem_cons.mp member with rfl | earlier
      · exact here
      · exact seen k earlier
    · intro k member d present
      rcases List.mem_append.mp member with dependency | later
      · obtain ⟨name, depends, rfl⟩ := List.mem_map.mp dependency
        exact inherit key m here found name depends d present
      · exact next k (List.mem_cons_of_mem key later) d present

/-- The search forgets nothing that it has visited. -/
theorem visited_subset_visit (visited waiting : List String) :
    visited ⊆ visit models visited waiting := by
  fun_induction visit models visited waiting with
  | case1 => exact List.Subset.refl _
  | case2 _ _ _ _ ih => exact ih
  | case3 _ _ _ _ _ ih => exact ih
  | case4 visited key _ _ _ _ ih => exact List.Subset.trans (List.subset_cons_self key visited) ih

/-- The search visits everything that waits and is there. -/
theorem waiting_mem_visit (visited waiting : List String) {key : String} {m : Model}
    (waits : key ∈ waiting) (present : models.get? key = some m) :
    key ∈ visit models visited waiting := by
  fun_induction visit models visited waiting with
  | case1 => simp at waits
  | case2 visited k rest seen ih =>
    rcases List.mem_cons.mp waits with rfl | later
    · exact visited_subset_visit visited rest seen
    · exact ih later
  | case3 visited k rest _ absent ih =>
    rcases List.mem_cons.mp waits with rfl | later
    · rw [absent] at present
      cases present
    · exact ih later
  | case4 visited k rest _ n _ ih =>
    rcases List.mem_cons.mp waits with rfl | later
    · exact visited_subset_visit _ _ (by simp)
    · exact ih (by simp [later])

/-- A set of keys that takes in the dependencies of its models, or has them wait. -/
def Ahead (models : Table Model) (visited waiting : List String) : Prop :=
  ∀ key ∈ visited, ∀ m, models.get? key = some m → ∀ name ∈ m.dependencies,
    ∀ d, models.get? (Naming.key name) = some d →
      Naming.key name ∈ visited ∨ Naming.key name ∈ waiting

/-- The search ends with nothing waiting: it takes in the dependencies of all it visits. -/
theorem ahead_visit (visited waiting : List String) (ahead : Ahead models visited waiting) :
    Ahead models (visit models visited waiting) [] := by
  fun_induction visit models visited waiting with
  | case1 => exact ahead
  | case2 visited k rest seen ih =>
    apply ih
    intro key member m found name depends d present
    rcases ahead key member m found name depends d present with before | waits
    · exact Or.inl before
    · rcases List.mem_cons.mp waits with equal | later
      · exact Or.inl (equal ▸ seen)
      · exact Or.inr later
  | case3 visited k rest _ absent ih =>
    apply ih
    intro key member m found name depends d present
    rcases ahead key member m found name depends d present with before | waits
    · exact Or.inl before
    · rcases List.mem_cons.mp waits with equal | later
      · rw [equal, absent] at present
        cases present
      · exact Or.inr later
  | case4 visited k rest _ n here ih =>
    apply ih
    intro key member m found name depends d present
    rcases List.mem_cons.mp member with rfl | earlier
    · rw [here] at found
      cases found
      exact Or.inr (List.mem_append_left rest (List.mem_map_of_mem depends))
    · rcases ahead key earlier m found name depends d present with before | waits
      · exact Or.inl (List.mem_cons_of_mem k before)
      · rcases List.mem_cons.mp waits with equal | later
        · exact Or.inl (by simp [equal])
        · exact Or.inr (List.mem_append_right _ later)

/-- The search gives the keys of the reachable models, and no others. -/
theorem mem_fromClasses (classes : List String) (key : String) :
    key ∈ fromClasses models classes ↔ Reaches models classes key := by
  constructor
  · intro member
    refine visit_induction (P := Reaches models classes) ?_ [] (classes.map Naming.key) (by simp)
      ?_ key member
    · intro k m reached found name depends d present
      exact .step reached found depends present
    · intro k waits m present
      obtain ⟨name, used, rfl⟩ := List.mem_map.mp waits
      exact .root used present
  · intro reached
    have closed : Ahead models (fromClasses models classes) [] :=
      ahead_visit [] (classes.map Naming.key) (by intro key member; simp at member)
    induction reached with
    | root used present => exact waiting_mem_visit [] _ (List.mem_map_of_mem used) present
    | step _ found depends present ih =>
      exact (closed _ ih _ found _ depends _ present).resolve_right (by simp)

instance (models : Table Model) (classes : List String) (key : String) :
    Decidable (Reaches models classes key) :=
  decidable_of_iff _ (mem_fromClasses classes key)

end ClientGen.Reachable
