import Mathlib
import ClientGen.Proofs.Reachability

/-!
# The search gives the least closed set

A set of keys is closed when it takes in the models that class names lead to and, with each model,
the models of its dependencies. The keys that the search gives are the least such set, each of them
once, whatever cycles, repetitions and unknown names there are (`fromClasses_isLeast`). So it makes
no difference in which order, and how often, the names to start from and the dependencies of each
model are listed.
-/
namespace ClientGen.Reachable

/-- A set of keys of the table takes in the models that class names lead to, and the models of the
dependencies of every model in it. -/
structure TakesIn (models : Table Model) (classes : List String) (keys : Set String) : Prop where
  present : ∀ key ∈ keys, key ∈ models.keys
  root : ∀ name ∈ classes, Naming.key name ∈ models.keys → Naming.key name ∈ keys
  step : ∀ key ∈ keys, ∀ m, models.get? key = some m → ∀ name ∈ m.dependencies,
    Naming.key name ∈ models.keys → Naming.key name ∈ keys

/-- The tables have the same keys, with models that depend on the same names, in whatever order. -/
def SameDependencies (models others : Table Model) : Prop :=
  ∀ key, Option.Rel (fun m n : Model => ∀ name, name ∈ m.dependencies ↔ name ∈ n.dependencies)
    (models.get? key) (others.get? key)

variable {models others : Table Model} {classes roots : List String}

theorem mem_keys_iff {key : String} : key ∈ models.keys ↔ ∃ m, models.get? key = some m := by
  constructor
  · intro member
    obtain ⟨⟨k, m⟩, entry, rfl⟩ := List.mem_map.mp member
    exact ⟨m, Table.get?_eq_some.mpr entry⟩
  · rintro ⟨m, present⟩
    exact Table.mem_keys_of_get? present

/-- The reachable keys are a closed set. -/
theorem takesIn_reaches : TakesIn models classes {key | Reaches models classes key} := by
  refine ⟨fun key reached => mem_keys_iff.mpr reached.present, ?_, ?_⟩
  · intro name used member
    obtain ⟨m, present⟩ := mem_keys_iff.mp member
    exact .root used present
  · intro key reached m found name depends member
    obtain ⟨d, present⟩ := mem_keys_iff.mp member
    exact Reaches.step reached found depends present

/-- Every closed set has all reachable keys. -/
theorem TakesIn.mem_of_reaches {keys : Set String} (closed : TakesIn models classes keys)
    {key : String} (reached : Reaches models classes key) : key ∈ keys := by
  induction reached with
  | root used present => exact closed.root _ used (Table.mem_keys_of_get? present)
  | step _ found depends present ih =>
    exact closed.step _ ih _ found _ depends (Table.mem_keys_of_get? present)

/-- No key is visited twice. -/
theorem nodup_visit (visited waiting : List String) (nodup : visited.Nodup) :
    (visit models visited waiting).Nodup := by
  fun_induction visit models visited waiting with
  | case1 => exact nodup
  | case2 _ _ _ _ ih => exact ih nodup
  | case3 _ _ _ _ _ ih => exact ih nodup
  | case4 _ _ _ fresh _ _ ih => exact ih (List.nodup_cons.mpr ⟨fresh, nodup⟩)

theorem SameDependencies.symm (same : SameDependencies models others) :
    SameDependencies others models := by
  intro key
  have related := same key
  revert related
  generalize models.get? key = m
  generalize others.get? key = n
  rintro (⟨equal⟩ | _)
  · exact .some fun name => (equal name).symm
  · exact .none

/-- A model has a partner that depends on the same names. -/
theorem SameDependencies.partner (same : SameDependencies models others) {key : String} {m : Model}
    (present : models.get? key = some m) :
    ∃ n, others.get? key = some n ∧ ∀ name, name ∈ m.dependencies ↔ name ∈ n.dependencies := by
  have related := same key
  rw [present] at related
  cases found : others.get? key with
  | none =>
    rw [found] at related
    cases related
  | some n =>
    rw [found] at related
    cases related with
    | some equal => exact ⟨n, rfl, equal⟩

/-- What is reached over some lists is reached over lists of the same names. -/
theorem Reaches.of_same (same : SameDependencies models others)
    (started : ∀ name ∈ classes, name ∈ roots) {key : String}
    (reached : Reaches models classes key) : Reaches others roots key := by
  induction reached with
  | root used present =>
    obtain ⟨n, there, -⟩ := same.partner present
    exact .root (started _ used) there
  | step _ found depends present ih =>
    obtain ⟨n, there, equal⟩ := same.partner found
    obtain ⟨d, target, -⟩ := same.partner present
    exact .step ih there ((equal _).mp depends) target

/-- The search ends with the least closed set of keys, each of them once. The order and the
repetitions of the names to start from and of the dependencies make no difference to it. -/
theorem fromClasses_isLeast (models : Table Model) (classes : List String) :
    IsLeast {keys | TakesIn models classes keys} {key | key ∈ fromClasses models classes} ∧
    (fromClasses models classes).Nodup ∧
    ∀ others roots, SameDependencies models others → (∀ name, name ∈ classes ↔ name ∈ roots) →
      (fromClasses others roots).Perm (fromClasses models classes) := by
  have nodup : ∀ (table : Table Model) (names : List String), (fromClasses table names).Nodup :=
    fun table names => nodup_visit [] (names.map Naming.key) List.nodup_nil
  refine ⟨?_, nodup models classes, ?_⟩
  · have reached : {key | key ∈ fromClasses models classes} = {key | Reaches models classes key} :=
      Set.ext fun key => mem_fromClasses classes key
    rw [reached]
    exact ⟨takesIn_reaches, fun keys closed key member => closed.mem_of_reaches member⟩
  · intro others roots same started
    rw [List.perm_ext_iff_of_nodup (nodup others roots) (nodup models classes)]
    intro key
    rw [mem_fromClasses, mem_fromClasses]
    constructor
    · exact Reaches.of_same same.symm fun name => (started name).mpr
    · exact Reaches.of_same same fun name => (started name).mp

/-- Two models that depend on each other, of which one has further dependencies. -/
def cycle (further : List String) : Table Model :=
  .ofList [("a", { name := "A", className := "A", dependencies := further }),
    ("b", { name := "B", className := "B", dependencies := ["A"] })]

theorem sameDependencies_cycle {names more : List String}
    (equal : ∀ name, name ∈ names ↔ name ∈ more) : SameDependencies (cycle names) (cycle more) := by
  intro key
  have entries : ∀ further, (cycle further).entries = _ := fun further =>
    Table.entries_ofList (by simp)
  simp only [Table.get?, entries, List.lookup_cons]
  split
  · exact .some equal
  · split
    · exact .some fun name => Iff.rfl
    · exact .none

/-- Whatever the order, the search goes once round a cycle with a loop and an unknown name. -/
theorem fromClasses_isLeast_cycle :
    fromClasses (cycle ["B", "X", "A"]) ["X", "A"] = ["b", "a"] ∧
    (fromClasses (cycle ["A", "B", "X", "B"]) ["A", "X", "A"]).Perm
      (fromClasses (cycle ["B", "X", "A"]) ["X", "A"]) := by
  have same : SameDependencies (cycle ["B", "X", "A"]) (cycle ["A", "B", "X", "B"]) :=
    sameDependencies_cycle fun name => by grind
  have started : ∀ name, name ∈ ["X", "A"] ↔ name ∈ ["A", "X", "A"] := fun name => by grind
  exact ⟨by cbv, (fromClasses_isLeast _ _).2.2 _ _ same started⟩

end ClientGen.Reachable
