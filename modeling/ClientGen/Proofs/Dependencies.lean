import Mathlib.Data.List.Nodup
import ClientGen.Dependency
import ClientGen.Proofs.Tables

/-!
# Collected dependencies

`Collected` says what the dependencies collected from a list of names are: classes of models of
the table, no two with the same key, never the owner, and all models that the names lead to.
Every added name keeps this, so it holds of the dependencies of each model and of each service.
-/
namespace ClientGen

/-- Every model is filed under the key of its class name. -/
def Keyed (models : Table Model) : Prop :=
  ∀ key m, models.get? key = some m → Naming.key m.className = key

namespace Dependencies

structure Collected (models : Table Model) (owner : Option String) (names : List String)
    (d : Dependencies) : Prop where
  seen : ∀ key, key ∈ d.seen ↔ key ∈ d.classes.map Naming.key
  model : ∀ name ∈ d.classes, ∃ m, models.get? (Naming.key name) = some m ∧ m.className = name
  foreign : ∀ name ∈ d.classes, owner ≠ some (Naming.key name)
  distinct : (d.classes.map Naming.key).Nodup
  complete : ∀ name ∈ names, ∀ m, models.get? (keyOf name) = some m →
    owner ≠ some (keyOf name) → m.className ∈ d.classes

variable {models : Table Model} {owner : Option String} {names : List String} {d : Dependencies}

theorem collected_empty (models : Table Model) (owner : Option String) :
    Collected models owner [] {} :=
  ⟨by simp, by simp, by simp, by simp, by simp⟩

/-- A name that leads to nothing new changes nothing. -/
theorem Collected.skip (before : Collected models owner names d) {name : String}
    (known : ∀ m, models.get? (keyOf name) = some m → owner ≠ some (keyOf name) →
      m.className ∈ d.classes) : Collected models owner (names ++ [name]) d := by
  refine ⟨before.seen, before.model, before.foreign, before.distinct, ?_⟩
  intro other member m found notOwner
  rcases List.mem_append.mp member with earlier | last
  · exact before.complete other earlier m found notOwner
  · rw [List.mem_singleton] at last
    subst other
    exact known m found notOwner

/-- A class whose key has been seen stands for all models under that key. -/
theorem Collected.className_mem (before : Collected models owner names d) {key : String}
    (seen : key ∈ d.seen) {m : Model} (found : models.get? key = some m) :
    m.className ∈ d.classes := by
  obtain ⟨name, member, equal⟩ := List.mem_map.mp ((before.seen key).mp seen)
  obtain ⟨n, present, same⟩ := before.model name member
  rw [equal, found] at present
  cases present
  exact same ▸ member

/-- Adding a name keeps what the dependencies are. -/
theorem collected_addName (keyed : Keyed models) (before : Collected models owner names d)
    (name : String) : Collected models owner (names ++ [name]) (d.addName models owner name) := by
  unfold addName addKey
  by_cases known : owner = some (keyOf name) ∨ keyOf name ∈ d.seen
  · rw [if_pos known]
    apply before.skip
    intro m found notOwner
    exact before.className_mem (known.resolve_left notOwner) found
  rw [if_neg known]
  rw [not_or] at known
  cases found : models.get? (keyOf name) with
  | none =>
    apply before.skip
    intro m present
    rw [found] at present
    cases present
  | some model =>
    -- a model is filed under its own key, so the second test never stops what the first let pass
    have filed : Naming.key model.className = keyOf name := keyed _ _ found
    simp only [addClass, filed, known.1, known.2, or_self, if_false]
    have fresh : keyOf name ∉ d.classes.map Naming.key :=
      fun member => known.2 ((before.seen _).mpr member)
    refine ⟨?_, ?_, ?_, ?_, ?_⟩
    · intro key
      simp only [List.mem_append, List.map_append, List.map_cons, List.map_nil, filed,
        before.seen key]
      simp
    · intro other member
      rcases List.mem_append.mp member with earlier | last
      · exact before.model other earlier
      · rw [List.mem_singleton] at last
        subst other
        exact ⟨model, filed ▸ found, rfl⟩
    · intro other member
      rcases List.mem_append.mp member with earlier | last
      · exact before.foreign other earlier
      · rw [List.mem_singleton] at last
        subst other
        exact filed ▸ known.1
    · rw [List.map_append, List.nodup_append]
      refine ⟨before.distinct, by simp, ?_⟩
      intro a earlier b last equal
      simp only [List.map_cons, List.map_nil, List.mem_singleton, filed] at last
      rw [equal, last] at earlier
      exact fresh earlier
    · intro other member m present notOwner
      rcases List.mem_append.mp member with earlier | last
      · exact List.mem_append_left _ (before.complete other earlier m present notOwner)
      · rw [List.mem_singleton] at last
        subst other
        rw [found] at present
        cases present
        simp

/-- Adding names one after another keeps what the dependencies are. -/
theorem collected_addNames (keyed : Keyed models) (before : Collected models owner names d)
    (more : List String) :
    Collected models owner (names ++ more) (d.addNames models owner more) := by
  induction more generalizing names d with
  | nil => simpa [addNames] using before
  | cons name rest ih =>
    have next := ih (collected_addName keyed before name)
    rwa [List.append_assoc] at next

/-- What is collected from some candidates alone. -/
theorem collected_of_candidates (keyed : Keyed models) (owner : Option String)
    (candidates : List Candidate) :
    Collected models (ownerKey owner) (candidates.flatMap Candidate.names)
      (collect models owner candidates) := by
  rw [collect_eq_addNames]
  exact collected_addNames keyed (collected_empty models _) _

end Dependencies

end ClientGen
