import Mathlib.Data.List.Forall2
import ClientGen.Log

/-!
# Successful runs

What the success of a compound step says about its parts: both parts of a bind succeeded, and a
list that was gone through item by item succeeded at every item, in order. A list fails with the
failure of its first item that has one.
-/
namespace ClientGen

section Outcomes

variable {ε α β : Type}

/-- A bind succeeds exactly if its first part does, and the second one on the value of the first. -/
theorem bind_eq_ok {step : Except ε α} {next : α → Except ε β} {value : β} :
    (step >>= next) = .ok value ↔ ∃ a, step = .ok a ∧ next a = .ok value := by
  cases step with
  | error e =>
    constructor
    · intro success
      cases success
    · rintro ⟨a, failed, -⟩
      cases failed
  | ok a =>
    constructor
    · intro success
      exact ⟨a, rfl, success⟩
    · rintro ⟨b, same, success⟩
      cases same
      exact success

/-- A bind succeeds if its first part does, and the second one on whatever value. -/
theorem exists_bind_eq_ok {step : Except ε α} {next : α → Except ε β}
    (first : ∃ a, step = .ok a) (second : ∀ a, ∃ b, next a = .ok b) :
    ∃ b, (step >>= next) = .ok b := by
  obtain ⟨a, first⟩ := first
  obtain ⟨b, second⟩ := second a
  exact ⟨b, bind_eq_ok.mpr ⟨a, first, second⟩⟩

theorem map_eq_ok {f : α → β} {step : Except ε α} {value : β} :
    step.map f = .ok value ↔ ∃ a, step = .ok a ∧ f a = value := by
  cases step <;> simp [Except.map]

theorem map_eq_error {f : α → β} {step : Except ε α} {e : ε} :
    step.map f = .error e ↔ step = .error e := by
  cases step <;> simp [Except.map]

theorem toOption_eq_some {step : Except ε α} {value : α} :
    step.toOption = some value ↔ step = .ok value := by
  cases step <;> simp [Except.toOption]

/-- A successful pass over a list pairs its items with their values, in order. -/
theorem forall₂_of_mapM_ok {f : α → Except ε β} {xs : List α} {ys : List β}
    (success : xs.mapM f = .ok ys) : List.Forall₂ (fun x y => f x = .ok y) xs ys := by
  induction xs generalizing ys with
  | nil =>
    simp only [List.mapM_nil, pure, Except.pure, Except.ok.injEq] at success
    subst ys
    exact .nil
  | cons x rest ih =>
    rw [List.mapM_cons] at success
    obtain ⟨y, head, success⟩ := bind_eq_ok.mp success
    obtain ⟨others, tail, success⟩ := bind_eq_ok.mp success
    cases success
    exact .cons head (ih tail)

/-- A pass over a list succeeds if it does at every item. -/
theorem exists_mapM_eq_ok {f : α → Except ε β} {xs : List α} (each : ∀ x ∈ xs, ∃ y, f x = .ok y) :
    ∃ ys, xs.mapM f = .ok ys := by
  induction xs with
  | nil => exact ⟨[], rfl⟩
  | cons x rest ih =>
    obtain ⟨first, others⟩ := List.forall_mem_cons.mp each
    rw [List.mapM_cons]
    exact exists_bind_eq_ok first fun y => exists_bind_eq_ok (ih others) fun ys => ⟨y :: ys, rfl⟩

/-- A pass over a list fails with the failure of the first item that has one. -/
theorem mapM_eq_error {f : α → Except ε β} {xs : List α} {e : ε} :
    xs.mapM f = .error e ↔ ∃ before x after, xs = before ++ x :: after ∧
      (∀ y ∈ before, ∃ value, f y = .ok value) ∧ f x = .error e := by
  induction xs with
  | nil =>
    constructor
    · intro failure
      cases failure
    · rintro ⟨before, x, after, split, -⟩
      simp at split
  | cons first rest ih =>
    rw [List.mapM_cons]
    cases outcome : f first with
    | error own =>
      constructor
      · intro failure
        cases failure
        exact ⟨[], first, rest, rfl, by simp, outcome⟩
      · rintro ⟨before, x, after, split, passed, failure⟩
        cases before with
        | nil =>
          cases split
          rw [outcome] at failure
          cases failure
          rfl
        | cons y before =>
          cases split
          obtain ⟨value, success⟩ := passed _ List.mem_cons_self
          rw [outcome] at success
          cases success
    | ok value =>
      have later : (do let y ← Except.ok value; let ys ← rest.mapM f; pure (y :: ys)) =
          .error e ↔ rest.mapM f = .error e := by
        cases rest.mapM f <;> simp [bind, Except.bind, pure, Except.pure]
      rw [later, ih]
      constructor
      · rintro ⟨before, x, after, rfl, passed, failure⟩
        refine ⟨first :: before, x, after, rfl, ?_, failure⟩
        exact List.forall_mem_cons.mpr ⟨⟨value, outcome⟩, passed⟩
      · rintro ⟨before, x, after, split, passed, failure⟩
        cases before with
        | nil =>
          cases split
          rw [outcome] at failure
          cases failure
        | cons y before =>
          cases split
          exact ⟨before, x, after, rfl, (List.forall_mem_cons.mp passed).2, failure⟩

theorem mapM_congr {f g : α → Except ε β} {xs : List α} (same : ∀ x ∈ xs, f x = g x) :
    xs.mapM f = xs.mapM g := by
  induction xs with
  | nil => rfl
  | cons x rest ih =>
    rw [List.mapM_cons, List.mapM_cons, same x List.mem_cons_self,
      ih fun y later => same y (List.mem_cons_of_mem x later)]

/-- What is related item by item to a list has a partner for each of its items. -/
theorem exists_of_forall₂ {related : α → β → Prop} {xs : List α} {ys : List β}
    (paired : List.Forall₂ related xs ys) {x : α} (member : x ∈ xs) :
    ∃ y ∈ ys, related x y := by
  induction paired with
  | nil => simp at member
  | @cons a b _ _ head _ ih =>
    rcases List.mem_cons.mp member with rfl | later
    · exact ⟨b, by simp, head⟩
    · obtain ⟨y, among, partner⟩ := ih later
      exact ⟨y, List.mem_cons_of_mem b among, partner⟩

end Outcomes

namespace Logged

variable {α β : Type}

/-- Two steps succeed exactly if the first does, and the second one on its value. -/
theorem outcome_bind_eq_ok {step : Logged α} {next : α → Logged β} {value : β} :
    (step >>= next).outcome = .ok value ↔
      ∃ a, step.outcome = .ok a ∧ (next a).outcome = .ok value := by
  rw [outcome_bind]
  exact bind_eq_ok

end Logged

/-- Only objects are taken as objects. -/
theorem Value.asFields_eq_ok {v : Value} {fields : Fields} :
    v.asFields = .ok fields ↔ v = .object fields := by
  cases v <;> simp [asFields, lacksOperation]

end ClientGen
