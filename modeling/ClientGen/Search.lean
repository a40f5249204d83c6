/-!
# Searches that end

A search that keeps the names it has seen, and goes on only from new names within a finite reach,
ends: the count of names that are still unseen decreases (`unseen_cons_lt`).
-/
namespace ClientGen

/-- How many of the names within reach have not been seen yet. -/
def unseen (reach seen : List String) : Nat :=
  (reach.filter fun name => decide (name ∉ seen)).length

theorem filter_length_le_of_imp {α : Type} {p q : α → Bool} (xs : List α)
    (h : ∀ x, p x = true → q x = true) : (xs.filter p).length ≤ (xs.filter q).length := by
  induction xs with
  | nil => simp
  | cons x rest ih =>
    simp only [List.filter_cons]
    by_cases hp : p x = true
    · simp [hp, h x hp, ih]
    · by_cases hq : q x = true
      · simp only [hp, hq, if_true, List.length_cons]
        simp only [Bool.false_eq_true, if_false]
        omega
      · simp [hp, hq, ih]

/-- Seeing one more name within reach leaves fewer. -/
theorem unseen_cons_lt {reach seen : List String} {name : String} (hmem : name ∈ reach)
    (hnew : name ∉ seen) : unseen reach (name :: seen) < unseen reach seen := by
  unfold unseen
  induction reach with
  | nil => simp at hmem
  | cons r rest ih =>
    have hle := filter_length_le_of_imp (p := fun x => decide (x ∉ name :: seen))
      (q := fun x => decide (x ∉ seen)) rest (by
        intro x hx
        simp only [decide_eq_true_eq, List.mem_cons, not_or] at hx ⊢
        exact hx.2)
    simp only [List.filter_cons]
    by_cases hr : r = name
    · subst hr
      simp only [List.mem_cons, true_or, not_true_eq_false, decide_false, hnew,
        not_false_eq_true, decide_true, if_true, List.length_cons]
      simp only [Bool.false_eq_true, if_false]
      simp only [List.mem_cons] at hle
      omega
    · have hmem' : name ∈ rest := by
        cases List.mem_cons.1 hmem with
        | inl e => exact absurd e.symm hr
        | inr m => exact m
      have := ih hmem'
      by_cases hs : r ∈ seen
      · simp only [List.mem_cons, hr, hs, or_true, not_true_eq_false, decide_false]
        simpa using this
      · simp only [List.mem_cons, hr, hs, or_self, not_false_eq_true, decide_true, if_true,
          List.length_cons]
        simp only [List.mem_cons] at this
        omega

end ClientGen
