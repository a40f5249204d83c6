/-!
# The last of a list

Lists that are written with separators mark their last item, after which no separator stands.
-/
namespace ClientGen

def markLast {α : Type} (mark : α → α) : List α → List α
  | [] => []
  | [a] => [mark a]
  | a :: b :: rest => a :: markLast mark (b :: rest)

theorem length_markLast {α : Type} (mark : α → α) (items : List α) :
    (markLast mark items).length = items.length := by
  fun_induction markLast mark items with
  | case1 => rfl
  | case2 => rfl
  | case3 a b rest ih => simp [ih]

/-- The list with its last item marked agrees with the list in all that the mark leaves alone. -/
theorem map_markLast {α β : Type} {mark : α → α} {f : α → β} (same : ∀ a, f (mark a) = f a)
    (items : List α) : (markLast mark items).map f = items.map f := by
  fun_induction markLast mark items with
  | case1 => rfl
  | case2 a => simp [same]
  | case3 a b rest ih => simp only [List.map_cons] at ih ⊢; rw [ih]

theorem getElem?_markLast {α : Type} (mark : α → α) (items : List α) (index : Nat) :
    (markLast mark items)[index]? =
      if index + 1 = items.length then items[index]?.map mark else items[index]? := by
  fun_induction markLast mark items generalizing index with
  | case1 => simp
  | case2 a =>
    cases index with
    | zero => rfl
    | succ index => simp
  | case3 a b rest ih =>
    cases index with
    | zero => simp
    | succ index =>
      rw [List.getElem?_cons_succ, List.getElem?_cons_succ, ih]
      simp only [List.length_cons, Nat.add_right_cancel_iff]

end ClientGen
