import ClientGen.Value.Basic

/-!
# The weight of a value

The weight counts the scalars, lists and objects of a value. What is inside a value weighs less
than the value, and an object weighs less once an entry is taken out or replaced by a part of
itself; recursion over schemas ends for this reason.
-/
namespace ClientGen

namespace Value

mutual

/-- The number of scalars, lists and objects in a value. -/
def weight : Value → Nat
  | .scalar _ => 1
  | .list items => 1 + weightItems items
  | .object fields => 1 + weightFields fields

def weightItems : List Value → Nat
  | [] => 0
  | v :: rest => weight v + weightItems rest

def weightFields : List (Scalar × Value) → Nat
  | [] => 0
  | (_, v) :: rest => 1 + weight v + weightFields rest

end

theorem weight_pos (v : Value) : 0 < v.weight := by
  cases v <;> simp only [weight] <;> omega

end Value

namespace Fields

open Value

theorem weight_get?_lt {fields : Fields} {key : String} {v : Value}
    (h : fields.get? key = some v) : v.weight < weightFields fields := by
  induction fields with
  | nil => simp [get?] at h
  | cons entry rest ih =>
    obtain ⟨k, w⟩ := entry
    simp only [get?, List.lookup_cons] at h
    simp only [weightFields]
    cases hk : (Scalar.text key == k) with
    | true =>
      simp only [hk] at h
      cases h
      omega
    | false =>
      simp only [hk] at h
      have := ih h
      omega

/-- A value that is set is there. -/
theorem get?_of_get_ne_null {fields : Fields} {key : String} (h : fields.get key ≠ .null) :
    fields.get? key = some (fields.get key) := by
  unfold get at h ⊢
  cases hk : fields.get? key with
  | none => simp [hk] at h
  | some v => rfl

theorem weight_get_lt {fields : Fields} {key : String} (h : fields.get key ≠ .null) :
    (fields.get key).weight < weightFields fields :=
  weight_get?_lt (get?_of_get_ne_null h)

theorem weight_without_le (fields : Fields) (key : String) :
    weightFields (fields.without key) ≤ weightFields fields := by
  induction fields with
  | nil => simp [without]
  | cons entry rest ih =>
    obtain ⟨k, v⟩ := entry
    unfold without at ih ⊢
    simp only [List.filter_cons]
    split <;> simp only [weightFields] <;> omega

theorem weight_without_lt {fields : Fields} {key : String} {v : Value}
    (h : fields.get? key = some v) : weightFields (fields.without key) < weightFields fields := by
  induction fields with
  | nil => simp [get?] at h
  | cons entry rest ih =>
    obtain ⟨k, w⟩ := entry
    simp only [get?, List.lookup_cons] at h
    have hle := weight_without_le rest key
    unfold without at ih hle ⊢
    simp only [List.filter_cons]
    cases hk : (Scalar.text key == k) with
    | true =>
      have hk' : k = .text key := (eq_of_beq hk).symm
      simp only [hk', bne_self_eq_false, weightFields]
      simp only [Bool.false_eq_true, if_false]
      omega
    | false =>
      simp only [hk] at h
      have := ih h
      split <;> simp only [weightFields] <;> omega

def replace (key : String) (value : Value) : Fields → Fields
  | [] => []
  | (k, old) :: rest =>
    if k = .text key then (k, value) :: rest else (k, old) :: replace key value rest

theorem weight_replace_lt {fields : Fields} {key : String} {old value : Value}
    (h : fields.get? key = some old) (hlt : value.weight < old.weight) :
    weightFields (fields.replace key value) < weightFields fields := by
  induction fields with
  | nil => simp [get?] at h
  | cons entry rest ih =>
    obtain ⟨k, w⟩ := entry
    simp only [get?, List.lookup_cons] at h
    cases hk : (Scalar.text key == k) with
    | true =>
      have hk' : k = .text key := (eq_of_beq hk).symm
      simp only [hk] at h
      cases h
      simp [replace, hk', weightFields]
      omega
    | false =>
      have hk' : ¬k = .text key := fun e => by simp [e] at hk
      simp only [hk] at h
      have := ih h
      simp only [replace, hk', if_false, weightFields]
      omega

end Fields

theorem Value.weight_mem_lt {items : List Value} {v : Value} (h : v ∈ items) :
    v.weight < (Value.list items).weight := by
  induction items with
  | nil => simp at h
  | cons w rest ih =>
    simp only [Value.weight, Value.weightItems] at ih ⊢
    cases List.mem_cons.1 h with
    | inl e => subst e; omega
    | inr m => have := ih m; omega

end ClientGen
