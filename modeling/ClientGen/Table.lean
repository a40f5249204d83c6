/-!
# Tables

A table keeps its entries in the order in which their keys were first set, and has one entry for
each key: setting a key again changes its value in place (`keys_insert`).
-/
namespace ClientGen

/-- Entries with distinct keys, in order. -/
structure Table (α : Type) where
  entries : List (String × α)
  nodup : (entries.map Prod.fst).Nodup

namespace Table

variable {α β : Type}

def empty : Table α := ⟨[], by simp⟩

instance : Inhabited (Table α) := ⟨empty⟩

/-- The keys, in order. -/
def keys (t : Table α) : List String := t.entries.map Prod.fst

/-- The values, in order. -/
def values (t : Table α) : List α := t.entries.map Prod.snd

def get? (t : Table α) (key : String) : Option α := t.entries.lookup key

/-- The number of entries. -/
def size (t : Table α) : Nat := t.entries.length

def setEntry (key : String) (value : α) : List (String × α) → List (String × α)
  | [] => [(key, value)]
  | (k, v) :: rest => if k = key then (k, value) :: rest else (k, v) :: setEntry key value rest

theorem map_fst_setEntry (key : String) (value : α) (entries : List (String × α)) :
    (setEntry key value entries).map Prod.fst =
      if key ∈ entries.map Prod.fst then entries.map Prod.fst
      else entries.map Prod.fst ++ [key] := by
  induction entries with
  | nil => simp [setEntry]
  | cons entry rest ih =>
    obtain ⟨k, v⟩ := entry
    by_cases h : k = key
    · simp [setEntry, h]
    · have h' : ¬key = k := fun e => h e.symm
      simp only [setEntry, h, if_false, List.map_cons, ih, List.mem_cons, h', false_or]
      split <;> simp_all

theorem nodup_setEntry (key : String) (value : α) (entries : List (String × α))
    (h : (entries.map Prod.fst).Nodup) : ((setEntry key value entries).map Prod.fst).Nodup := by
  rw [map_fst_setEntry]
  split
  · exact h
  · rename_i hkey
    rw [List.nodup_append]
    refine ⟨h, by simp, ?_⟩
    intro a ha b hb
    simp only [List.mem_singleton] at hb
    subst hb
    exact fun e => hkey (e ▸ ha)

/-- Sets the value under a key: in place when the key is there, at the end otherwise. -/
def insert (t : Table α) (key : String) (value : α) : Table α :=
  ⟨setEntry key value t.entries, nodup_setEntry key value t.entries t.nodup⟩

def ofList (entries : List (String × α)) : Table α :=
  entries.foldl (fun t (key, value) => t.insert key value) empty

/-- The table whose values are computed from the keys and the old values. -/
def mapEntries (t : Table α) (f : String → α → β) : Table β :=
  ⟨t.entries.map fun (key, value) => (key, f key value), by
    have h : (t.entries.map fun (key, value) => (key, f key value)).map Prod.fst =
        t.entries.map Prod.fst := by simp
    rw [h]
    exact t.nodup⟩

/-- The table whose values are computed from the old ones. -/
def map (t : Table α) (f : α → β) : Table β :=
  t.mapEntries fun _ value => f value

/-- The entries that pass a test. -/
def filter (t : Table α) (p : String → α → Bool) : Table α :=
  ⟨t.entries.filter fun (key, value) => p key value,
    t.nodup.sublist (List.filter_sublist.map Prod.fst)⟩

/-- Changes the value under a key, if there is one. -/
def modify (t : Table α) (key : String) (f : α → α) : Table α :=
  match t.get? key with
  | some value => t.insert key (f value)
  | none => t

theorem mem_map_fst_of_lookup {entries : List (String × α)} {key : String} {value : α}
    (h : entries.lookup key = some value) : key ∈ entries.map Prod.fst := by
  induction entries with
  | nil => simp at h
  | cons entry rest ih =>
    obtain ⟨k, v⟩ := entry
    simp only [List.lookup_cons] at h
    cases hk : (key == k) with
    | true => simp [eq_of_beq hk]
    | false =>
      simp only [hk] at h
      simp only [List.map_cons, List.mem_cons]
      exact Or.inr (ih h)

theorem mem_keys_of_get? {t : Table α} {key : String} {value : α}
    (h : t.get? key = some value) : key ∈ t.keys :=
  mem_map_fst_of_lookup h

/-- The keys stay in place; a new one comes last. -/
theorem keys_insert (t : Table α) (key : String) (value : α) :
    (t.insert key value).keys = if key ∈ t.keys then t.keys else t.keys ++ [key] :=
  map_fst_setEntry key value t.entries

end Table

end ClientGen
