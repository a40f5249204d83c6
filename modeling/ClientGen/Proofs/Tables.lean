import Mathlib.Data.List.Nodup
import ClientGen.Proofs.Runs
import ClientGen.Table

/-!
# Laws of tables

A table is looked at through its entries: looking up a key finds exactly its entry
(`get?_eq_some`). Setting a key, changing values and dropping entries are described by what they
do to lookups and to the order of the entries, and operations that depend on keys alone commute
with dropping entries by key.
-/
namespace ClientGen.Table

variable {α β : Type}

theorem ext_entries {t u : Table α} (same : t.entries = u.entries) : t = u := by
  cases t
  cases u
  cases same
  rfl

section Lookup

variable {κ : Type} [BEq κ] [LawfulBEq κ]

/-- With distinct keys the first entry under a key is the only one. -/
theorem lookup_eq_some {entries : List (κ × α)} (distinct : (entries.map Prod.fst).Nodup)
    (key : κ) (value : α) : entries.lookup key = some value ↔ (key, value) ∈ entries := by
  induction entries with
  | nil => simp
  | cons entry rest ih =>
    obtain ⟨k, v⟩ := entry
    rw [List.map_cons, List.nodup_cons] at distinct
    simp only [List.lookup_cons, List.mem_cons, Prod.mk.injEq]
    by_cases equal : key = k
    · subst k
      have absent : (key, value) ∉ rest := fun member =>
        distinct.1 (List.mem_map.mpr ⟨(key, value), member, rfl⟩)
      simp only [beq_self_eq_true, true_and, absent, or_false, Option.some.injEq]
      exact eq_comm
    · simp only [beq_eq_false_iff_ne.mpr equal, equal, false_and, false_or]
      exact ih distinct.2

theorem lookup_map_value (f : κ → α → β) (k : κ) (entries : List (κ × α)) :
    (entries.map fun (key, value) => (key, f key value)).lookup k =
      (entries.lookup k).map (f k) := by
  induction entries with
  | nil => rfl
  | cons entry rest ih =>
    obtain ⟨l, v⟩ := entry
    simp only [List.map_cons, List.lookup_cons, ih]
    by_cases equal : k = l
    · subst l
      simp
    · simp [beq_eq_false_iff_ne.mpr equal]

/-- With distinct keys a test of the entries is a test of what a lookup finds. -/
theorem lookup_filter {entries : List (κ × α)} (distinct : (entries.map Prod.fst).Nodup)
    (p : κ × α → Bool) (k : κ) :
    (entries.filter p).lookup k = (entries.lookup k).filter fun value => p (k, value) := by
  apply Option.ext
  intro value
  have stillDistinct : ((entries.filter p).map Prod.fst).Nodup :=
    distinct.sublist (List.filter_sublist.map Prod.fst)
  rw [lookup_eq_some stillDistinct, List.mem_filter, Option.filter_eq_some_iff,
    lookup_eq_some distinct]

/-- A test of the key alone decides over all entries under a key. -/
theorem lookup_filter_key (p : κ → Bool) (k : κ) (entries : List (κ × α)) :
    (entries.filter fun entry => p entry.1).lookup k =
      if p k then entries.lookup k else none := by
  induction entries with
  | nil => simp
  | cons entry rest ih =>
    obtain ⟨l, v⟩ := entry
    by_cases equal : k = l
    · subst l
      cases passes : p k with
      | false => simpa [passes] using ih
      | true => simp [passes]
    · have unlike : (k == l) = false := beq_eq_false_iff_ne.mpr equal
      cases passes : p l with
      | false => simpa [passes, List.lookup_cons, unlike] using ih
      | true => simpa [passes, List.lookup_cons, unlike] using ih

end Lookup

/-- A lookup finds exactly the entry under its key. -/
theorem get?_eq_some {t : Table α} {key : String} {value : α} :
    t.get? key = some value ↔ (key, value) ∈ t.entries :=
  lookup_eq_some t.nodup key value

theorem mem_values {t : Table α} {value : α} :
    value ∈ t.values ↔ ∃ key, t.get? key = some value := by
  simp [values, get?_eq_some]

/-- What the values say as their keys do comes in the order of the keys. -/
theorem map_values {t : Table α} {f : α → β} {g : String → β}
    (same : ∀ key value, t.get? key = some value → f value = g key) :
    t.values.map f = t.keys.map g := by
  rw [values, keys, List.map_map, List.map_map]
  exact List.map_congr_left fun entry member => same entry.1 entry.2 (get?_eq_some.mpr member)

theorem lookup_setEntry (key k : String) (value : α) (entries : List (String × α)) :
    (setEntry key value entries).lookup k = if k = key then some value else entries.lookup k := by
  induction entries with
  | nil =>
    by_cases equal : k = key
    · simp [setEntry, equal]
    · simp [setEntry, equal, List.lookup_cons, beq_eq_false_iff_ne.mpr equal]
  | cons entry rest ih =>
    obtain ⟨l, v⟩ := entry
    by_cases found : l = key
    · subst l
      by_cases equal : k = key
      · simp [setEntry, equal]
      · simp [setEntry, equal, List.lookup_cons, beq_eq_false_iff_ne.mpr equal]
    · simp only [setEntry, found, if_false, List.lookup_cons, ih]
      by_cases equal : k = key
      · subst k
        simp [beq_eq_false_iff_ne.mpr (Ne.symm found)]
      · simp [equal]

/-- Setting a key changes the lookup of that key and of no other. -/
theorem get?_insert (t : Table α) (key k : String) (value : α) :
    (t.insert key value).get? k = if k = key then some value else t.get? k :=
  lookup_setEntry key k value t.entries

@[simp] theorem get?_mapEntries (t : Table α) (f : String → α → β) (k : String) :
    (t.mapEntries f).get? k = (t.get? k).map (f k) :=
  lookup_map_value f k t.entries

@[simp] theorem get?_map (t : Table α) (f : α → β) (k : String) :
    (t.map f).get? k = (t.get? k).map f :=
  get?_mapEntries t (fun _ value => f value) k

theorem mem_entries_map {t : Table α} {f : α → β} {key : String} {image : β} :
    (key, image) ∈ (t.map f).entries ↔ ∃ value, t.get? key = some value ∧ f value = image := by
  rw [← get?_eq_some, get?_map, Option.map_eq_some_iff]

@[simp] theorem keys_mapEntries (t : Table α) (f : String → α → β) :
    (t.mapEntries f).keys = t.keys := by
  simp [keys, mapEntries]

@[simp] theorem keys_map (t : Table α) (f : α → β) : (t.map f).keys = t.keys :=
  keys_mapEntries t fun _ value => f value

/-- Changes that agree on the entries of a table give the same table. -/
theorem mapEntries_congr {t : Table α} {f g : String → α → β}
    (same : ∀ key value, t.get? key = some value → f key value = g key value) :
    t.mapEntries f = t.mapEntries g := by
  refine ext_entries (List.map_congr_left ?_)
  rintro ⟨key, value⟩ member
  exact congrArg (key, ·) (same key value (get?_eq_some.mpr member))

theorem mapEntries_eq_self {t : Table α} {f : String → α → α}
    (same : ∀ key value, t.get? key = some value → f key value = value) : t.mapEntries f = t :=
  (mapEntries_congr same).trans (ext_entries (List.map_id _))

theorem mapEntries_mapEntries {γ : Type} (t : Table α) (f : String → α → β)
    (g : String → β → γ) :
    (t.mapEntries f).mapEntries g = t.mapEntries fun key value => g key (f key value) :=
  ext_entries (by simp [mapEntries])

/-- Changing a value keeps all keys in place. -/
@[simp] theorem keys_modify (t : Table α) (key : String) (f : α → α) :
    (t.modify key f).keys = t.keys := by
  unfold modify
  split
  · rename_i present
    rw [keys_insert, if_pos (mem_keys_of_get? present)]
  · rfl

theorem setEntry_eq_map {key : String} {value : α} {entries : List (String × α)} (f : α → α)
    (distinct : (entries.map Prod.fst).Nodup) (member : (key, value) ∈ entries) :
    setEntry key (f value) entries =
      entries.map fun (k, v) => (k, if k = key then f v else v) := by
  induction entries with
  | nil => cases member
  | cons entry rest ih =>
    obtain ⟨k, v⟩ := entry
    rw [List.map_cons, List.nodup_cons] at distinct
    rw [setEntry, List.map_cons]
    by_cases here : k = key
    · subst k
      have own : value = v := by
        rcases List.mem_cons.mp member with same | later
        · cases same
          rfl
        · exact absurd (List.mem_map_of_mem later) distinct.1
      have others : (rest.map fun (k, v) => (k, if k = key then f v else v)) = rest := by
        refine (List.map_congr_left fun entry among => ?_).trans (List.map_id rest)
        have apart : entry.1 ≠ key := by
          rintro rfl
          exact distinct.1 (List.mem_map.mpr ⟨entry, among, rfl⟩)
        exact congrArg (entry.1, ·) (if_neg apart)
      rw [if_pos rfl, others, own]
      simp only [if_true]
    · have later : (key, value) ∈ rest := by
        refine (List.mem_cons.mp member).resolve_left fun same => here ?_
        exact (congrArg Prod.fst same).symm
      rw [if_neg here, ih distinct.2 later]
      simp only [here, if_false]

/-- Changing the value under a key leaves all others as they are. -/
theorem modify_eq_mapEntries (t : Table α) (key : String) (f : α → α) :
    t.modify key f = t.mapEntries fun k value => if k = key then f value else value := by
  unfold modify
  cases present : t.get? key with
  | none =>
    refine (mapEntries_eq_self fun k value found => if_neg ?_).symm
    rintro rfl
    rw [present] at found
    cases found
  | some value =>
    exact ext_entries (setEntry_eq_map f t.nodup (get?_eq_some.mp present))

/-- Dropping entries keeps the entries that pass the test, and the value under each key. -/
theorem get?_filter_eq_some {t : Table α} {p : String → α → Bool} {key : String} {value : α} :
    (t.filter p).get? key = some value ↔ t.get? key = some value ∧ p key value = true := by
  simp only [get?_eq_some, filter, List.mem_filter]

/-- Two tests one after another are a test for both. -/
theorem filter_filter (t : Table α) (p q : String → α → Bool) :
    (t.filter p).filter q = t.filter fun key value => q key value && p key value :=
  ext_entries List.filter_filter

theorem filter_congr {t : Table α} {p q : String → α → Bool}
    (same : ∀ key value, p key value = q key value) : t.filter p = t.filter q := by
  have tests : p = q := funext fun key => funext (same key)
  rw [tests]

/-- A test of the key alone decides over a key as a whole. -/
theorem get?_filter_key (t : Table α) (p : String → Bool) (k : String) :
    (t.filter fun key _ => p key).get? k = if p k then t.get? k else none :=
  lookup_filter_key p k t.entries

/-- Setting a key that the test drops leaves what is kept as it is. -/
theorem filter_insert_of_dropped (t : Table α) {p : String → Bool} {key : String} (value : α)
    (dropped : p key = false) :
    ((t.insert key value).filter fun k _ => p k) = t.filter fun k _ => p k := by
  apply ext_entries
  show (setEntry key value t.entries).filter (fun e => p e.1) = t.entries.filter fun e => p e.1
  induction t.entries with
  | nil => simp [setEntry, dropped]
  | cons entry rest ih =>
    obtain ⟨k, v⟩ := entry
    by_cases equal : k = key
    · subst k
      simp [setEntry, dropped]
    · simp only [setEntry, equal, if_false, List.filter_cons, ih]

/-- Setting a key that the test keeps can be done after the test as well. -/
theorem filter_insert_of_kept (t : Table α) {p : String → Bool} {key : String} (value : α)
    (kept : p key = true) :
    ((t.insert key value).filter fun k _ => p k) = (t.filter fun k _ => p k).insert key value := by
  apply ext_entries
  show (setEntry key value t.entries).filter (fun e => p e.1) =
    setEntry key value (t.entries.filter fun e => p e.1)
  induction t.entries with
  | nil => simp [setEntry, kept]
  | cons entry rest ih =>
    obtain ⟨k, v⟩ := entry
    by_cases equal : k = key
    · subst k
      simp [setEntry, kept]
    · by_cases passes : p k = true
      · simp [setEntry, equal, passes, ih]
      · simp [setEntry, equal, passes, ih]

/-- Changing a value commutes with a test of the keys. -/
theorem filter_modify (t : Table α) (p : String → Bool) (key : String) (f : α → α) :
    ((t.modify key f).filter fun k _ => p k) = (t.filter fun k _ => p k).modify key f := by
  unfold modify
  rw [get?_filter_key]
  cases present : t.get? key with
  | none => simp
  | some value =>
    by_cases kept : p key = true
    · simp only [kept, if_true]
      exact filter_insert_of_kept t (f value) kept
    · rw [if_neg kept]
      exact filter_insert_of_dropped t (f value) (by simpa using kept)

/-- Changing all values commutes with a test of the keys. -/
theorem filter_map (t : Table α) (p : String → Bool) (f : α → β) :
    ((t.map f).filter fun k _ => p k) = (t.filter fun k _ => p k).map f := by
  apply ext_entries
  simp only [filter, map, mapEntries, List.filter_map]
  rfl

/-- Setting a new key puts its entry last. -/
theorem setEntry_of_absent {key : String} (value : α) {entries : List (String × α)}
    (absent : key ∉ entries.map Prod.fst) :
    setEntry key value entries = entries ++ [(key, value)] := by
  induction entries with
  | nil => rfl
  | cons entry rest ih =>
    obtain ⟨k, v⟩ := entry
    simp only [List.map_cons, List.mem_cons, not_or] at absent
    simp [setEntry, Ne.symm absent.1, ih absent.2]

/-- Entries with distinct keys make up the table that lists them as they are. -/
theorem entries_ofList {entries : List (String × α)} (distinct : (entries.map Prod.fst).Nodup) :
    (ofList entries).entries = entries := by
  have extends_table : ∀ (rest : List (String × α)) (t : Table α),
      ((t.entries ++ rest).map Prod.fst).Nodup →
      (rest.foldl (fun t entry => t.insert entry.1 entry.2) t).entries = t.entries ++ rest := by
    intro rest
    induction rest with
    | nil => simp
    | cons entry rest ih =>
      intro t apart
      obtain ⟨k, v⟩ := entry
      have absent : k ∉ t.entries.map Prod.fst := by
        rw [List.map_append, List.map_cons] at apart
        exact fun member => (List.disjoint_of_nodup_append apart) member (by simp)
      have step : (t.insert k v).entries = t.entries ++ [(k, v)] := setEntry_of_absent v absent
      rw [List.foldl_cons, ih (t.insert k v) (by rw [step]; simpa using apart), step]
      simp
  exact extends_table entries empty (by simpa [empty] using distinct)

theorem mem_keys_insert {t : Table α} {key k : String} {value : α} :
    k ∈ (t.insert key value).keys ↔ k ∈ t.keys ∨ k = key := by
  rw [keys_insert]
  split
  · rename_i present
    exact ⟨.inl, fun member => member.elim id fun same => same ▸ present⟩
  · rw [List.mem_append, List.mem_singleton]

/-- A table has the keys that were set in it. -/
theorem mem_keys_ofList {entries : List (String × α)} {k : String} :
    k ∈ (ofList entries).keys ↔ k ∈ entries.map Prod.fst := by
  have filled : ∀ t : Table α,
      k ∈ (entries.foldl (fun t entry => t.insert entry.1 entry.2) t).keys ↔
        k ∈ t.keys ∨ k ∈ entries.map Prod.fst := by
    induction entries with
    | nil => simp
    | cons entry rest ih =>
      intro t
      rw [List.foldl_cons, ih, mem_keys_insert, List.map_cons, List.mem_cons, or_assoc]
  exact (filled empty).trans (by simp [empty, keys])

/-- The tables have the same keys in the same order, and related values under them. -/
def Paired (related : α → β → Prop) (t : Table α) (u : Table β) : Prop :=
  List.Forall₂ (fun entry other => other.1 = entry.1 ∧ related entry.2 other.2) t.entries u.entries

variable {related : α → β → Prop} {t : Table α} {u : Table β}

theorem Paired.flip (paired : Paired related t u) : Paired (fun b a => related a b) u t :=
  List.Forall₂.imp (fun _ _ step => ⟨step.1.symm, step.2⟩) (List.Forall₂.flip paired)

/-- What is found in one of two paired tables has a partner in the other one. -/
theorem Paired.get? (paired : Paired related t u) {key : String} {value : α}
    (present : t.get? key = some value) :
    ∃ other, u.get? key = some other ∧ related value other := by
  obtain ⟨⟨k, other⟩, among, same, partner⟩ :=
    exists_of_forall₂ paired (get?_eq_some.mp present)
  dsimp only at same partner
  subst k
  exact ⟨other, get?_eq_some.mpr among, partner⟩

theorem keys_of_forall₂ {entries : List (String × α)} {others : List (String × β)}
    (paired : List.Forall₂ (fun entry other => other.1 = entry.1) entries others) :
    others.map Prod.fst = entries.map Prod.fst := by
  induction paired with
  | nil => rfl
  | cons head _ ih => rw [List.map_cons, List.map_cons, head, ih]

/-- A pass over the values that succeeds leaves them under their keys. -/
theorem paired_of_mapM_ok {ε : Type} {f : α → Except ε β} {entries : List (String × β)}
    (success : (t.entries.mapM fun (key, value) => do return (key, ← f value)) = .ok entries) :
    Paired (fun a b => f a = .ok b) t (ofList entries) := by
  have paired : List.Forall₂ (fun entry other => other.1 = entry.1 ∧ f entry.2 = .ok other.2)
      t.entries entries := by
    refine (forall₂_of_mapM_ok success).imp ?_
    rintro ⟨key, value⟩ other step
    obtain ⟨b, read, same⟩ := bind_eq_ok.mp step
    cases same
    exact ⟨rfl, read⟩
  have sameKeys := keys_of_forall₂ (paired.imp fun _ _ step => step.1)
  have distinct : (entries.map Prod.fst).Nodup := sameKeys ▸ t.nodup
  rw [Paired, entries_ofList distinct]
  exact paired

end ClientGen.Table
