import Mathlib.Data.List.Nodup
import ClientGen.Json.Reader
import ClientGen.Proofs.Runs

/-!
# Objects with distinct keys

Setting an entry never makes a second one with the same key. As the objects of a JSON text are
read by setting one entry after another, none of them has two entries with the same key
(`Json.distinct_of_parse`).
-/
namespace ClientGen

namespace Value

mutual

/-- In no object of the value two entries have the same key. -/
def Distinct : Value → Prop
  | .scalar _ => True
  | .list items => DistinctItems items
  | .object fields => (fields.map Prod.fst).Nodup ∧ DistinctFields fields

def DistinctItems : List Value → Prop
  | [] => True
  | v :: rest => Distinct v ∧ DistinctItems rest

def DistinctFields : List (Scalar × Value) → Prop
  | [] => True
  | (_, v) :: rest => Distinct v ∧ DistinctFields rest

end

theorem distinctFields_iff {fields : Fields} :
    DistinctFields fields ↔ ∀ key v, (key, v) ∈ fields → v.Distinct := by
  induction fields with
  | nil => simp [DistinctFields]
  | cons entry rest ih =>
    obtain ⟨k, w⟩ := entry
    rw [DistinctFields, ih]
    constructor
    · rintro ⟨first, others⟩ key v member
      rcases List.mem_cons.mp member with here | later
      · cases here
        exact first
      · exact others key v later
    · intro each
      exact ⟨each k w List.mem_cons_self, fun key v later =>
        each key v (List.mem_cons_of_mem _ later)⟩

theorem Distinct.keys {fields : Fields} (distinct : Distinct (.object fields)) :
    (fields.map Prod.fst).Nodup := by
  rw [Distinct] at distinct
  exact distinct.1

theorem Distinct.of_mem {fields : Fields} (distinct : Distinct (.object fields)) {key : Scalar}
    {v : Value} (member : (key, v) ∈ fields) : v.Distinct := by
  rw [Distinct, distinctFields_iff] at distinct
  exact distinct.2 key v member

end Value

namespace Fields

theorem sameKey_self (key : Scalar) : sameKey key key = true := by
  unfold sameKey
  split
  · rename_i first second
    rw [first, Option.some.injEq] at second
    simp [second]
  · simp

/-- Setting an entry adds nothing but that entry. -/
theorem mem_insert {fields : Fields} {key k : Scalar} {v w : Value}
    (member : (k, w) ∈ fields.insert key v) :
    (k ∈ fields.map Prod.fst ∨ k = key) ∧ ((k, w) ∈ fields ∨ w = v) := by
  induction fields with
  | nil =>
    cases List.mem_singleton.mp member
    exact ⟨Or.inr rfl, Or.inr rfl⟩
  | cons entry rest ih =>
    obtain ⟨l, u⟩ := entry
    unfold insert at member
    split at member
    · rcases List.mem_cons.mp member with here | later
      · cases here
        exact ⟨Or.inl List.mem_cons_self, Or.inr rfl⟩
      · exact ⟨Or.inl (List.mem_cons_of_mem l (List.mem_map_of_mem later)),
          Or.inl (List.mem_cons_of_mem _ later)⟩
    · rcases List.mem_cons.mp member with here | later
      · cases here
        exact ⟨Or.inl List.mem_cons_self, Or.inl List.mem_cons_self⟩
      · obtain ⟨known, held⟩ := ih later
        exact ⟨known.imp_left (List.mem_cons_of_mem l), held.imp_left (List.mem_cons_of_mem _)⟩

theorem nodup_insert {fields : Fields} (distinct : (fields.map Prod.fst).Nodup) (key : Scalar)
    (v : Value) : ((fields.insert key v).map Prod.fst).Nodup := by
  induction fields with
  | nil => simp [insert]
  | cons entry rest ih =>
    obtain ⟨l, w⟩ := entry
    rw [List.map_cons, List.nodup_cons] at distinct
    unfold insert
    split
    · exact List.nodup_cons.mpr distinct
    · rename_i different
      refine List.nodup_cons.mpr ⟨?_, ih distinct.2⟩
      intro member
      obtain ⟨⟨k, u⟩, among, rfl⟩ := List.mem_map.mp member
      rcases (mem_insert among).1 with old | rfl
      · exact distinct.1 old
      · exact different (sameKey_self k)

/-- Entries that are set one after another make up an object with distinct keys. -/
theorem distinct_ofEntries {entries : List (Scalar × Value)}
    (parts : ∀ key v, (key, v) ∈ entries → v.Distinct) :
    Value.Distinct (.object (ofEntries entries)) := by
  have kept : ∀ fields : Fields, Value.Distinct (.object fields) →
      Value.Distinct
        (.object (entries.foldl (fun fields e => Fields.insert fields e.1 e.2) fields)) := by
    induction entries with
    | nil => exact fun _ distinct => distinct
    | cons entry rest ih =>
      obtain ⟨k, v⟩ := entry
      intro fields distinct
      refine ih (fun key w later => parts key w (List.mem_cons_of_mem _ later)) _ ?_
      rw [Value.Distinct, Value.distinctFields_iff]
      refine ⟨nodup_insert distinct.keys k v, ?_⟩
      intro key w member
      rcases (mem_insert member).2 with old | rfl
      · exact distinct.of_mem old
      · exact parts k w List.mem_cons_self
  exact kept [] (by simp [Value.Distinct, Value.DistinctFields])

theorem insert_of_absent {fields : Fields} {name : String}
    (absent : .text name ∉ fields.map Prod.fst) (keys : ∀ e ∈ fields, ∃ name, e.1 = .text name)
    (v : Value) :
    fields.insert (.text name) v = fields ++ [(.text name, v)] := by
  induction fields with
  | nil => rfl
  | cons e fields ih =>
    obtain ⟨⟨other, text⟩, others⟩ := List.forall_mem_cons.mp keys
    obtain ⟨different, later⟩ := not_or.mp (List.mem_cons.not.mp absent)
    obtain ⟨key, w⟩ := e
    dsimp only at text different
    subst text
    have apart : ¬sameKey (.text other) (.text name) = true := by
      simpa [sameKey, sameKey.numeric?] using Ne.symm different
    rw [insert, if_neg apart, ih later others, List.cons_append]

/-- Entries whose keys are texts and distinct make up the object that lists them. -/
theorem ofEntries_of_distinct {entries : Fields} (keys : ∀ e ∈ entries, ∃ name, e.1 = .text name)
    (distinct : (entries.map Prod.fst).Nodup) : ofEntries entries = entries := by
  have added : ∀ done : Fields, (∀ e ∈ done, ∃ name, e.1 = .text name) →
      ((done ++ entries).map Prod.fst).Nodup →
      entries.foldl (fun fields e => Fields.insert fields e.1 e.2) done = done ++ entries := by
    clear distinct
    induction entries with
    | nil => exact fun done _ _ => (List.append_nil done).symm
    | cons e entries ih =>
      intro done texts distinct
      obtain ⟨⟨name, text⟩, others⟩ := List.forall_mem_cons.mp keys
      have absent : .text name ∉ done.map Prod.fst := by
        intro member
        rw [List.map_append, List.map_cons, text] at distinct
        exact (List.nodup_append.mp distinct).2.2 _ member _ List.mem_cons_self rfl
      have appended : done.insert e.1 e.2 = done ++ [e] := by
        rw [text, insert_of_absent absent texts, ← text]
      rw [List.foldl_cons, appended, ih others _ ?_ (by simpa using distinct)]
      · simp
      · intro f member
        rcases List.mem_append.mp member with old | new
        · exact texts f old
        · exact ⟨name, by rw [List.mem_singleton.mp new, text]⟩
  exact added [] (by simp) distinct

end Fields

namespace Json

variable {limit : Option Nat}

mutual

theorem distinct_of_readValue : ∀ {fuel : Nat} {s rest : List Char} {v : Value},
    readValue limit fuel s = .ok (v, rest) → v.Distinct
  | 0, s, rest, v, success => by
    unfold readValue at success
    cases success
  | fuel + 1, s, rest, v, success => by
    unfold readValue at success
    split at success
    · cases success
    · cases success
    · rename_i enough _
      cases enough
      split at success
      · obtain ⟨⟨text, after⟩, -, success⟩ := bind_eq_ok.mp success
        cases success
        trivial
      · split at success
        · split at success
          · cases success
            trivial
          · obtain ⟨⟨items, after⟩, read, success⟩ := bind_eq_ok.mp success
            cases success
            rw [Value.Distinct]
            exact distinct_of_readItems read
        · split at success
          · split at success
            · cases success
              rw [Value.Distinct]
              exact ⟨List.nodup_nil, trivial⟩
            · obtain ⟨⟨entries, after⟩, read, success⟩ := bind_eq_ok.mp success
              cases success
              exact Fields.distinct_ofEntries (distinct_of_readFields read)
          · obtain ⟨⟨word, after⟩, -, success⟩ := bind_eq_ok.mp success
            cases success
            trivial

theorem distinct_of_readItems : ∀ {fuel : Nat} {s rest : List Char} {items : List Value},
    readItems limit fuel s = .ok (items, rest) → Value.DistinctItems items
  | 0, s, rest, items, success => by
    unfold readItems at success
    cases success
  | fuel + 1, s, rest, items, success => by
    unfold readItems at success
    obtain ⟨⟨v, after⟩, first, success⟩ := bind_eq_ok.mp success
    dsimp only at success
    split at success
    · obtain ⟨⟨others, end_⟩, later, success⟩ := bind_eq_ok.mp success
      cases success
      exact ⟨distinct_of_readValue first, distinct_of_readItems later⟩
    · cases success
      exact ⟨distinct_of_readValue first, trivial⟩
    · cases success

theorem distinct_of_readFields : ∀ {fuel : Nat} {s rest : List Char} {entries : Fields},
    readFields limit fuel s = .ok (entries, rest) → ∀ key v, (key, v) ∈ entries → v.Distinct
  | 0, s, rest, entries, success => by
    unfold readFields at success
    cases success
  | fuel + 1, s, rest, entries, success => by
    unfold readFields at success
    split at success
    · obtain ⟨⟨name, afterName⟩, -, success⟩ := bind_eq_ok.mp success
      dsimp only at success
      split at success
      · obtain ⟨⟨w, after⟩, first, success⟩ := bind_eq_ok.mp success
        have own := distinct_of_readValue first
        dsimp only at success
        split at success
        · obtain ⟨⟨others, end_⟩, later, success⟩ := bind_eq_ok.mp success
          cases success
          intro key v member
          rcases List.mem_cons.mp member with here | among
          · cases here
            exact own
          · exact distinct_of_readFields later key v among
        · cases success
          intro key v member
          cases List.mem_singleton.mp member
          exact own
        · cases success
      · cases success
    · cases success

end

/-- No object of a document that is read from a text has two entries with the same key. -/
theorem distinct_of_parse {s : String} {v : Value} (success : parse s = .ok v) : v.Distinct := by
  unfold parse parseWithin at success
  obtain ⟨⟨w, rest⟩, read, success⟩ := bind_eq_ok.mp success
  dsimp only at success
  split at success
  · cases success
    exact distinct_of_readValue read
  · cases success

end Json

end ClientGen
