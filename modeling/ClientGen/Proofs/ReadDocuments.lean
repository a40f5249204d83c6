import ClientGen.Platform
import ClientGen.Proofs.DistinctKeys

/-!
# Documents that are read

Parsers that give values without repeated keys lead to documents without them
(`Parsers.distinct_of_readDocument`). The standard parsers do so: an object of a YAML text is made
of the entries that are found in its mapping and in the mappings which are spread over it, set one
after another.
-/
namespace ClientGen

namespace Yaml

/-- What is found together is found one by one. -/
theorem Found.mem_of_all {α : Type} {xs : List (Found α)} {ys : List α}
    (success : Found.all xs = .ok ys) {y : α} (member : y ∈ ys) : .ok y ∈ xs := by
  induction xs generalizing ys with
  | nil =>
    cases success
    cases member
  | cons x rest ih =>
    obtain ⟨first, others, rfl, tail, rfl⟩ := Found.both_eq_ok.mp success
    rcases List.mem_cons.mp member with rfl | later
    · exact List.mem_cons_self
    · exact List.mem_cons_of_mem _ (ih tail later)

/-- The entries that are found hold values with distinct keys. -/
def FoundFields.Distinct (found : FoundFields) : Prop :=
  ∀ key v, .ok (key, v) ∈ found → v.Distinct

namespace FoundFields

theorem distinct_nil : FoundFields.Distinct [] := by
  intro key v member
  cases member

theorem distinct_append {found others : FoundFields} :
    FoundFields.Distinct (found ++ others) ↔
      FoundFields.Distinct found ∧ FoundFields.Distinct others := by
  constructor
  · intro all
    exact ⟨fun key v member => all key v (List.mem_append_left _ member),
      fun key v member => all key v (List.mem_append_right _ member)⟩
  · rintro ⟨first, second⟩ key v member
    exact (List.mem_append.mp member).elim (first key v) (second key v)

theorem distinct_cons {entry : Found (Scalar × Value)} {rest : FoundFields}
    (first : ∀ key v, entry = .ok (key, v) → v.Distinct) (others : FoundFields.Distinct rest) :
    FoundFields.Distinct (entry :: rest) := by
  intro key v member
  rcases List.mem_cons.mp member with here | later
  · exact first key v here.symm
  · exact others key v later

end FoundFields

namespace Node

-- The recursion is that of `valueAt`. Entries that are spread and a mapping's own ones are found
-- by the same pass, so that both lists are carried along.
mutual

theorem distinct_of_valueAt {depth : Nat} : ∀ {node : Node} {v : Value},
    node.valueAt depth = .ok v → v.Distinct
  | .plain text, v, success => by
    rw [valueAt] at success
    obtain ⟨s, -, rfl⟩ := map_eq_ok.mp success
    trivial
  | .quoted text, v, success => by
    rw [valueAt] at success
    cases success
    trivial
  | .sequence items, v, success => by
    rw [valueAt] at success
    obtain ⟨values, read, rfl⟩ := map_eq_ok.mp success
    rw [Value.Distinct]
    exact distinct_of_valuesAt read
  | .mapping entries, v, success => by
    rw [valueAt] at success
    split at success
    · rename_i spread own read
      obtain ⟨fields, together, rfl⟩ := map_eq_ok.mp success
      apply Fields.distinct_ofEntries
      intro key w member
      have found := FoundFields.distinct_append.mpr (distinct_of_entriesAt read)
      exact found key w (Found.mem_of_all together member)
    · cases success

theorem distinct_of_valuesAt {depth : Nat} : ∀ {nodes : List Node} {values : List Value},
    valuesAt depth nodes = .ok values → Value.DistinctItems values
  | [], values, success => by
    rw [valuesAt] at success
    cases success
    trivial
  | node :: rest, values, success => by
    rw [valuesAt] at success
    obtain ⟨v, others, first, tail, rfl⟩ := Found.both_eq_ok.mp success
    exact ⟨distinct_of_valueAt first, distinct_of_valuesAt tail⟩

theorem distinct_of_entriesAt {depth : Nat} : ∀ {entries : List (Node × Node)}
    {spread own : FoundFields}, entriesAt depth entries = .ok (spread, own) →
      spread.Distinct ∧ own.Distinct
  | [], spread, own, success => by
    rw [entriesAt] at success
    cases success
    exact ⟨FoundFields.distinct_nil, FoundFields.distinct_nil⟩
  | (key, node) :: rest, spread, own, success => by
    rw [entriesAt] at success
    split at success
    · obtain ⟨merged, first, success⟩ := bind_eq_ok.mp success
      obtain ⟨⟨others, own'⟩, tail, success⟩ := bind_eq_ok.mp success
      cases success
      have later := distinct_of_entriesAt tail
      exact ⟨FoundFields.distinct_append.mpr ⟨distinct_of_spreadAt first, later.1⟩, later.2⟩
    · obtain ⟨⟨others, own'⟩, tail, success⟩ := bind_eq_ok.mp success
      cases success
      have later := distinct_of_entriesAt tail
      refine ⟨later.1, FoundFields.distinct_cons ?_ later.2⟩
      intro k v here
      obtain ⟨a, w, -, found, same⟩ := Found.both_eq_ok.mp here
      cases same
      exact distinct_of_valueAt found

theorem distinct_of_spreadAt {depth : Nat} : ∀ {node : Node} {found : FoundFields},
    spreadAt depth node = .ok found → found.Distinct
  | .mapping entries, found, success => by
    rw [spreadAt] at success
    obtain ⟨⟨spread, own⟩, read, success⟩ := bind_eq_ok.mp success
    cases success
    exact FoundFields.distinct_append.mpr (distinct_of_entriesAt read)
  | .sequence items, found, success => by
    rw [spreadAt] at success
    exact distinct_of_spreadAllAt success
  | .plain text, found, success => by
    cases success
  | .quoted text, found, success => by
    cases success

theorem distinct_of_spreadAllAt {depth : Nat} : ∀ {nodes : List Node} {found : FoundFields},
    spreadAllAt depth nodes = .ok found → found.Distinct
  | [], found, success => by
    rw [spreadAllAt] at success
    cases success
    exact FoundFields.distinct_nil
  | .mapping entries :: rest, found, success => by
    rw [spreadAllAt] at success
    obtain ⟨⟨spread, own⟩, read, success⟩ := bind_eq_ok.mp success
    obtain ⟨others, tail, success⟩ := bind_eq_ok.mp success
    cases success
    have here := distinct_of_entriesAt read
    exact FoundFields.distinct_append.mpr
      ⟨FoundFields.distinct_append.mpr ⟨distinct_of_spreadAllAt tail, here.1⟩, here.2⟩
  | .sequence items :: rest, found, success => by
    cases success
  | .plain text :: rest, found, success => by
    cases success
  | .quoted text :: rest, found, success => by
    cases success

end

/-- No object of the value of a tree has two entries with the same key. -/
theorem distinct_of_value {node : Node} {v : Value} (success : node.value = .ok v) :
    v.Distinct := by
  unfold value at success
  cases read : node.valueAt 0 with
  | error fault =>
    rw [read] at success
    cases success
  | ok w =>
    rw [read] at success
    cases success
    exact distinct_of_valueAt read

end Node

end Yaml

namespace Parsers

variable {parsers : Parsers} {d : Disk} {path : FilePath} {v : Value}

/-- No object that is read from a text has two entries with the same key. -/
def GivesDistinct (parsers : Parsers) : Prop :=
  ∀ format s v, parsers.read format s = .ok v → v.Distinct

theorem givesDistinct_standard : GivesDistinct .standard := by
  intro format s v success
  cases format with
  | json => exact Json.distinct_of_parse success
  | yaml =>
    obtain ⟨node, -, read⟩ := bind_eq_ok.mp success
    exact Yaml.Node.distinct_of_value read

theorem distinct_of_readValue (gives : parsers.GivesDistinct)
    (success : parsers.readValue d path = .ok v) : v.Distinct := by
  unfold readValue at success
  split at success
  · split at success
    · exact gives _ _ _ success
    · cases success
  · cases success

/-- No object of a document that is read from a file has two entries with the same key. -/
theorem distinct_of_readDocument (gives : parsers.GivesDistinct)
    (success : parsers.readDocument d path = .ok v) : v.Distinct := by
  unfold readDocument at success
  split at success
  · rename_i fields read
    cases success
    exact distinct_of_readValue gives read
  · cases success
  · cases success
  · cases success

end Parsers

end ClientGen
