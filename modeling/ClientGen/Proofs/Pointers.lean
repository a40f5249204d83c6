import Mathlib
import ClientGen.Proofs.ClassNames
import ClientGen.Proofs.Numerals
import ClientGen.Proofs.Runs
import ClientGen.Reference.Pointer

/-!
# Pointers to the nodes of a document

A node is found by a path of keys and indices. Written as a local reference, with each key escaped
and each index in decimal, the path resolves to its node (`resolve_pointer`): an escaped key has no
slash in it (`slash_not_mem_escape`), escaping is undone (`unescape_escape`), and a numeral is read
as its number (`Text.readInt?_natText`).

A numeral of more than `Text.digitLimit` digits is not read; no list has so many items.
-/
namespace ClientGen

namespace Reference

/-- A step on the way to a node: the key of an entry or the place of an item. -/
inductive Step where
  | key (name : String)
  | index (i : Nat)
  deriving DecidableEq, Repr

def escape (name : String) : String :=
  Text.replaceAll "/" "~1" (Text.replaceAll "~" "~0" name)

def Step.written : Step → String
  | .key name => escape name
  | .index i => Text.natText i

def Step.name : Step → String
  | .key name => name
  | .index i => Text.natText i

def pointer (path : List Step) : String :=
  "#/" ++ "/".intercalate (path.map Step.written)

def nodeAt? : Value → List Step → Option Value
  | v, [] => some v
  | .object fields, .key name :: path => (Fields.get? fields name).bind fun v => nodeAt? v path
  | .list items, .index i :: path => items[i]?.bind fun v => nodeAt? v path
  | _, _ :: _ => none

theorem toList_escape (name : String) :
    (escape name).toList = name.toList.flatMap fun c =>
      if c = '~' then ['~', '0'] else if c = '/' then ['~', '1'] else [c] := by
  have slash := Text.toList_replaceAll_singleton '/' "~1" (Text.replaceAll "~" "~0" name)
  have tilde := Text.toList_replaceAll_singleton '~' "~0" name
  rw [escape]
  refine slash.trans ?_
  refine (congrArg _ tilde).trans ?_
  -- The second pass finds no slash in what the first has put for a tilde.
  rw [List.flatMap_assoc]
  refine List.flatMap_congr fun c _ => ?_
  by_cases isTilde : c = '~'
  · simp [isTilde]
  · by_cases isSlash : c = '/' <;> simp [isTilde, isSlash]

theorem slash_not_mem_escape (name : String) : '/' ∉ (escape name).toList := by
  rw [toList_escape]
  intro member
  obtain ⟨c, -, inside⟩ := List.mem_flatMap.mp member
  split at inside
  · simp at inside
  · split at inside
    · simp at inside
    · rename_i other
      exact other (List.mem_singleton.mp inside).symm

theorem unescape_cons {c : Char} {rest : List Char} (other : c ≠ '~') :
    unescape (c :: rest) = c :: unescape rest := by
  rw [unescape]
  · intro s tilde
    exact absurd tilde other
  · intro s tilde
    exact absurd tilde other

/-- Escaping is undone. -/
theorem unescape_escape (name : String) : unescape (escape name).toList = name.toList := by
  rw [toList_escape]
  induction name.toList with
  | nil => rfl
  | cons c rest ih =>
    rw [List.flatMap_cons]
    by_cases isTilde : c = '~'
    · subst isTilde
      exact congrArg _ ih
    · rw [if_neg isTilde]
      by_cases isSlash : c = '/'
      · subst isSlash
        exact congrArg _ ih
      · rw [if_neg isSlash, List.singleton_append, unescape_cons isTilde, ih]

theorem unescape_of_absent {s : List Char} (absent : '~' ∉ s) : unescape s = s := by
  induction s with
  | nil => rfl
  | cons c rest ih =>
    rw [List.mem_cons, not_or] at absent
    rw [unescape_cons (Ne.symm absent.1), ih absent.2]

namespace Step

theorem not_mem_natText {c : Char} (other : c.isDigit = false) (n : Nat) :
    c ∉ (Text.natText n).toList := by
  intro member
  rw [Text.isDigit_of_mem_natText member] at other
  cases other

theorem slash_not_mem_written (s : Step) : '/' ∉ s.written.toList := by
  cases s with
  | key name => exact slash_not_mem_escape name
  | index i => exact not_mem_natText rfl i

/-- A step is read from its text. -/
theorem unescape_written (s : Step) : unescape s.written.toList = s.name.toList := by
  cases s with
  | key name => exact unescape_escape name
  | index i => exact unescape_of_absent (not_mem_natText rfl i)

/-- No step but that of an empty key has an empty text. -/
theorem written_ne_nil {s : Step} (named : ∀ name, s = .key name → name ≠ "") :
    s.written.toList ≠ [] := by
  intro empty
  have unnamed := s.unescape_written
  rw [empty] at unnamed
  cases s with
  | key name => exact named name rfl (String.toList_eq_nil_iff.mp unnamed.symm)
  | index i =>
    rw [written, Text.natText, String.toList_ofList] at empty
    exact Nat.toDigits_ne_nil empty

end Step

variable {path : List Step} {ref : String} {document node v : Value}

/-- The steps that are read from the reference for a path are those of the path. -/
theorem steps?_pointer (present : path ≠ []) (named : ∀ name, .key name ∈ path → name ≠ "") :
    steps? (pointer path) = some (path.map Step.name) := by
  have absent : ∀ piece ∈ (path.map Step.written).map String.toList, '/' ∉ piece := by
    intro piece member
    rw [List.map_map] at member
    obtain ⟨s, -, rfl⟩ := List.mem_map.mp member
    exact s.slash_not_mem_written
  have filled : ∀ piece ∈ (path.map Step.written).map String.toList, (!piece.isEmpty) = true := by
    intro piece member
    rw [List.map_map] at member
    obtain ⟨s, among, rfl⟩ := List.mem_map.mp member
    have written := s.written_ne_nil fun name same => named name (same ▸ among)
    simpa using written
  have toList : (pointer path).toList =
      '#' :: '/' :: ['/'].intercalate ((path.map Step.written).map String.toList) := by
    rw [pointer, String.toList_append, String.toList_intercalate]
    rfl
  rw [steps?, toList]
  simp only
  rw [Text.splitOn_intercalate (by simpa using present) absent, List.filter_eq_self.mpr filled,
    List.map_map, List.map_map]
  refine congrArg some (List.map_congr_left fun s _ => ?_)
  exact (congrArg String.ofList s.unescape_written).trans String.ofList_toList

/-- Each step of a path leads to the node that the path goes on from. -/
theorem walk_names (leads : nodeAt? node path = some v)
    (short : ∀ i, .index i ∈ path → i < 10 ^ Text.digitLimit) :
    walk ref node (path.map Step.name) = .ok v := by
  induction path generalizing node with
  | nil =>
    cases leads
    rfl
  | cons s rest ih =>
    have onward : ∀ next, nodeAt? next rest = some v → walk ref next (rest.map Step.name) = .ok v :=
      fun next further => ih further fun i later => short i (List.mem_cons_of_mem s later)
    rw [List.map_cons, walk, bind_eq_ok]
    cases s with
    | key name =>
      cases node with
      | scalar t => cases leads
      | list items => cases leads
      | object fields =>
        obtain ⟨next, found, further⟩ := Option.bind_eq_some_iff.mp leads
        refine ⟨next, ?_, onward next further⟩
        simp only [step, Step.name, found]
    | index i =>
      cases node with
      | scalar t => cases leads
      | object fields => cases leads
      | list items =>
        obtain ⟨next, found, further⟩ := Option.bind_eq_some_iff.mp leads
        refine ⟨next, ?_, onward next further⟩
        have read := Text.readInt?_natText (short i List.mem_cons_self)
        simp only [step, Step.name, Text.isDigits_natText, if_true, read, Int.ofNat_eq_natCast,
          Int.toNat_natCast, found]

/-- The reference that is written for a path to a node resolves to the node, whatever characters its
keys are made of. -/
theorem resolve_pointer (present : path ≠ []) (named : ∀ name, .key name ∈ path → name ≠ "")
    (short : ∀ i, .index i ∈ path → i < 10 ^ Text.digitLimit)
    (leads : nodeAt? document path = some v) : resolve document (pointer path) = .ok v := by
  have walked : walk (pointer path) document (path.map Step.name) = .ok v :=
    walk_names leads short
  rw [resolve, steps?_pointer present named]
  cases path with
  | nil => exact absurd rfl present
  | cons s rest => exact walked

/-- A document with keys that look like escapes, like indices and like pieces of a path. -/
def awkwardDocument : Value :=
  .object [(.text "a/b~1", .list [.null, .object [(.text "00", .text "zeros"),
    (.text "~01", .list [.int 5, .int 6])]])]

/-- Slashes, tildes, escapes and digits are all read back. -/
theorem resolve_pointer_awkward :
    pointer [.key "a/b~1", .index 1, .key "~01", .index 1] = "#/a~1b~01/1/~001/1" ∧
    resolve awkwardDocument (pointer [.key "a/b~1", .index 1, .key "~01", .index 1]) =
      .ok (.int 6) := by
  refine ⟨by decide, resolve_pointer (by simp) ?_ ?_ rfl⟩
  · rintro name member rfl
    simp at member
  · intro i member
    have one : i = 1 := by simpa using member
    rw [one]
    exact Nat.one_lt_pow (by decide) (by decide)

end Reference

end ClientGen
