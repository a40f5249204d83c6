import Mathlib.Data.List.Forall2
import Mathlib.Logic.Relation
import ClientGen.Naming

/-!
# Types as trees

A type of the generated code as a tree. Unions and intersections are kept flat: a union has no
union among its parts and an intersection no intersection, and either has two parts at least.
`TypeTree.joinOf` builds such trees, so that trees that differ in the grouping of their unions and
intersections only are the same.

A tree is written as a list of tokens, without parentheses (`TypeTree.tokens`). What the parts of
a junction are written as is therefore all that is written for it (`tokens_joinOf`), and a union
inside an intersection cannot be told from its neighbours. `Flat` excludes such unions.
-/
namespace ClientGen

def Throughout {α : Type} (parts : α → List α) (p : α → Prop) (whole : α) : Prop :=
  ∀ inner, Relation.ReflTransGen (fun outer part => part ∈ parts outer) whole inner → p inner

theorem throughout_iff {α : Type} {parts : α → List α} {p : α → Prop} {whole : α} :
    Throughout parts p whole ↔ p whole ∧ ∀ part ∈ parts whole, Throughout parts p part := by
  constructor
  · intro all
    exact ⟨all whole .refl, fun part member inner within => all inner (.head member within)⟩
  · rintro ⟨own, each⟩ inner within
    rcases within.cases_head with rfl | ⟨part, member, further⟩
    · exact own
    · exact each part member inner further

theorem throughout_leaf {α : Type} {parts : α → List α} {p : α → Prop} {leaf : α}
    (alone : parts leaf = []) (own : p leaf) : Throughout parts p leaf :=
  throughout_iff.mpr ⟨own, by simp [alone]⟩

inductive Junction where
  | union
  | intersection
  deriving DecidableEq, Repr

def Junction.mark : Junction → Char
  | .union => '|'
  | .intersection => '&'

/-- What an object type says something about: one of its members, or all other keys. -/
inductive ObjectEntry where
  | member (name : String) (required : Bool)
  | others
  deriving DecidableEq, Repr

inductive TypeTree where
  | name (word : String)
  | number (word : String)
  | literal (text : String)
  | array (item : TypeTree)
  | tuple (places : List TypeTree)
  | object (entries : List (ObjectEntry × TypeTree))
  | join (junction : Junction) (parts : List TypeTree)
  deriving Repr

inductive Token where
  | word (s : List Char)
  | quoted (s : List Char)
  | mark (c : Char)
  deriving DecidableEq, Repr

namespace TypeTree

def parts : TypeTree → List TypeTree
  | .name _ | .number _ | .literal _ => []
  | .array item => [item]
  | .tuple places => places
  | .object entries => entries.map Prod.snd
  | .join _ parts => parts

def All (p : TypeTree → Prop) : TypeTree → Prop := Throughout parts p

theorem all_iff {p : TypeTree → Prop} {t : TypeTree} :
    t.All p ↔ p t ∧ ∀ part ∈ t.parts, part.All p :=
  throughout_iff

def junction? : TypeTree → Option Junction
  | .join j _ => some j
  | _ => none

/-- The types that a type joins by `j`, which may be itself alone. -/
def membersOf (j : Junction) : TypeTree → List TypeTree
  | .join k parts => if k = j then parts else [.join k parts]
  | t => [t]

/-- The types joined by `j`, those that are so joined themselves being taken apart. -/
def joinOf (j : Junction) (ts : List TypeTree) : TypeTree :=
  match ts.flatMap (membersOf j) with
  | [t] => t
  | parts => .join j parts

/-- A junction has at least two parts, none of which is a junction of the same kind. -/
def Normal : TypeTree → Prop
  | .join j parts => 2 ≤ parts.length ∧ ∀ part ∈ parts, part.junction? ≠ some j
  | _ => True

/-- No part of an intersection is a union. -/
def Flat : TypeTree → Prop
  | .join .intersection parts => ∀ part ∈ parts, part.junction? ≠ some .union
  | _ => True

instance (j : Junction) (parts : List TypeTree) : Decidable (TypeTree.join j parts).Normal :=
  inferInstanceAs (Decidable (2 ≤ parts.length ∧ ∀ part ∈ parts, part.junction? ≠ some j))

instance (j : Junction) (parts : List TypeTree) : Decidable (TypeTree.join j parts).Flat :=
  match j with
  | .union => isTrue trivial
  | .intersection => inferInstanceAs (Decidable (∀ part ∈ parts, part.junction? ≠ some .union))

theorem normal_of_single {t : TypeTree} (single : t.junction? = none) : t.Normal := by
  cases t with
  | join j parts => cases single
  | _ => trivial

theorem flat_of_single {t : TypeTree} (single : t.junction? = none) : t.Flat := by
  cases t with
  | join j parts => cases single
  | _ => trivial

theorem membersOf_of_ne {j : Junction} {t : TypeTree} (other : t.junction? ≠ some j) :
    t.membersOf j = [t] := by
  cases t with
  | join k parts =>
    have apart : k ≠ j := fun same => other (congrArg some same)
    exact if_neg apart
  | _ => rfl

theorem membersOf_join (j : Junction) (parts : List TypeTree) :
    (TypeTree.join j parts).membersOf j = parts :=
  if_pos rfl

theorem flatMap_membersOf_of_ne {j : Junction} {ts : List TypeTree}
    (others : ∀ t ∈ ts, t.junction? ≠ some j) : ts.flatMap (membersOf j) = ts := by
  induction ts with
  | nil => rfl
  | cons t rest ih =>
    have first := membersOf_of_ne (others t List.mem_cons_self)
    have later := ih fun u member => others u (List.mem_cons_of_mem t member)
    rw [List.flatMap_cons, first, later]
    rfl

/-- A type is joined again from its members. -/
theorem joinOf_membersOf {j : Junction} {t : TypeTree} (normal : t.Normal) :
    joinOf j (t.membersOf j) = t := by
  by_cases joined : t.junction? = some j
  · cases t with
    | join k parts =>
      cases joined
      obtain ⟨several, apart⟩ := normal
      rw [membersOf_join, joinOf, flatMap_membersOf_of_ne apart]
      match parts, several with
      | _ :: _ :: _, _ => rfl
    | _ => cases joined
  · rw [membersOf_of_ne joined, joinOf, List.flatMap_singleton, membersOf_of_ne joined]

/-- Joining types gives one of their members, or the junction of all members. -/
theorem joinOf_cases (j : Junction) (ts : List TypeTree) :
    ts.flatMap (membersOf j) = [joinOf j ts] ∨
      joinOf j ts = .join j (ts.flatMap (membersOf j)) := by
  unfold joinOf
  split
  · rename_i t only
    exact Or.inl only
  · exact Or.inr rfl

section Everywhere

variable {p : TypeTree → Prop} {j : Junction} {t : TypeTree} {ts : List TypeTree}

theorem all_of_mem_membersOf (all : t.All p) {part : TypeTree} (member : part ∈ t.membersOf j) :
    part.All p := by
  by_cases joined : t.junction? = some j
  · cases t with
    | join k parts =>
      cases joined
      rw [membersOf_join] at member
      exact (all_iff.mp all).2 part member
    | _ => cases joined
  · rw [membersOf_of_ne joined, List.mem_singleton] at member
    exact member ▸ all

theorem all_of_mem_flatMap (all : ∀ t ∈ ts, t.All p) {part : TypeTree}
    (member : part ∈ ts.flatMap (membersOf j)) : part.All p := by
  obtain ⟨t, among, member⟩ := List.mem_flatMap.mp member
  exact all_of_mem_membersOf (all t among) member

theorem all_joinOf (all : ∀ t ∈ ts, t.All p) (whole : p (.join j (ts.flatMap (membersOf j)))) :
    (joinOf j ts).All p := by
  rcases joinOf_cases j ts with only | joined
  · exact all_of_mem_flatMap all (only ▸ List.mem_singleton_self _)
  · rw [joined]
    exact all_iff.mpr ⟨whole, fun part member => all_of_mem_flatMap all member⟩

/-- What holds of every junction holds throughout joined types exactly if it does in each. -/
theorem all_joinOf_iff (joins : ∀ parts, p (.join j parts)) :
    (joinOf j ts).All p ↔ ∀ t ∈ ts, t.All p := by
  constructor
  · intro all t among
    have each : ∀ part ∈ ts.flatMap (membersOf j), part.All p := by
      intro part member
      rcases joinOf_cases j ts with only | joined
      · rw [only, List.mem_singleton] at member
        exact member ▸ all
      · rw [joined] at all
        exact (all_iff.mp all).2 part member
    have members : ∀ part ∈ t.membersOf j, part.All p := fun part member =>
      each part (List.mem_flatMap.mpr ⟨t, among, member⟩)
    by_cases joined : t.junction? = some j
    · cases t with
      | join k parts =>
        cases joined
        rw [membersOf_join] at members
        exact all_iff.mpr ⟨joins parts, members⟩
      | _ => cases joined
    · rw [membersOf_of_ne joined] at members
      exact members t (List.mem_singleton_self t)
  · intro all
    exact all_joinOf all (joins _)

end Everywhere

theorem membersOf_ne_nil {j : Junction} {t : TypeTree} (normal : t.Normal) :
    t.membersOf j ≠ [] := by
  by_cases joined : t.junction? = some j
  · cases t with
    | join k parts =>
      cases joined
      rw [membersOf_join]
      rintro rfl
      have several := normal.1
      simp at several
    | _ => cases joined
  · rw [membersOf_of_ne joined]
    simp

theorem junction?_of_mem_membersOf {j : Junction} {t part : TypeTree} (normal : t.Normal)
    (member : part ∈ t.membersOf j) : part.junction? ≠ some j := by
  by_cases joined : t.junction? = some j
  · cases t with
    | join k parts =>
      cases joined
      rw [membersOf_join] at member
      exact normal.2 part member
    | _ => cases joined
  · rw [membersOf_of_ne joined, List.mem_singleton] at member
    exact member ▸ joined

/-- Normal types are joined to normal ones. -/
theorem normal_joinOf {j : Junction} {ts : List TypeTree} (present : ts ≠ [])
    (normal : ∀ t ∈ ts, t.All Normal) : (joinOf j ts).All Normal := by
  rcases joinOf_cases j ts with only | joined
  · exact all_of_mem_flatMap normal (only ▸ List.mem_singleton_self _)
  · refine all_joinOf normal ⟨?_, ?_⟩
    · by_contra few
      match found : ts.flatMap (membersOf j) with
      | [] =>
        obtain ⟨t, among⟩ := List.exists_mem_of_ne_nil ts present
        have empty := List.flatMap_eq_nil_iff.mp found t among
        exact membersOf_ne_nil (all_iff.mp (normal t among)).1 empty
      | [t] =>
        rw [joinOf, found] at joined
        have own : (TypeTree.join j [t]).All Normal :=
          joined ▸ all_of_mem_flatMap normal (found ▸ List.mem_singleton_self t)
        have several := (all_iff.mp own).1.1
        simp at several
      | _ :: _ :: _ => simp [found] at few
    · intro part member
      obtain ⟨t, among, member⟩ := List.mem_flatMap.mp member
      exact junction?_of_mem_membersOf (all_iff.mp (normal t among)).1 member

end TypeTree

/-- Pieces of a written type with a mark between each two. -/
def separated (c : Char) (pieces : List (List Token)) : List Token :=
  [Token.mark c].intercalate pieces

@[simp] theorem separated_nil (c : Char) : separated c [] = [] := List.intercalate_nil

@[simp] theorem separated_singleton (c : Char) (piece : List Token) :
    separated c [piece] = piece :=
  List.intercalate_singleton

theorem separated_cons_cons (c : Char) (piece next : List Token) (rest : List (List Token)) :
    separated c (piece :: next :: rest) = piece ++ .mark c :: separated c (next :: rest) := by
  rw [separated, List.intercalate_cons_cons, List.append_assoc]
  rfl

theorem separated_append {c : Char} {pieces others : List (List Token)} (present : pieces ≠ [])
    (more : others ≠ []) :
    separated c (pieces ++ others) = separated c pieces ++ .mark c :: separated c others := by
  induction pieces with
  | nil => exact absurd rfl present
  | cons piece rest ih =>
    cases rest with
    | nil =>
      cases others with
      | nil => exact absurd rfl more
      | cons other others =>
        rw [separated_singleton]
        exact separated_cons_cons c piece other others
    | cons next rest =>
      have later := ih (List.cons_ne_nil next rest)
      rw [List.cons_append] at later
      rw [List.cons_append, List.cons_append, separated_cons_cons, later, separated_cons_cons,
        List.append_assoc, List.cons_append]

/-- Pieces that are put together in groups first are written in the same way. -/
theorem separated_flatten {c : Char} {groups : List (List (List Token))}
    (present : ∀ group ∈ groups, group ≠ []) :
    separated c groups.flatten = separated c (groups.map (separated c)) := by
  induction groups with
  | nil => rfl
  | cons group rest ih =>
    have first := present group List.mem_cons_self
    have later := ih fun other member => present other (List.mem_cons_of_mem group member)
    cases rest with
    | nil => simp
    | cons next rest =>
      have nonempty : (next :: rest).flatten ≠ [] := by
        have head := present next (by simp)
        simp [head]
      rw [List.flatten_cons, separated_append first nonempty, later]
      exact (separated_cons_cons c _ _ _).symm

theorem length_le_separated (c : Char) (pieces : List (List Token)) :
    pieces.length ≤ (separated c pieces).length + 1 := by
  induction pieces with
  | nil => simp
  | cons piece rest ih =>
    cases rest with
    | nil => simp
    | cons next rest =>
      rw [separated_cons_cons]
      simp only [List.length_append, List.length_cons] at ih ⊢
      omega

theorem length_le_of_mem_separated {c : Char} {piece : List Token} {pieces : List (List Token)}
    (member : piece ∈ pieces) : piece.length ≤ (separated c pieces).length := by
  induction pieces with
  | nil => cases member
  | cons first rest ih =>
    cases rest with
    | nil =>
      rw [List.mem_singleton] at member
      exact Nat.le_of_eq (by rw [member, separated_singleton])
    | cons next rest =>
      rw [separated_cons_cons, List.length_append, List.length_cons]
      rcases List.mem_cons.mp member with rfl | later
      · omega
      · have within := ih later
        omega

def ObjectEntry.tokens : ObjectEntry → List Token
  | .member name required =>
    (if Naming.isBareName name.toList then .word name.toList else .quoted name.toList) ::
      (if required then [.mark ':'] else [.mark '?', .mark ':'])
  | .others =>
    [.mark '[', .word "key".toList, .mark ':', .word "string".toList, .mark ']', .mark ':']

namespace TypeTree

mutual

def tokens : TypeTree → List Token
  | .name word | .number word => [.word word.toList]
  | .literal text => [.quoted text.toList]
  | .array item => .word "Array".toList :: .mark '<' :: tokens item ++ [.mark '>']
  | .tuple places => .mark '[' :: separated ',' (tokensOfAll places) ++ [.mark ']']
  | .object entries => .mark '\x7b' :: separated ',' (tokensOfEntries entries) ++ [.mark '\x7d']
  | .join j parts => separated j.mark (tokensOfAll parts)

def tokensOfAll : List TypeTree → List (List Token)
  | [] => []
  | t :: rest => tokens t :: tokensOfAll rest

def tokensOfEntries : List (ObjectEntry × TypeTree) → List (List Token)
  | [] => []
  | (entry, t) :: rest => (entry.tokens ++ tokens t) :: tokensOfEntries rest

end

@[simp] theorem tokensOfAll_eq_map (ts : List TypeTree) : tokensOfAll ts = ts.map tokens := by
  induction ts with
  | nil => rfl
  | cons t rest ih => rw [tokensOfAll, ih, List.map_cons]

@[simp] theorem tokensOfEntries_eq_map (entries : List (ObjectEntry × TypeTree)) :
    tokensOfEntries entries = entries.map fun e => e.1.tokens ++ e.2.tokens := by
  induction entries with
  | nil => rfl
  | cons e rest ih => rw [tokensOfEntries, ih, List.map_cons]

theorem separated_membersOf (j : Junction) (t : TypeTree) :
    separated j.mark ((t.membersOf j).map tokens) = t.tokens := by
  by_cases joined : t.junction? = some j
  · cases t with
    | join k parts =>
      cases joined
      rw [membersOf_join, tokens, tokensOfAll_eq_map]
    | _ => cases joined
  · rw [membersOf_of_ne joined, List.map_singleton, separated_singleton]

/-- Joined types are written one after another. -/
theorem tokens_joinOf {j : Junction} {ts : List TypeTree} (normal : ∀ t ∈ ts, t.Normal) :
    (joinOf j ts).tokens = separated j.mark (ts.map tokens) := by
  have grouped : separated j.mark ((ts.flatMap (membersOf j)).map tokens) =
      separated j.mark (ts.map tokens) := by
    have written : (ts.flatMap (membersOf j)).map tokens =
        (ts.map fun t => (t.membersOf j).map tokens).flatten := by
      rw [List.map_flatMap, List.flatMap_def]
    rw [written, separated_flatten, List.map_map]
    · congr 1
      exact List.map_congr_left fun t _ => separated_membersOf j t
    · intro group member
      obtain ⟨t, among, rfl⟩ := List.mem_map.mp member
      simpa using membersOf_ne_nil (normal t among)
  rw [← grouped]
  rcases joinOf_cases j ts with only | joined
  · rw [only, List.map_singleton, separated_singleton]
  · rw [joined, tokens, tokensOfAll_eq_map]

end TypeTree

end ClientGen
