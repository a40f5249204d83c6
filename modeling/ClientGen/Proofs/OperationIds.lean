import Mathlib
import ClientGen.Proofs.LetterCase
import ClientGen.Proofs.Runs
import ClientGen.Service.Operation

/-!
# Operation ids

The ids of the operations of a service are made unique one after another: an id that is taken gets
the first number that makes it new. There always is one (`firstNew_freshId`), so that the ids are
distinct whatever they are made from (`nodup_freshIds`). A base that is made from a text holds no
underscore. A numbered id is then never the base of another operation, and the number of an id is
the number of the operations with the same base that come before it (`ids_count_repetitions`).
-/
namespace ClientGen

namespace Naming

/-- The pieces of a text that stands in the place of a name are its characters. -/
theorem valuePieces_text (name : String) : valuePieces (.text name) = .ok (pieces name) := by
  have each : ∀ (read : Value → Outcome String), (∀ part, read (.text part) = .ok part) →
      ∀ s : List Char, (s.map fun c => Value.text (String.ofList [c])).mapM read =
        .ok (s.map fun c => String.ofList [c]) := by
    intro read reads s
    induction s with
    | nil => rfl
    | cons c rest ih =>
      rw [List.map_cons, List.mapM_cons, reads, ih]
      rfl
  refine bind_eq_ok.mpr ⟨_, each _ (fun _ => rfl) name.toList, ?_⟩
  simp [pieces, pure, Except.pure]

/-- The identifier of a text is made of letters and digits. -/
theorem isAlnum_of_mem_identifier {name : String} {c : Char}
    (member : c ∈ (identifier name).toList) : isAlnum c = true := by
  rw [identifier, identifierOf, String.toList_ofList] at member
  exact keep_of_mem_camelCase (fun c d alnum => isAlnum_upperChar alnum d) member

end Naming

theorem Text.natText_injective {m n : Nat} (same : natText m = natText n) : m = n := by
  rw [natText, natText, String.ofList_inj] at same
  have read := congrArg (fun digits => Nat.ofDigitChars 10 digits 0) same
  simpa using read

namespace Operation

theorem baseId_text (id method : String) (url : Scalar) :
    baseId (.text id) method url = .ok (Naming.identifier id) := by
  unfold baseId
  rw [if_neg (by simp)]
  exact bind_eq_ok.mpr ⟨_, Naming.valuePieces_text id, rfl⟩

/-- What the id of an operation is made from: the id that it declares, if any, or its method and
its path. -/
structure IdSource where
  declared : Option String
  method : String
  url : String

namespace IdSource

def value (s : IdSource) : Value :=
  match s.declared with
  | some id => .text id
  | none => .null

def base (s : IdSource) : String :=
  Naming.identifier (s.declared.getD (s.method ++ s.url))

theorem baseId_eq (s : IdSource) : baseId s.value s.method (.text s.url) = .ok s.base := by
  obtain ⟨declared, method, url⟩ := s
  cases declared with
  | none => rfl
  | some id => exact baseId_text id method _

theorem base_plain (s : IdSource) : '_' ∉ s.base.toList := by
  intro member
  exact absurd (Naming.isAlnum_of_mem_identifier member) (by decide)

end IdSource

variable {known : List String} {base : String} {m n : Nat}

theorem toList_numbered (base : String) (n : Nat) :
    (numbered base n).toList = base.toList ++ '_' :: (Text.natText n).toList := by
  simp [numbered]

theorem numbered_injective (same : numbered base m = numbered base n) : m = n := by
  have lists := congrArg String.toList same
  rw [toList_numbered, toList_numbered, List.append_cancel_left_eq, List.cons.injEq,
    String.toList_inj] at lists
  exact Text.natText_injective lists.2

structure FirstNew (known : List String) (base : String) (n : Nat) : Prop where
  pos : 1 ≤ n
  new : numbered base n ∉ known
  least : ∀ m, 1 ≤ m → m < n → numbered base m ∈ known

/-- One of any numbers that are more than the known ids makes a base new. -/
theorem exists_new_number (known : List String) (base : String) :
    ∃ n ∈ (List.range (known.length + 1)).map (· + 1), numbered base n ∉ known := by
  by_contra taken
  have within : (((List.range (known.length + 1)).map (· + 1)).map (numbered base)) ⊆ known := by
    intro id member
    obtain ⟨n, among, rfl⟩ := List.mem_map.mp member
    by_contra new
    exact taken ⟨n, among, new⟩
  have distinct : (((List.range (known.length + 1)).map (· + 1)).map (numbered base)).Nodup := by
    rw [List.map_map]
    refine List.nodup_range.map ?_
    intro m n same
    have next : m + 1 = n + 1 := numbered_injective same
    omega
  have short := (List.subperm_of_subset distinct within).length_le
  simp at short

/-- A base that is known gets the first number that makes it new, and there is one. -/
theorem firstNew_freshId (taken : base ∈ known) :
    ∃ n, FirstNew known base n ∧ freshId known base = numbered base n := by
  obtain ⟨i, searched⟩ : ∃ i, ((List.range (known.length + 1)).map (· + 1)).find?
      (fun n => decide (numbered base n ∉ known)) = some i := by
    rw [← Option.isSome_iff_exists, List.find?_isSome]
    obtain ⟨n, among, new⟩ := exists_new_number known base
    exact ⟨n, among, decide_eq_true new⟩
  have found : freshId known base = numbered base i := by
    rw [freshId, if_pos taken]
    dsimp only
    rw [searched, Option.getD_some]
  rw [List.find?_map, Option.map_eq_some_iff] at searched
  obtain ⟨j, searched, rfl⟩ := searched
  obtain ⟨new, -, earlier⟩ := List.find?_range_eq_some.mp searched
  refine ⟨j + 1, ⟨by omega, by simpa using new, ?_⟩, found⟩
  intro m pos below
  have known := earlier (m - 1) (by omega)
  simpa [Nat.sub_add_cancel pos] using known

theorem freshId_of_new (new : base ∉ known) : freshId known base = base :=
  if_neg new

/-- The id that is given is not known. -/
theorem freshId_not_mem (known : List String) (base : String) : freshId known base ∉ known := by
  by_cases taken : base ∈ known
  · obtain ⟨n, first, found⟩ := firstNew_freshId taken
    exact found ▸ first.new
  · rwa [freshId_of_new taken]

/-- The ids for bases one after another, each made unique among the known and the earlier ones. -/
def freshIds (known : List String) : List String → List String
  | [] => []
  | base :: rest => freshId known base :: freshIds (known ++ [freshId known base]) rest

/-- The ids that are given are distinct, and none of them is known before. -/
theorem nodup_freshIds (known bases : List String) :
    (freshIds known bases).Nodup ∧ ∀ id ∈ freshIds known bases, id ∉ known := by
  induction bases generalizing known with
  | nil => simp [freshIds]
  | cons base rest ih =>
    obtain ⟨distinct, new⟩ := ih (known ++ [freshId known base])
    have apart : ∀ id ∈ freshIds (known ++ [freshId known base]) rest,
        id ∉ known ∧ id ≠ freshId known base := by
      intro id member
      simpa using new id member
    refine ⟨List.nodup_cons.mpr ⟨fun member => (apart _ member).2 rfl, distinct⟩, ?_⟩
    intro id member
    rcases List.mem_cons.mp member with rfl | later
    · exact freshId_not_mem known base
    · exact (apart id later).1

/-- The id of an operation with the base `base` that comes after `n` others with the same base. -/
def repeatedId (base : String) (n : Nat) : String :=
  if n = 0 then base else numbered base n

theorem repeatedId_of_pos (pos : 1 ≤ n) : repeatedId base n = numbered base n :=
  if_neg (by omega)

theorem takeWhile_numbered (plain : '_' ∉ base.toList) :
    (numbered base n).toList.takeWhile (· != '_') = base.toList := by
  rw [toList_numbered, List.takeWhile_append_of_pos]
  · simp
  · intro c member
    rw [bne_iff_ne]
    rintro rfl
    exact plain member

/-- The first underscore of a repeated id parts its base from its number. -/
theorem repeatedId_injective {other : String} (plain : '_' ∉ base.toList)
    (otherPlain : '_' ∉ other.toList) (same : repeatedId base m = repeatedId other n) :
    base = other ∧ m = n := by
  have marked : ∀ (name : String) (i : Nat), '_' ∈ (numbered name i).toList := by
    intro name i
    simp [toList_numbered]
  unfold repeatedId at same
  split at same
  · rename_i first
    split at same
    · rename_i second
      exact ⟨same, first.trans second.symm⟩
    · exact absurd (same ▸ marked other n) plain
  · split at same
    · exact absurd (same ▸ marked base m) otherPlain
    · have bases := congrArg (fun id => id.toList.takeWhile (· != '_')) same
      simp only [takeWhile_numbered plain, takeWhile_numbered otherPlain, String.toList_inj]
        at bases
      subst bases
      exact ⟨rfl, numbered_injective same⟩

def Accounts (earlier known : List String) : Prop :=
  ∀ id, id ∈ known ↔ ∃ base n, n < earlier.count base ∧ id = repeatedId base n

section Count

variable {earlier : List String} (plain : ∀ b ∈ earlier, '_' ∉ b.toList)
  (basePlain : '_' ∉ base.toList) (accounts : Accounts earlier known)
include plain basePlain accounts

theorem repeatedId_mem_iff : repeatedId base n ∈ known ↔ n < earlier.count base := by
  rw [accounts]
  constructor
  · rintro ⟨other, i, below, same⟩
    have among : other ∈ earlier := List.count_pos_iff.mp (by omega)
    obtain ⟨rfl, rfl⟩ := repeatedId_injective basePlain (plain other among) same
    exact below
  · intro below
    exact ⟨base, n, below, rfl⟩

/-- The number of an id counts the earlier operations with the same base. -/
theorem freshId_eq_repeatedId : freshId known base = repeatedId base (earlier.count base) := by
  have taken_iff : base ∈ known ↔ 0 < earlier.count base :=
    repeatedId_mem_iff (n := 0) plain basePlain accounts
  by_cases taken : base ∈ known
  · obtain ⟨n, first, found⟩ := firstNew_freshId taken
    have positive := taken_iff.mp taken
    have enough : earlier.count base ≤ n := by
      by_contra fewer
      refine first.new ?_
      rw [← repeatedId_of_pos first.pos]
      exact (repeatedId_mem_iff plain basePlain accounts).mpr (by omega)
    have noMore : n ≤ earlier.count base := by
      by_contra more
      have held := first.least _ positive (by omega)
      rw [← repeatedId_of_pos positive] at held
      exact absurd ((repeatedId_mem_iff plain basePlain accounts).mp held) (by omega)
    rw [found, ← repeatedId_of_pos first.pos, Nat.le_antisymm noMore enough]
  · have none : earlier.count base = 0 := by
      have unused := mt taken_iff.mpr taken
      omega
    rw [freshId_of_new taken, none, repeatedId, if_pos rfl]

omit plain basePlain in
theorem Accounts.concat (base : String) :
    Accounts (earlier ++ [base]) (known ++ [repeatedId base (earlier.count base)]) := by
  intro id
  rw [List.mem_append, accounts, List.mem_singleton]
  constructor
  · rintro (⟨other, n, below, rfl⟩ | rfl)
    · refine ⟨other, n, ?_, rfl⟩
      rw [List.count_append]
      omega
    · exact ⟨base, _, by simp, rfl⟩
  · rintro ⟨other, n, below, rfl⟩
    rw [List.count_append, List.count_singleton] at below
    by_cases last : n < earlier.count other
    · exact Or.inl ⟨other, n, last, rfl⟩
    · have same : base = other := by
        by_contra different
        simp [different] at below
        exact last below
      subst same
      right
      congr 1
      simp at below
      omega

end Count

/-- The ids of operations with the bases `bases` that come after operations with the bases
`earlier`. -/
def repeatedIds (earlier : List String) : List String → List String
  | [] => []
  | base :: rest => repeatedId base (earlier.count base) :: repeatedIds (earlier ++ [base]) rest

/-- Bases without underscores get the ids that count their repetitions. -/
theorem freshIds_eq_repeatedIds {earlier bases : List String}
    (plain : ∀ b ∈ earlier ++ bases, '_' ∉ b.toList) (accounts : Accounts earlier known) :
    freshIds known bases = repeatedIds earlier bases := by
  induction bases generalizing earlier known with
  | nil => rfl
  | cons base rest ih =>
    have first : freshId known base = repeatedId base (earlier.count base) :=
      freshId_eq_repeatedId (fun b among => plain b (by simp [among])) (plain base (by simp))
        accounts
    rw [freshIds, repeatedIds, first, ih (by simpa using plain) (accounts.concat base)]

theorem length_repeatedIds (earlier bases : List String) :
    (repeatedIds earlier bases).length = bases.length := by
  induction bases generalizing earlier with
  | nil => rfl
  | cons base rest ih => rw [repeatedIds, List.length_cons, List.length_cons, ih]

theorem getElem?_repeatedIds (earlier bases : List String) (k : Nat) :
    (repeatedIds earlier bases)[k]? =
      bases[k]?.map fun base => repeatedId base ((earlier ++ bases.take k).count base) := by
  induction bases generalizing earlier k with
  | nil => rfl
  | cons base rest ih =>
    cases k with
    | zero => simp [repeatedIds]
    | succ k => simp [repeatedIds, ih]

/-- The ids of one base are numbered one after another, whatever other bases are among them. -/
theorem filter_repeatedIds (earlier bases : List String) (base : String) :
    ((bases.zip (repeatedIds earlier bases)).filter (·.1 = base)).map Prod.snd =
      (List.range' (earlier.count base) (bases.count base)).map (repeatedId base) := by
  induction bases generalizing earlier with
  | nil => rfl
  | cons other rest ih =>
    rw [repeatedIds, List.zip_cons_cons, List.filter_cons, List.count_cons]
    by_cases same : other = base
    · subst same
      simp [ih, List.range'_succ]
    · simp [ih, same]

/-- The ids of operations one after another, each made unique among the known and the earlier
ones. -/
def uniqueIds (known : List String) : List IdSource → Logged (List String)
  | [] => pure []
  | s :: rest => do
    let id ← uniqueId known s.value s.method (.text s.url)
    return id :: (← uniqueIds (known ++ [id]) rest)

/-- An operation gets the id that its base gives among the known ones; the rest is a remark. -/
theorem uniqueId_eq_ok {known : List String} {given : Value} {method id : String} {url : Scalar} :
    (uniqueId known given method url).outcome = .ok id ↔
      ∃ base, baseId given method url = .ok base ∧ id = freshId known base := by
  unfold uniqueId
  rw [Logged.outcome_bind_eq_ok]
  refine exists_congr fun base => and_congr_right fun _ => ?_
  dsimp only
  split
  · exact ⟨fun same => by cases same; rfl, fun same => same ▸ rfl⟩
  · split <;> exact ⟨fun same => by cases same; rfl, fun same => same ▸ rfl⟩

theorem outcome_uniqueIds (known : List String) (sources : List IdSource) :
    (uniqueIds known sources).outcome = .ok (freshIds known (sources.map IdSource.base)) := by
  induction sources generalizing known with
  | nil => rfl
  | cons s rest ih =>
    refine Logged.outcome_bind_eq_ok.mpr ⟨_, uniqueId_eq_ok.mpr ⟨_, s.baseId_eq, rfl⟩, ?_⟩
    exact Logged.outcome_bind_eq_ok.mpr ⟨_, ih _, rfl⟩

/-- The ids of the operations of a service: a base that is used for the first time is the id, and
otherwise the id is the base with the number of the earlier operations that have it. The ids are
distinct, the search for a number ends at the first one that is free, and the ids of one base only
depend on how many operations have it. -/
theorem ids_count_repetitions (sources : List IdSource) :
    ∃ ids, (uniqueIds [] sources).outcome = .ok ids ∧ ids.length = sources.length ∧
      (∀ k (within : k < sources.length), ids[k]? = some (repeatedId sources[k].base
        (((sources.take k).map IdSource.base).count sources[k].base))) ∧
      ids.Nodup ∧
      (∀ known base, base ∈ known →
        ∃ n, FirstNew known base n ∧ freshId known base = numbered base n) ∧
      ∀ base, (((sources.map IdSource.base).zip ids).filter (·.1 = base)).map Prod.snd =
        (List.range ((sources.map IdSource.base).count base)).map (repeatedId base) := by
  have plain : ∀ base ∈ [] ++ sources.map IdSource.base, '_' ∉ String.toList base := by
    intro base member
    obtain ⟨s, -, rfl⟩ := List.mem_map.mp member
    exact s.base_plain
  have counted : freshIds [] (sources.map IdSource.base) =
      repeatedIds [] (sources.map IdSource.base) :=
    freshIds_eq_repeatedIds plain (by simp [Accounts])
  refine ⟨_, outcome_uniqueIds [] sources, ?_, ?_, (nodup_freshIds [] _).1,
    fun known base => firstNew_freshId, ?_⟩
  · rw [counted, length_repeatedIds, List.length_map]
  · intro k within
    rw [counted, getElem?_repeatedIds, List.getElem?_map, List.getElem?_eq_getElem within]
    simp
  · intro base
    rw [counted, filter_repeatedIds, List.range_eq_range', List.count_nil]

/-- The third operation with an id gets the number two, whatever stands before it: the id of
another operation is written like one with a number, and a path without an id gives the same one. -/
theorem ids_count_repetitions_pets :
    ∃ ids, (uniqueIds [] [⟨some "get pet", "get", "/pet"⟩, ⟨some "getPet_1", "get", "/pet/1"⟩,
        ⟨none, "get", "/pet"⟩, ⟨some "getPet", "get", "/pets"⟩]).outcome = .ok ids ∧
      ids[3]? = some "getPet_2" ∧ ids.Nodup := by
  obtain ⟨ids, success, -, law, nodup, -⟩ := ids_count_repetitions
    [⟨some "get pet", "get", "/pet"⟩, ⟨some "getPet_1", "get", "/pet/1"⟩,
      ⟨none, "get", "/pet"⟩, ⟨some "getPet", "get", "/pets"⟩]
  exact ⟨ids, success, (law 3 (by decide)).trans (by cbv), nodup⟩

end Operation

end ClientGen
