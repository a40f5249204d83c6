import Mathlib
import ClientGen.Proofs.Runs
import ClientGen.Reference.Check

/-!
# Which references are checked

The check of a document goes into every part of it but what stands under a key `$ref`, where a
property of that name has its schema. So it resolves and counts the references that stand below no
such key (`check_eq_ok`), and it answers for all references of a document exactly if the others are
not needed for the answer (`checkAll_answers_iff`).
-/
namespace ClientGen.Reference

def Resolves (document : Value) (ref : String) : Prop :=
  ∃ v, resolve document ref = .ok v

mutual

/-- The references in a value, each with a mark that says whether it stands below a key `$ref`; all
do if the value does. -/
def placed (below : Bool) : Value → List (String × Bool)
  | .scalar _ => []
  | .list items => placedInItems below items
  | .object fields =>
    (target? fields).toList.map (fun ref => (ref, below)) ++ placedInFields below fields

/-- The references in the items of a list, with their marks. -/
def placedInItems (below : Bool) : List Value → List (String × Bool)
  | [] => []
  | v :: rest => placed below v ++ placedInItems below rest

/-- The references in the entries of an object, with their marks. -/
def placedInFields (below : Bool) : List (Scalar × Value) → List (String × Bool)
  | [] => []
  | (key, v) :: rest =>
    placed (below || decide (key = .text "$ref")) v ++ placedInFields below rest

end

-- No reference is left out, whatever the mark: these are all references of the value, in order.
mutual

theorem map_fst_placed (below : Bool) : ∀ v : Value, (placed below v).map Prod.fst = targets v
  | .scalar _ => rfl
  | .list items => by rw [placed, targets, map_fst_placedInItems below items]
  | .object fields => by
    rw [placed, targets, List.map_append, map_fst_placedInFields below fields, List.map_map]
    simp [Function.comp_def]

theorem map_fst_placedInItems (below : Bool) : ∀ items : List Value,
    (placedInItems below items).map Prod.fst = targetsOfItems items
  | [] => rfl
  | v :: rest => by
    rw [placedInItems, targetsOfItems, List.map_append, map_fst_placed below v,
      map_fst_placedInItems below rest]

theorem map_fst_placedInFields (below : Bool) : ∀ fields : List (Scalar × Value),
    (placedInFields below fields).map Prod.fst = targetsOfFields fields
  | [] => rfl
  | (key, v) :: rest => by
    rw [placedInFields, targetsOfFields, List.map_append, map_fst_placed _ v,
      map_fst_placedInFields below rest]

end

mutual

/-- Below a key `$ref` every reference bears the mark. -/
theorem below_of_mem_placed : ∀ (v : Value), ∀ e ∈ placed true v, e.2 = true
  | .scalar _, e, member => by simp [placed] at member
  | .list items, e, member => by
    rw [placed] at member
    exact below_of_mem_placedInItems items e member
  | .object fields, e, member => by
    rw [placed] at member
    rcases List.mem_append.mp member with own | inside
    · obtain ⟨ref, -, rfl⟩ := List.mem_map.mp own
      rfl
    · exact below_of_mem_placedInFields fields e inside

theorem below_of_mem_placedInItems : ∀ (items : List Value),
    ∀ e ∈ placedInItems true items, e.2 = true
  | [], e, member => by simp [placedInItems] at member
  | v :: rest, e, member => by
    rw [placedInItems] at member
    rcases List.mem_append.mp member with first | later
    · exact below_of_mem_placed v e first
    · exact below_of_mem_placedInItems rest e later

theorem below_of_mem_placedInFields : ∀ (fields : List (Scalar × Value)),
    ∀ e ∈ placedInFields true fields, e.2 = true
  | [], e, member => by simp [placedInFields] at member
  | (key, v) :: rest, e, member => by
    rw [placedInFields, Bool.true_or] at member
    rcases List.mem_append.mp member with first | later
    · exact below_of_mem_placed v e first
    · exact below_of_mem_placedInFields rest e later

end

/-- Of the references with their marks, all that are not below a key `$ref` resolve, and there are
`count` of them. -/
def Answers (document : Value) (placed : List (String × Bool)) (count : Nat) : Prop :=
  (∀ e ∈ placed, e.2 = false → Resolves document e.1) ∧ count = placed.countP fun e => !e.2

theorem answers_nil {document : Value} {count : Nat} :
    Answers document [] count ↔ count = 0 := by
  simp [Answers]

theorem answers_append {document : Value} {first second : List (String × Bool)} {count : Nat} :
    Answers document (first ++ second) count ↔
      ∃ m n, Answers document first m ∧ Answers document second n ∧ count = m + n := by
  unfold Answers
  rw [List.countP_append]
  constructor
  · rintro ⟨all, rfl⟩
    exact ⟨_, _, ⟨fun e member => all e (List.mem_append_left _ member), rfl⟩,
      ⟨fun e member => all e (List.mem_append_right _ member), rfl⟩, rfl⟩
  · rintro ⟨m, n, ⟨former, rfl⟩, ⟨latter, rfl⟩, rfl⟩
    refine ⟨?_, rfl⟩
    intro e member
    rcases List.mem_append.mp member with one | other
    · exact former e one
    · exact latter e other

/-- What stands below a key `$ref` asks for nothing. -/
theorem answers_below {document v : Value} {count : Nat} :
    Answers document (placed true v) count ↔ count = 0 := by
  have marked := below_of_mem_placed v
  have none : (placed true v).countP (fun e => !e.2) = 0 := by
    rw [List.countP_eq_zero]
    intro e member
    simp [marked e member]
  unfold Answers
  rw [none]
  constructor
  · exact And.right
  · intro zero
    refine ⟨?_, zero⟩
    intro e member unmarked
    rw [marked e member] at unmarked
    cases unmarked

section Check

variable {document : Value} {count : Nat}

-- The recursion is that of `check`, one case for each of its equations.
mutual

/-- The check succeeds exactly if the references that stand below no key `$ref` resolve, and the
count is that of these references. -/
theorem check_eq_ok : ∀ {v : Value} {count : Nat},
    check document v = .ok count ↔ Answers document (placed false v) count
  | .scalar _, count => by
    rw [check, placed, answers_nil, Except.ok.injEq]
    exact eq_comm
  | .list items, count => by
    rw [check, placed]
    exact checkItems_eq_ok_iff
  | .object fields, count => by
    rw [check, placed, answers_append]
    cases target : target? fields with
    | none =>
      constructor
      · intro success
        obtain ⟨own, here, success⟩ := bind_eq_ok.mp success
        cases here
        obtain ⟨others, inside, success⟩ := bind_eq_ok.mp success
        cases success
        exact ⟨0, others, ⟨by simp, rfl⟩, checkFields_eq_ok_iff.mp inside, rfl⟩
      · rintro ⟨m, others, ⟨-, zero⟩, inside, rfl⟩
        have none : m = 0 := zero
        subst none
        exact bind_eq_ok.mpr ⟨0, rfl, bind_eq_ok.mpr
          ⟨others, checkFields_eq_ok_iff.mpr inside, rfl⟩⟩
    | some ref =>
      constructor
      · intro success
        obtain ⟨v, leads, success⟩ := bind_eq_ok.mp success
        obtain ⟨own, here, success⟩ := bind_eq_ok.mp success
        cases here
        obtain ⟨others, inside, success⟩ := bind_eq_ok.mp success
        cases success
        have resolves : Resolves document ref := ⟨v, leads⟩
        exact ⟨1, others, ⟨by simpa using resolves, rfl⟩, checkFields_eq_ok_iff.mp inside, rfl⟩
      · rintro ⟨m, others, ⟨resolve, single⟩, inside, rfl⟩
        have one : m = 1 := single
        subst one
        obtain ⟨v, leads⟩ := resolve (ref, false) (by simp) rfl
        refine bind_eq_ok.mpr ⟨v, leads, bind_eq_ok.mpr ⟨1, rfl, ?_⟩⟩
        exact bind_eq_ok.mpr ⟨others, checkFields_eq_ok_iff.mpr inside, rfl⟩

theorem checkItems_eq_ok_iff : ∀ {items : List Value} {count : Nat},
    checkItems document items = .ok count ↔ Answers document (placedInItems false items) count
  | [], count => by
    rw [checkItems, placedInItems, answers_nil, Except.ok.injEq]
    exact eq_comm
  | v :: rest, count => by
    rw [checkItems, placedInItems, answers_append]
    constructor
    · intro success
      obtain ⟨others, later, success⟩ := bind_eq_ok.mp success
      obtain ⟨own, first, success⟩ := bind_eq_ok.mp success
      cases success
      exact ⟨own, others, check_eq_ok.mp first, checkItems_eq_ok_iff.mp later, rfl⟩
    · rintro ⟨own, others, first, later, rfl⟩
      exact bind_eq_ok.mpr ⟨others, checkItems_eq_ok_iff.mpr later,
        bind_eq_ok.mpr ⟨own, check_eq_ok.mpr first, rfl⟩⟩

theorem checkFields_eq_ok_iff : ∀ {fields : List (Scalar × Value)} {count : Nat},
    checkFields document fields = .ok count ↔ Answers document (placedInFields false fields) count
  | [], count => by
    rw [checkFields, placedInFields, answers_nil, Except.ok.injEq]
    exact eq_comm
  | (key, v) :: rest, count => by
    rw [checkFields, placedInFields, answers_append, Bool.false_or]
    by_cases special : key = .text "$ref"
    · rw [decide_eq_true special]
      constructor
      · intro success
        obtain ⟨others, later, success⟩ := bind_eq_ok.mp success
        rw [if_pos special] at success
        cases success
        exact ⟨0, count, answers_below.mpr rfl, checkFields_eq_ok_iff.mp later,
          (Nat.zero_add count).symm⟩
      · rintro ⟨own, others, first, later, rfl⟩
        rw [answers_below.mp first, Nat.zero_add]
        exact bind_eq_ok.mpr ⟨others, checkFields_eq_ok_iff.mpr later, if_pos special⟩
    · rw [decide_eq_false special]
      constructor
      · intro success
        obtain ⟨others, later, success⟩ := bind_eq_ok.mp success
        rw [if_neg special] at success
        obtain ⟨own, first, success⟩ := bind_eq_ok.mp success
        cases success
        exact ⟨own, others, check_eq_ok.mp first, checkFields_eq_ok_iff.mp later, rfl⟩
      · rintro ⟨own, others, first, later, rfl⟩
        refine bind_eq_ok.mpr ⟨others, checkFields_eq_ok_iff.mpr later, ?_⟩
        rw [if_neg special]
        exact bind_eq_ok.mpr ⟨own, check_eq_ok.mpr first, rfl⟩

end

end Check

theorem mem_targets_iff {v : Value} {ref : String} :
    ref ∈ targets v ↔ ∃ mark, (ref, mark) ∈ placed false v := by
  rw [← map_fst_placed false v, List.mem_map]
  constructor
  · rintro ⟨⟨ref, mark⟩, member, rfl⟩
    exact ⟨mark, member⟩
  · rintro ⟨mark, member⟩
    exact ⟨(ref, mark), member, rfl⟩

/-- The check of a document answers for all of its references, those of objects at any depth and
under any key, exactly if none of them stands below a key `$ref`, or one that does not stand there
leads nowhere. -/
theorem checkAll_answers_iff (document : Value) :
    (∀ count, checkAll document = .ok count ↔
      (∀ ref ∈ targets document, Resolves document ref) ∧ count = (targets document).length) ↔
    (∀ ref, (ref, true) ∉ placed false document) ∨
      ∃ ref, (ref, false) ∈ placed false document ∧ ¬Resolves document ref := by
  have length : (targets document).length = (placed false document).length := by
    rw [← map_fst_placed false document, List.length_map]
  have checks (count : Nat) : checkAll document = .ok count ↔
      Answers document (placed false document) count := check_eq_ok
  constructor
  · intro answers
    rw [or_iff_not_imp_right]
    intro resolved ref hidden
    -- Without a failure the check counts the references above the key only.
    have all : ∀ e ∈ placed false document, e.2 = false → Resolves document e.1 := by
      rintro ⟨shown, mark⟩ member rfl
      by_contra dangling
      exact resolved ⟨shown, member, dangling⟩
    have success := (checks _).mpr ⟨all, rfl⟩
    have counted := ((answers _).mp success).2
    rw [length, List.countP_eq_length] at counted
    have unmarked := counted (ref, true) hidden
    cases unmarked
  · rintro (shown | ⟨ref, member, dangling⟩) count
    · have unmarked : ∀ e ∈ placed false document, e.2 = false := by
        rintro ⟨ref, mark⟩ member
        cases mark with
        | false => rfl
        | true => exact absurd member (shown ref)
      have whole : (placed false document).countP (fun e => !e.2) =
          (placed false document).length := by
        rw [List.countP_eq_length]
        intro e member
        simp [unmarked e member]
      rw [checks, Answers, whole, length]
      refine and_congr_left fun _ => ?_
      constructor
      · intro each ref member
        obtain ⟨mark, marked⟩ := mem_targets_iff.mp member
        exact each (ref, mark) marked (unmarked _ marked)
      · intro each e member _
        exact each e.1 (mem_targets_iff.mpr ⟨e.2, member⟩)
    · constructor
      · intro success
        exact absurd (((checks count).mp success).1 (ref, false) member rfl) dangling
      · rintro ⟨each, -⟩
        exact absurd (each ref (mem_targets_iff.mpr ⟨false, member⟩)) dangling

/-- A document about links, whose property `$ref` has a schema that leads nowhere. -/
def linkDocument : Value :=
  .object [(.text "definitions", .object [(.text "Link", .object [
    (.text "properties", .object [(.text "$ref", .object [
      (.text "$ref", .text "#/definitions/Missing")])])])])]

/-- The document about links passes with no reference counted, though one of them leads nowhere. -/
theorem checkAll_linkDocument : checkAll linkDocument = .ok 0 ∧
    targets linkDocument = ["#/definitions/Missing"] ∧
    ¬Resolves linkDocument "#/definitions/Missing" := by
  refine ⟨by rfl, by rfl, ?_⟩
  rintro ⟨v, leads⟩
  have missing : resolve linkDocument "#/definitions/Missing" =
      .error (.reference "#/definitions/Missing" .missing) := by cbv
  rw [missing] at leads
  cases leads

end ClientGen.Reference
