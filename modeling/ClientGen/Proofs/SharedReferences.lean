import ClientGen.Proofs.Runs
import ClientGen.Reference.Check
import ClientGen.Reference.Expand

/-!
# References in two documents

Checking, following and expanding go by the references of the document alone. Where two documents
resolve all references of the first one alike, a value whose references are among these is checked,
followed and expanded alike in both.
-/
namespace ClientGen.Reference

/-- The document `other` resolves the references of `document` in the same way. -/
def Shares (document other : Value) : Prop :=
  ∀ ref ∈ targets document, resolve other ref = resolve document ref

theorem target_mem {fields : Fields} {ref : String} (target : target? fields = some ref) :
    ref ∈ targets (.object fields) := by
  simp [targets, target]

section Parts

variable {names : List String} {fields : Fields} {v : Value}

/-- What stands in an object refers to nothing but what the object refers to. -/
theorem targets_of_mem (inside : targets (.object fields) ⊆ names) {key : Scalar}
    (member : (key, v) ∈ fields) : targets v ⊆ names := by
  rw [targets, List.append_subset] at inside
  refine List.Subset.trans ?_ inside.2
  clear inside
  induction fields with
  | nil => cases member
  | cons entry rest ih =>
    obtain ⟨k, w⟩ := entry
    rw [targetsOfFields]
    rcases List.mem_cons.mp member with here | later
    · cases here
      exact List.subset_append_left _ _
    · exact List.Subset.trans (ih later) (List.subset_append_right _ _)

theorem targets_get (inside : targets (.object fields) ⊆ names) (key : String) :
    targets (fields.get key) ⊆ names := by
  rw [targets, List.append_subset] at inside
  unfold Fields.get
  cases found : fields.get? key with
  | none => exact List.nil_subset names
  | some v => exact List.Subset.trans (targets_get?_subset found) inside.2

theorem targets_orElse (inside : targets v ⊆ names) {fallback : Value}
    (none : targets fallback = []) : targets (v.orElse fallback) ⊆ names := by
  unfold Value.orElse
  split
  · exact inside
  · rw [none]
    exact List.nil_subset names

theorem targets_of_mem_items {items : List Value} (inside : targetsOfItems items ⊆ names)
    (member : v ∈ items) : targets v ⊆ names := by
  induction items with
  | nil => cases member
  | cons w rest ih =>
    rw [targetsOfItems, List.append_subset] at inside
    rcases List.mem_cons.mp member with rfl | later
    · exact inside.1
    · exact ih inside.2 later

/-- The items of a value refer to nothing but what the value refers to. -/
theorem targets_of_mem_elements (inside : targets v ⊆ names) {items : List Value}
    (listed : v.elements = .ok items) {item : Value} (member : item ∈ items) :
    targets item ⊆ names := by
  cases v with
  | list own =>
    cases listed
    rw [targets] at inside
    exact targets_of_mem_items inside member
  | object fields =>
    cases listed
    obtain ⟨entry, -, rfl⟩ := List.mem_map.mp member
    exact List.nil_subset names
  | scalar s =>
    cases s with
    | text s =>
      cases listed
      obtain ⟨c, -, rfl⟩ := List.mem_map.mp member
      exact List.nil_subset names
    | null | bool _ | int _ | float _ | date _ => cases listed

end Parts

section Steps

variable {document : Value} {reach seen : List String} {fields : Fields} {ref : String}
  {hdoc : targets document ⊆ reach} {hnode : targets (.object fields) ⊆ reach}

theorem followFrom_of_none (target : target? fields = none) :
    followFrom document reach seen (.object fields) hdoc hnode = .ok (.object fields) := by
  rw [followFrom]
  split
  · rfl
  · rename_i found
    cases target.symm.trans found

theorem followFrom_of_seen (target : target? fields = some ref) (known : ref ∈ seen) :
    followFrom document reach seen (.object fields) hdoc hnode =
      .error (.reference ref .circular) := by
  rw [followFrom]
  split
  · rename_i missing
    cases target.symm.trans missing
  · rename_i found
    cases target.symm.trans found
    exact dif_pos known

theorem followFrom_of_error {e : Failure} (target : target? fields = some ref) (new : ref ∉ seen)
    (failed : resolve document ref = .error e) :
    followFrom document reach seen (.object fields) hdoc hnode = .error e := by
  rw [followFrom]
  split
  · rename_i missing
    cases target.symm.trans missing
  · rename_i found
    cases target.symm.trans found
    rw [dif_neg new]
    split
    · rename_i failing
      cases failed.symm.trans failing
      rfl
    · rename_i resolved
      cases failed.symm.trans resolved

theorem followFrom_of_ok {v : Value} (target : target? fields = some ref) (new : ref ∉ seen)
    (resolved : resolve document ref = .ok v) (inside : targets v ⊆ reach) :
    followFrom document reach seen (.object fields) hdoc hnode =
      followFrom document reach (ref :: seen) v hdoc inside := by
  rw [followFrom]
  split
  · rename_i missing
    cases target.symm.trans missing
  · rename_i found
    cases target.symm.trans found
    rw [dif_neg new]
    split
    · rename_i failed
      cases resolved.symm.trans failed
    · rename_i again
      cases resolved.symm.trans again
      rfl

theorem expandFrom_of_none (target : target? fields = none)
    (inside : targetsOfFields fields ⊆ reach) :
    expandFrom document reach seen (.object fields) hdoc hnode =
      (do return .object (← expandFields document reach seen fields hdoc inside)) := by
  rw [expandFrom]
  split
  · rename_i found
    cases target.symm.trans found
  · rfl

theorem expandFrom_of_seen (target : target? fields = some ref) (known : ref ∈ seen) :
    expandFrom document reach seen (.object fields) hdoc hnode =
      .error (.reference ref .circular) := by
  rw [expandFrom]
  split
  · rename_i found
    cases target.symm.trans found
    exact dif_pos known
  · rename_i missing
    cases target.symm.trans missing

theorem expandFrom_of_error {e : Failure} (target : target? fields = some ref) (new : ref ∉ seen)
    (failed : resolve document ref = .error e) :
    expandFrom document reach seen (.object fields) hdoc hnode = .error e := by
  rw [expandFrom]
  split
  · rename_i found
    cases target.symm.trans found
    rw [dif_neg new]
    split
    · rename_i failing
      cases failed.symm.trans failing
      rfl
    · rename_i resolved
      cases failed.symm.trans resolved
  · rename_i missing
    cases target.symm.trans missing

theorem expandFrom_of_ok {v : Value} (target : target? fields = some ref) (new : ref ∉ seen)
    (resolved : resolve document ref = .ok v) (inside : targets v ⊆ reach) :
    expandFrom document reach seen (.object fields) hdoc hnode =
      expandFrom document reach (ref :: seen) v hdoc inside := by
  rw [expandFrom]
  split
  · rename_i found
    cases target.symm.trans found
    rw [dif_neg new]
    split
    · rename_i failed
      cases resolved.symm.trans failed
    · rename_i again
      cases resolved.symm.trans again
      rfl
  · rename_i missing
    cases target.symm.trans missing

end Steps

section Shared

variable {document other : Value} {reach otherReach : List String}

/-- Two documents that share their references follow them alike, step by step. -/
theorem followFrom_eq (shares : Shares document other) (hdoc : targets document ⊆ reach)
    (otherDoc : targets other ⊆ otherReach) (seen : List String) (node : Value)
    (hnode : targets node ⊆ reach) (otherNode : targets node ⊆ otherReach)
    (inside : targets node ⊆ targets document) :
    followFrom other otherReach seen node otherDoc otherNode =
      followFrom document reach seen node hdoc hnode := by
  cases node with
  | scalar s => rw [followFrom, followFrom] <;> simp
  | list items => rw [followFrom, followFrom] <;> simp
  | object fields =>
    cases target : target? fields with
    | none => rw [followFrom_of_none target, followFrom_of_none target]
    | some ref =>
      by_cases known : ref ∈ seen
      · rw [followFrom_of_seen target known, followFrom_of_seen target known]
      · have same := shares ref (inside (target_mem target))
        cases resolved : resolve document ref with
        | error e =>
          rw [followFrom_of_error target known resolved,
            followFrom_of_error target known (same.trans resolved)]
        | ok v =>
          have within := targets_resolve_subset resolved
          have otherWithin := targets_resolve_subset (same.trans resolved)
          rw [followFrom_of_ok target known resolved (List.Subset.trans within hdoc),
            followFrom_of_ok target known (same.trans resolved)
              (List.Subset.trans otherWithin otherDoc)]
          exact followFrom_eq shares hdoc otherDoc (ref :: seen) v _ _ within
termination_by unseen reach seen
decreasing_by exact unseen_cons_lt (hnode (target_mem target)) known

theorem follow_eq (shares : Shares document other) {node : Value}
    (inside : targets node ⊆ targets document) : follow other node = follow document node :=
  followFrom_eq shares _ _ [] node _ _ inside

mutual

/-- Two documents that share their references expand them alike. -/
theorem expandFrom_eq (shares : Shares document other) (hdoc : targets document ⊆ reach)
    (otherDoc : targets other ⊆ otherReach) (seen : List String) :
    ∀ (v : Value) (hv : targets v ⊆ reach) (otherValue : targets v ⊆ otherReach),
      targets v ⊆ targets document →
      expandFrom other otherReach seen v otherDoc otherValue =
        expandFrom document reach seen v hdoc hv
  | .scalar s, _, _, _ => by rw [expandFrom, expandFrom]
  | .list items, hv, otherValue, inside => by
    rw [expandFrom, expandFrom]
    rw [targets] at hv otherValue inside
    have same := expandItems_eq shares hdoc otherDoc seen items hv otherValue inside
    exact congrArg (fun step : Outcome (List Value) => do return Value.list (← step)) same
  | .object fields, hv, otherValue, inside => by
    have parts : targetsOfFields fields ⊆ targets (.object fields) :=
      List.subset_append_right _ _
    cases target : target? fields with
    | none =>
      rw [expandFrom_of_none target (List.Subset.trans parts hv),
        expandFrom_of_none target (List.Subset.trans parts otherValue),
        expandFields_eq shares hdoc otherDoc seen fields _ _ (List.Subset.trans parts inside)]
    | some ref =>
      by_cases known : ref ∈ seen
      · rw [expandFrom_of_seen target known, expandFrom_of_seen target known]
      · have same := shares ref (inside (target_mem target))
        cases resolved : resolve document ref with
        | error e =>
          rw [expandFrom_of_error target known resolved,
            expandFrom_of_error target known (same.trans resolved)]
        | ok w =>
          have within := targets_resolve_subset resolved
          have otherWithin := targets_resolve_subset (same.trans resolved)
          rw [expandFrom_of_ok target known resolved (List.Subset.trans within hdoc),
            expandFrom_of_ok target known (same.trans resolved)
              (List.Subset.trans otherWithin otherDoc)]
          exact expandFrom_eq shares hdoc otherDoc (ref :: seen) w _ _ within
termination_by v => (unseen reach seen, 2 * v.weight)
decreasing_by
  · exact Prod.Lex.right _ (by simp only [Value.weight]; omega)
  · exact Prod.Lex.right _ (by simp only [Value.weight]; omega)
  · exact Prod.Lex.left _ _ (unseen_cons_lt (hv (target_mem target)) known)

theorem expandItems_eq (shares : Shares document other) (hdoc : targets document ⊆ reach)
    (otherDoc : targets other ⊆ otherReach) (seen : List String) :
    ∀ (items : List Value) (hv : targetsOfItems items ⊆ reach)
      (otherValue : targetsOfItems items ⊆ otherReach),
      targetsOfItems items ⊆ targets document →
      expandItems other otherReach seen items otherDoc otherValue =
        expandItems document reach seen items hdoc hv
  | [], _, _, _ => by rw [expandItems, expandItems]
  | v :: rest, _, _, inside => by
    rw [targetsOfItems, List.append_subset] at inside
    rw [expandItems, expandItems, expandFrom_eq shares hdoc otherDoc seen v _ _ inside.1,
      expandItems_eq shares hdoc otherDoc seen rest _ _ inside.2]
termination_by items => (unseen reach seen, 2 * Value.weightItems items + 1)
decreasing_by
  all_goals simp only [Value.weightItems]
  all_goals have := Value.weight_pos v
  all_goals exact Prod.Lex.right _ (by omega)

theorem expandFields_eq (shares : Shares document other) (hdoc : targets document ⊆ reach)
    (otherDoc : targets other ⊆ otherReach) (seen : List String) :
    ∀ (fields : Fields) (hv : targetsOfFields fields ⊆ reach)
      (otherValue : targetsOfFields fields ⊆ otherReach),
      targetsOfFields fields ⊆ targets document →
      expandFields other otherReach seen fields otherDoc otherValue =
        expandFields document reach seen fields hdoc hv
  | [], _, _, _ => by rw [expandFields, expandFields]
  | (key, v) :: rest, _, _, inside => by
    rw [targetsOfFields, List.append_subset] at inside
    rw [expandFields, expandFields, expandFrom_eq shares hdoc otherDoc seen v _ _ inside.1,
      expandFields_eq shares hdoc otherDoc seen rest _ _ inside.2]
termination_by fields => (unseen reach seen, 2 * Value.weightFields fields + 1)
decreasing_by
  all_goals simp only [Value.weightFields]
  all_goals exact Prod.Lex.right _ (by omega)

end

theorem expand_eq (shares : Shares document other) {v : Value}
    (inside : targets v ⊆ targets document) : expand other v = expand document v :=
  expandFrom_eq shares _ _ [] v _ _ inside

mutual

/-- Two documents that share their references check them alike. -/
theorem check_eq (shares : Shares document other) (v : Value)
    (inside : targets v ⊆ targets document) : check other v = check document v := by
  cases v with
  | scalar s => rw [check, check]
  | list items =>
    rw [targets] at inside
    rw [check, check, checkItems_eq shares items inside]
  | object fields =>
    have parts : targetsOfFields fields ⊆ targets document :=
      List.Subset.trans (List.subset_append_right _ _) inside
    rw [check, check, checkFields_eq shares fields parts]
    cases target : target? fields with
    | none => rfl
    | some ref => simp only [shares ref (inside (target_mem target))]

theorem checkItems_eq (shares : Shares document other) (items : List Value)
    (inside : targetsOfItems items ⊆ targets document) :
    checkItems other items = checkItems document items := by
  cases items with
  | nil => rw [checkItems, checkItems]
  | cons v rest =>
    rw [targetsOfItems, List.append_subset] at inside
    rw [checkItems, checkItems, check_eq shares v inside.1, checkItems_eq shares rest inside.2]

theorem checkFields_eq (shares : Shares document other) (fields : Fields)
    (inside : targetsOfFields fields ⊆ targets document) :
    checkFields other fields = checkFields document fields := by
  cases fields with
  | nil => rw [checkFields, checkFields]
  | cons entry rest =>
    obtain ⟨key, v⟩ := entry
    rw [targetsOfFields, List.append_subset] at inside
    rw [checkFields, checkFields, check_eq shares v inside.1, checkFields_eq shares rest inside.2]

end

def Checks (document v : Value) : Prop :=
  ∃ count, check document v = .ok count

theorem checkFields_eq_ok {fields : Fields} :
    (∃ count, checkFields document fields = .ok count) ↔
      ∀ k v, (k, v) ∈ fields → k ≠ .text "$ref" → Checks document v := by
  induction fields with
  | nil => simp [checkFields]
  | cons entry rest ih =>
    obtain ⟨key, w⟩ := entry
    rw [checkFields]
    constructor
    · rintro ⟨count, success⟩
      obtain ⟨others, tail, success⟩ := bind_eq_ok.mp success
      have later := ih.mp ⟨others, tail⟩
      intro k v member ordinary
      rcases List.mem_cons.mp member with here | after
      · cases here
        rw [if_neg ordinary] at success
        obtain ⟨own, head, -⟩ := bind_eq_ok.mp success
        exact ⟨own, head⟩
      · exact later k v after ordinary
    · intro each
      obtain ⟨others, tail⟩ := ih.mpr fun k v after => each k v (List.mem_cons_of_mem _ after)
      by_cases special : key = .text "$ref"
      · exact ⟨others, bind_eq_ok.mpr ⟨others, tail, if_pos special⟩⟩
      · obtain ⟨own, head⟩ := each key w List.mem_cons_self special
        refine ⟨own + others, bind_eq_ok.mpr ⟨others, tail, ?_⟩⟩
        rw [if_neg special]
        exact bind_eq_ok.mpr ⟨own, head, rfl⟩

/-- An object passes if its own reference resolves and all its entries pass. -/
theorem checks_object {fields : Fields} :
    Checks document (.object fields) ↔
      (∀ ref, target? fields = some ref → ∃ v, resolve document ref = .ok v) ∧
      ∀ k v, (k, v) ∈ fields → k ≠ .text "$ref" → Checks document v := by
  rw [← checkFields_eq_ok]
  unfold Checks
  simp only [check]
  cases target : target? fields with
  | none =>
    constructor
    · rintro ⟨count, success⟩
      obtain ⟨own, -, success⟩ := bind_eq_ok.mp success
      obtain ⟨others, inside, -⟩ := bind_eq_ok.mp success
      refine ⟨?_, others, inside⟩
      intro ref found
      cases found
    · rintro ⟨-, others, inside⟩
      exact ⟨0 + others, bind_eq_ok.mpr ⟨0, rfl, bind_eq_ok.mpr ⟨others, inside, rfl⟩⟩⟩
  | some ref =>
    constructor
    · rintro ⟨count, success⟩
      obtain ⟨v, leads, success⟩ := bind_eq_ok.mp success
      obtain ⟨own, -, success⟩ := bind_eq_ok.mp success
      obtain ⟨others, inside, -⟩ := bind_eq_ok.mp success
      refine ⟨?_, others, inside⟩
      intro found same
      cases same
      exact ⟨v, leads⟩
    · rintro ⟨resolves, others, inside⟩
      obtain ⟨v, leads⟩ := resolves ref rfl
      refine ⟨1 + others, bind_eq_ok.mpr ⟨v, leads, ?_⟩⟩
      exact bind_eq_ok.mpr ⟨1, rfl, bind_eq_ok.mpr ⟨others, inside, rfl⟩⟩

theorem Checks.shared (shares : Shares document other) {v : Value}
    (inside : targets v ⊆ targets document) (checks : Checks document v) : Checks other v := by
  obtain ⟨count, success⟩ := checks
  exact ⟨count, (check_eq shares v inside).trans success⟩

end Shared

end ClientGen.Reference
