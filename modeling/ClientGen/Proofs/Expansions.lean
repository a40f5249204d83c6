import Mathlib
import ClientGen.Proofs.ReferenceChains
import ClientGen.Proofs.SchemaSources

/-!
# Expanded references

To expand a value is to put what its references lead to in their place, again and again
(`Expands`). It comes to an end unless there is an endless way from the value into its parts and
through its references (`Endless`). The expansion finds the one in the first case and fails as
circular in the second (`expand_finite_iff`), and it takes no reference for circular but one that
leads back to itself: the same node may stand in several places of what is found.

An object is expanded entry by entry, and what comes to stand under its key `$ref` is not looked at
again. So there may be references in what is found, in such objects and in no others
(`expand_settled_iff`).
-/
namespace ClientGen

/-- The same scalar, lists of the same length, or objects with the same keys. -/
def Value.Alike : Value → Value → Prop
  | .scalar s, .scalar t => s = t
  | .list items, .list others => items.length = others.length
  | .object fields, .object others => fields.map Prod.fst = others.map Prod.fst
  | _, _ => False

namespace Value

variable {v w u : Value}

theorem Alike.refl (v : Value) : v.Alike v := by
  cases v <;> simp [Alike]

theorem Alike.length_parts (alike : v.Alike w) : v.parts.length = w.parts.length := by
  cases v <;> cases w <;> try exact alike.elim
  · rfl
  · exact alike
  · simpa [parts] using congrArg List.length alike

theorem Alike.eq_of_parts (alike : v.Alike u) (other : v.Alike w) (same : u.parts = w.parts) :
    u = w := by
  cases v <;> cases u <;> try exact alike.elim
  all_goals cases w <;> try exact other.elim
  · exact congrArg scalar (alike.symm.trans other)
  · exact congrArg list same
  · have entries := List.zip_of_prod (other.symm.trans alike) same.symm
    exact congrArg object ((List.zip_of_prod rfl rfl).trans entries.symm)

end Value

namespace Reference

/-- One value is on the way into another: it is what a reference leads to, or it is a part of what
is no reference. -/
inductive Unfolds (document v u : Value) : Prop
  | target (leads : next? document v = some u)
  | part (ends : reference? v = none) (inside : u ∈ v.parts)

def Reaches (document : Value) : Value → Value → Prop :=
  Relation.ReflTransGen (Unfolds document)

/-- There is no end to a way into the value. -/
def Endless (document v : Value) : Prop :=
  ∃ way : Nat → Value, way 0 = v ∧ ∀ n, Unfolds document (way n) (way (n + 1))

/-- The value with all its references replaced is `w`: a reference stands for what its target
stands for, and what is no reference is left alike but for its parts. -/
inductive Expands (document : Value) : Value → Value → Prop
  | target {v u w : Value} (leads : next? document v = some u) (expands : Expands document u w) :
      Expands document v w
  | parts {v w : Value} (ends : reference? v = none) (alike : v.Alike w)
      (each : ∀ pair ∈ v.parts.zip w.parts, Expands document pair.1 pair.2) : Expands document v w

/-- The target of the reference reaches the reference again. -/
def Recurs (document : Value) (ref : String) : Prop :=
  ∃ v u, resolve document ref = .ok v ∧ Reaches document v u ∧ reference? u = some ref

/-- A value is not expanded, after `seen` have been followed to come to it: it reaches a reference
that leads nowhere, that has been followed or that recurs. -/
def Breaks (document : Value) (seen : List String) (v : Value) (e : Failure) : Prop :=
  ∃ u ref, Reaches document v u ∧ reference? u = some ref ∧
    (resolve document ref = .error e ∨
      e = .reference ref .circular ∧ (ref ∈ seen ∨ Recurs document ref))

variable {document v u w x : Value} {seen reach : List String} {ref : String} {e : Failure}

theorem unfolds_of_none (ends : reference? v = none) :
    Unfolds document v u ↔ u ∈ v.parts := by
  constructor
  · rintro (leads | ⟨-, inside⟩)
    · rw [next?_of_none ends] at leads
      cases leads
    · exact inside
  · exact .part ends

theorem unfolds_of_next? (leads : next? document v = some u) :
    Unfolds document v w ↔ w = u := by
  constructor
  · rintro (other | ⟨ends, -⟩)
    · exact Option.some.inj (other.symm.trans leads)
    · rw [next?_of_none ends] at leads
      cases leads
  · rintro rfl
    exact .target leads

theorem expands_iff_of_next? (leads : next? document v = some u) :
    Expands document v w ↔ Expands document u w := by
  constructor
  · rintro (⟨other, expands⟩ | ⟨ends, -, -⟩)
    · rw [leads, Option.some.injEq] at other
      exact other ▸ expands
    · rw [next?_of_none ends] at leads
      cases leads
  · exact .target leads

theorem expands_iff_of_none (ends : reference? v = none) :
    Expands document v w ↔
      v.Alike w ∧ List.Forall₂ (Expands document) v.parts w.parts := by
  constructor
  · rintro (⟨leads, -⟩ | ⟨-, alike, each⟩)
    · rw [next?_of_none ends] at leads
      cases leads
    · exact ⟨alike, List.forall₂_iff_zip.mpr ⟨alike.length_parts, each _⟩⟩
  · rintro ⟨alike, each⟩
    exact .parts ends alike fun pair member => (List.forall₂_iff_zip.mp each).2 member

theorem Breaks.of_unfolds (step : Unfolds document v u) (breaks : Breaks document seen u e) :
    Breaks document seen v e := by
  obtain ⟨w, ref, reached, refers, why⟩ := breaks
  exact ⟨w, ref, .head step reached, refers, why⟩

/-- A reference that is followed and met again recurs. -/
theorem Breaks.of_followed (refers : reference? v = some ref)
    (resolved : resolve document ref = .ok u) (breaks : Breaks document (ref :: seen) u e) :
    Breaks document seen v e := by
  obtain ⟨w, other, reached, refersLast, why⟩ := breaks
  have step : Unfolds document v u := .target (next?_eq_some.mpr ⟨ref, refers, resolved⟩)
  refine ⟨w, other, .head step reached, refersLast, ?_⟩
  rcases why with dangles | ⟨circular, known | recurs⟩
  · exact Or.inl dangles
  · refine Or.inr ⟨circular, ?_⟩
    -- What has been followed here has come up in its own target, or was followed before.
    rcases List.mem_cons.mp known with rfl | known
    · exact Or.inr ⟨u, w, resolved, reached, refersLast⟩
    · exact Or.inl known
  · exact Or.inr ⟨circular, Or.inr recurs⟩

section Expand

def Tells (document : Value) (seen : List String) (v : Value) : Outcome Value → Prop
  | .ok w => Expands document v w
  | .error e => Breaks document seen v e

/-- What an outcome of the expansion of several values tells about them. -/
def TellsAll (document : Value) (seen : List String) (items : List Value) :
    Outcome (List Value) → Prop
  | .ok results => List.Forall₂ (Expands document) items results
  | .error e => ∃ v ∈ items, Breaks document seen v e

variable {hdoc : targets document ⊆ reach}

theorem tellsAll_expandItems {items : List Value} (hitems : targetsOfItems items ⊆ reach)
    (each : ∀ v ∈ items, ∀ hv : targets v ⊆ reach,
      Tells document seen v (expandFrom document reach seen v hdoc hv)) :
    TellsAll document seen items (expandItems document reach seen items hdoc hitems) := by
  induction items with
  | nil =>
    rw [expandItems]
    exact .nil
  | cons v rest ih =>
    obtain ⟨first, others⟩ := List.forall_mem_cons.mp each
    rw [targetsOfItems, List.append_subset] at hitems
    have head := first hitems.1
    have tail := ih hitems.2 others
    rw [expandItems]
    cases one : expandFrom document reach seen v hdoc hitems.1 with
    | error e =>
      rw [one] at head
      exact ⟨v, List.mem_cons_self, head⟩
    | ok w =>
      rw [one] at head
      cases more : expandItems document reach seen rest hdoc hitems.2 with
      | error e =>
        rw [more] at tail
        obtain ⟨u, later, breaks⟩ := tail
        exact ⟨u, List.mem_cons_of_mem v later, breaks⟩
      | ok results =>
        rw [more] at tail
        exact .cons head tail

theorem targetsOfItems_map_snd (fields : Fields) :
    targetsOfItems (fields.map Prod.snd) = targetsOfFields fields := by
  induction fields with
  | nil => rfl
  | cons entry rest ih =>
    obtain ⟨key, v⟩ := entry
    rw [List.map_cons, targetsOfItems, targetsOfFields, ih]

/-- The entries of an object are expanded like the items of a list, and keep their keys. -/
theorem expandFields_eq_map {fields : Fields} (hfields : targetsOfFields fields ⊆ reach)
    (hitems : targetsOfItems (fields.map Prod.snd) ⊆ reach) :
    expandFields document reach seen fields hdoc hfields =
      (expandItems document reach seen (fields.map Prod.snd) hdoc hitems).map
        fun results => (fields.map Prod.fst).zip results := by
  induction fields with
  | nil =>
    simp only [List.map_nil]
    rw [expandFields, expandItems]
    rfl
  | cons entry rest ih =>
    obtain ⟨key, v⟩ := entry
    simp only [List.map_cons] at hitems ⊢
    rw [targetsOfItems, List.append_subset] at hitems
    rw [expandFields, expandItems, ih _ hitems.2]
    cases expandFrom document reach seen v hdoc hitems.1 with
    | error e => rfl
    | ok w =>
      cases expandItems document reach seen (rest.map Prod.snd) hdoc hitems.2 with
      | error e => rfl
      | ok results => rfl

/-- What is no reference is told about by its parts, from which the result is put together. -/
theorem tells_of_parts (ends : reference? v = none) (rebuild : List Value → Value)
    (alike : ∀ results, v.parts.length = results.length →
      v.Alike (rebuild results) ∧ (rebuild results).parts = results)
    {outcome : Outcome (List Value)} (all : TellsAll document seen v.parts outcome) :
    Tells document seen v (outcome.map rebuild) := by
  cases outcome with
  | error e =>
    obtain ⟨u, inside, breaks⟩ := all
    exact breaks.of_unfolds (.part ends inside)
  | ok results =>
    obtain ⟨same, parts⟩ := alike results all.length_eq
    refine (expands_iff_of_none ends).mpr ⟨same, ?_⟩
    rw [parts]
    exact all

/-- A reference that is followed is told about by what it leads to. -/
theorem tells_of_followed {outcome : Outcome Value} (refers : reference? v = some ref)
    (resolved : resolve document ref = .ok u) (told : Tells document (ref :: seen) u outcome) :
    Tells document seen v outcome := by
  cases outcome with
  | error e => exact Breaks.of_followed refers resolved told
  | ok w => exact .target (next?_eq_some.mpr ⟨ref, refers, resolved⟩) told

/-- The expansion finds what a value expands to, or names what the value breaks at. -/
theorem tells_expandFrom (seen : List String) (v : Value) (hv : targets v ⊆ reach) :
    Tells document seen v (expandFrom document reach seen v hdoc hv) := by
  match v with
  | .scalar s =>
    rw [expandFrom]
    exact (expands_iff_of_none rfl).mpr ⟨Value.Alike.refl _, .nil⟩
  | .list items =>
    have hitems : targetsOfItems items ⊆ reach := by simpa [targets] using hv
    have all := tellsAll_expandItems hitems
      fun u (member : u ∈ items) hu => tells_expandFrom seen u hu
    rw [expandFrom]
    exact tells_of_parts (v := .list items) rfl .list (fun results same => ⟨same, rfl⟩) all
  | .object fields =>
    cases target : target? fields with
    | none =>
      have hfields : targetsOfFields fields ⊆ reach :=
        List.Subset.trans (List.subset_append_right _ _) hv
      have hitems : targetsOfItems (fields.map Prod.snd) ⊆ reach := by
        rwa [targetsOfItems_map_snd]
      have all := tellsAll_expandItems hitems
        fun u (member : u ∈ fields.map Prod.snd) hu => tells_expandFrom seen u hu
      have alike : ∀ results, (Value.object fields).parts.length = results.length →
          (Value.object fields).Alike (.object ((fields.map Prod.fst).zip results)) ∧
            (Value.object ((fields.map Prod.fst).zip results)).parts = results := by
        intro results same
        have length : (fields.map Prod.fst).length = results.length := by
          simpa [Value.parts] using same
        exact ⟨(List.map_fst_zip length.le).symm, List.map_snd_zip length.ge⟩
      have told := tells_of_parts (v := .object fields) target _ alike all
      rw [expandFrom_of_none target hfields, expandFields_eq_map hfields hitems]
      cases outcome : expandItems document reach seen (fields.map Prod.snd) hdoc hitems <;>
        rwa [outcome] at told
    | some ref =>
      by_cases known : ref ∈ seen
      · rw [expandFrom_of_seen target known]
        exact ⟨_, ref, .refl, target, Or.inr ⟨rfl, Or.inl known⟩⟩
      · cases resolved : resolve document ref with
        | error e =>
          rw [expandFrom_of_error target known resolved]
          exact ⟨_, ref, .refl, target, Or.inl resolved⟩
        | ok u =>
          have inside : targets u ⊆ reach :=
            List.Subset.trans (targets_resolve_subset resolved) hdoc
          have less : unseen reach (ref :: seen) < unseen reach seen :=
            unseen_cons_lt (hv (target_mem target)) known
          rw [expandFrom_of_ok target known resolved inside]
          exact tells_of_followed target resolved (tells_expandFrom (ref :: seen) u inside)
-- A reference that is followed leaves fewer to follow, and a part weighs less than the whole.
termination_by (unseen reach seen, v.weight)
decreasing_by
  · exact Prod.Lex.right _ (Value.weight_lt_of_mem_parts (v := .list items) member)
  · exact Prod.Lex.right _ (Value.weight_lt_of_mem_parts (v := .object fields) member)
  · exact Prod.Lex.left _ _ less

end Expand

theorem tells_expand (document v : Value) : Tells document [] v (expand document v) :=
  tells_expandFrom [] v (List.subset_append_right _ _)

/-- Parts of alike values are paired. -/
theorem paired_parts (alike : v.Alike w) :
    List.Forall₂ (fun part other => (part, other) ∈ v.parts.zip w.parts) v.parts w.parts :=
  List.forall₂_iff_zip.mpr ⟨alike.length_parts, id⟩

theorem eq_of_forall₂ {α β : Type} {related : α → β → Prop} {xs : List α} {ys zs : List β}
    (first : List.Forall₂ (fun x y => ∀ z, related x z → y = z) xs ys)
    (second : List.Forall₂ related xs zs) : ys = zs := by
  induction first generalizing zs with
  | nil =>
    cases second
    rfl
  | cons unique _ ih =>
    cases second with
    | cons here later => rw [unique _ here, ih later]

/-- A value expands to one value only. -/
theorem Expands.unique (expands : Expands document v w) (other : Expands document v x) : w = x := by
  induction expands generalizing x with
  | target leads _ ih => exact ih ((expands_iff_of_next? leads).mp other)
  | parts ends alike each ih =>
    obtain ⟨alikeOther, others⟩ := (expands_iff_of_none ends).mp other
    have uniques : List.Forall₂ (fun part result => ∀ x, Expands document part x → result = x)
        _ _ := (paired_parts alike).imp fun part result pair x => ih (part, result) pair
    exact alike.eq_of_parts alikeOther (eq_of_forall₂ uniques others)

/-- A value that expands has no endless way into it. -/
theorem Expands.acc (expands : Expands document v w) :
    Acc (fun inner outer => Unfolds document outer inner) v := by
  induction expands with
  | target leads _ ih =>
    constructor
    intro u step
    rw [(unfolds_of_next? leads).mp step]
    exact ih
  | parts ends alike each ih =>
    constructor
    intro u step
    have inside := (unfolds_of_none ends).mp step
    obtain ⟨result, -, pair⟩ := exists_of_forall₂ (paired_parts alike) inside
    exact ih (u, result) pair

theorem endless_iff_not_acc :
    Endless document v ↔ ¬Acc (fun inner outer => Unfolds document outer inner) v :=
  (not_acc_iff_exists_descending_chain
    (r := fun inner outer => Unfolds document outer inner)).symm

theorem acc_of_reaches (acc : Acc (fun inner outer => Unfolds document outer inner) v)
    (reached : Reaches document v u) : Acc (fun inner outer => Unfolds document outer inner) u := by
  induction reached with
  | refl => exact acc
  | tail _ step ih => exact ih.inv step

theorem not_loop_of_acc {α : Type} {related : α → α → Prop} {a : α}
    (acc : Acc (fun inner outer => related outer inner) a) : ¬Relation.TransGen related a a := by
  induction acc with
  | intro a _ ih =>
    intro loop
    obtain ⟨b, first, back⟩ := Relation.TransGen.head'_iff.mp loop
    exact ih b first (Relation.TransGen.tail' back first)

/-- A reference that recurs goes round for ever. -/
theorem endless_of_recurs (reached : Reaches document v u) (refers : reference? u = some ref)
    (recurs : Recurs document ref) : Endless document v := by
  obtain ⟨first, last, resolved, inside, again⟩ := recurs
  have leads : next? document u = some first := next?_eq_some.mpr ⟨ref, refers, resolved⟩
  have back : next? document last = some first := next?_eq_some.mpr ⟨ref, again, resolved⟩
  rw [endless_iff_not_acc]
  intro acc
  -- The target is on the way into itself, which nothing accessible is.
  have below := acc_of_reaches acc (reached.tail (.target leads))
  exact not_loop_of_acc below (Relation.TransGen.tail' inside (.target back))

/-- What is on the way into a value expands if the value does, to a part of the result. -/
theorem Expands.step (expands : Expands document v w) (step : Unfolds document v u) :
    ∃ x, Expands document u x ∧ w.Holds x := by
  rcases step with leads | ⟨ends, inside⟩
  · exact ⟨w, (expands_iff_of_next? leads).mp expands, .refl⟩
  · obtain ⟨-, each⟩ := (expands_iff_of_none ends).mp expands
    obtain ⟨x, part, partner⟩ := exists_of_forall₂ each inside
    exact ⟨x, partner, .single part⟩

theorem Expands.reached (expands : Expands document v w) (reached : Reaches document v u) :
    ∃ x, Expands document u x ∧ w.Holds x := by
  induction reached with
  | refl => exact ⟨w, expands, .refl⟩
  | tail _ step ih =>
    obtain ⟨y, before, outer⟩ := ih
    obtain ⟨x, here, inner⟩ := before.step step
    exact ⟨x, here, outer.trans inner⟩

/-- A value that expands breaks nowhere. -/
theorem Expands.not_breaks (expands : Expands document v w) : ¬Breaks document [] v e := by
  rintro ⟨u, ref, reached, refers, dangles | ⟨-, known | recurs⟩⟩
  · obtain ⟨x, here, -⟩ := expands.reached reached
    cases here with
    | target leads _ =>
      obtain ⟨other, same, resolved⟩ := next?_eq_some.mp leads
      rw [refers, Option.some.injEq] at same
      rw [← same, dangles] at resolved
      cases resolved
    | parts ends _ _ =>
      rw [ends] at refers
      cases refers
  · cases known
  · exact endless_iff_not_acc.mp (endless_of_recurs reached refers recurs) expands.acc

/-- The expansion of a value succeeds exactly with what the value expands to. -/
theorem expand_eq_ok_iff : expand document v = .ok w ↔ Expands document v w := by
  have tells := tells_expand document v
  cases outcome : expand document v with
  | ok result =>
    rw [outcome] at tells
    rw [Except.ok.injEq]
    constructor
    · rintro rfl
      exact tells
    · exact tells.unique
  | error e =>
    rw [outcome] at tells
    constructor
    · intro success
      cases success
    · intro expands
      exact absurd tells expands.not_breaks

/-- Where all references that a value reaches resolve, either the value expands or there is an
endless way into it, through a reference that recurs. -/
theorem expand_cases
    (resolving : ∀ u ref, Reaches document v u → reference? u = some ref → Resolves document ref) :
    (∃ w, expand document v = .ok w) ∨
    ∃ ref, expand document v = .error (.reference ref .circular) ∧ Recurs document ref ∧
      Endless document v := by
  have tells := tells_expand document v
  cases outcome : expand document v with
  | ok w => exact Or.inl ⟨w, rfl⟩
  | error e =>
    rw [outcome] at tells
    obtain ⟨u, ref, reached, refers, dangles | ⟨rfl, known | recurs⟩⟩ := tells
    · obtain ⟨w, resolved⟩ := resolving u ref reached refers
      cases dangles.symm.trans resolved
    · cases known
    · exact Or.inr ⟨ref, rfl, recurs, endless_of_recurs reached refers recurs⟩

/-- Where all references that a value reaches resolve, its expansion finds the value that it expands
to, unless there is an endless way into the value; then it fails as circular. It does so only at a
reference that leads back to itself, and it never fails where everything on the way into the value
expands, however often the same node is met. -/
theorem expand_finite_iff
    (resolving : ∀ u ref, Reaches document v u → reference? u = some ref → Resolves document ref) :
    (∀ w, expand document v = .ok w ↔ Expands document v w) ∧
    ((∃ ref, expand document v = .error (.reference ref .circular)) ↔ Endless document v) ∧
    (Endless document v ↔ ∀ w, ¬Expands document v w) ∧
    (∀ ref, expand document v = .error (.reference ref .circular) → Recurs document ref) ∧
    ((∀ u, Unfolds document v u → ∃ w, expand document u = .ok w) →
      ∃ w, expand document v = .ok w) := by
  have acc_of_ok : ∀ u, (∃ w, expand document u = .ok w) →
      Acc (fun inner outer => Unfolds document outer inner) u := by
    rintro u ⟨w, success⟩
    exact (expand_eq_ok_iff.mp success).acc
  refine ⟨fun w => expand_eq_ok_iff, ?_⟩
  rcases expand_cases resolving with ⟨w, success⟩ | ⟨ref, fails, recurs, endless⟩
  · have finite : ¬Endless document v := by
      rw [endless_iff_not_acc, not_not]
      exact acc_of_ok v ⟨w, success⟩
    have expands := expand_eq_ok_iff.mp success
    refine ⟨?_, ?_, ?_, fun _ => ⟨w, success⟩⟩
    · simp [success, finite]
    · exact iff_of_false finite fun none => none w expands
    · simp [success]
  · refine ⟨iff_of_true ⟨ref, fails⟩ endless, ?_, ?_, ?_⟩
    · refine iff_of_true endless fun w expands => ?_
      exact endless_iff_not_acc.mp endless expands.acc
    · intro other failsToo
      rw [fails] at failsToo
      cases failsToo
      exact recurs
    · intro each
      have acc := Acc.intro v fun u step => acc_of_ok u (each u step)
      exact absurd acc (endless_iff_not_acc.mp endless)

/-- What a value reaches refers to nothing but what the value and the document refer to. -/
theorem targets_reaches {names : List String} (inDocument : targets document ⊆ names)
    (inValue : targets v ⊆ names) (reached : Reaches document v u) : targets u ⊆ names := by
  induction reached with
  | refl => exact inValue
  | @tail outer _ _ step ih =>
    rcases step with leads | ⟨-, inside⟩
    · exact List.Subset.trans (targets_next? leads) inDocument
    · cases outer with
      | scalar s => cases inside
      | list items => exact targets_of_mem_items ih inside
      | object fields =>
        obtain ⟨⟨key, part⟩, member, rfl⟩ := List.mem_map.mp inside
        exact targets_of_mem ih member

/-- All references that a value reaches resolve if its own and those of the document do. -/
theorem reached_resolves (document v : Value)
    (resolving : ∀ ref ∈ targets document ++ targets v, Resolves document ref) (u : Value)
    (ref : String) (reached : Reaches document v u) (refers : reference? u = some ref) :
    Resolves document ref :=
  have inside := targets_reaches (List.subset_append_left _ _) (List.subset_append_right _ _)
    reached
  resolving ref (inside (reference?_mem refers))

def labelValue : Value :=
  .object [(.text "label", .text "dog")]

/-- A document that refers to one label twice, and to a dog that is its own mother. -/
def litterDocument : Value :=
  .object [(.text "pair", .list [referTo "#/tag", referTo "#/tag"]), (.text "tag", labelValue),
    (.text "dog", .object [(.text "mother", referTo "#/dog")])]

theorem expands_label (document : Value) : Expands document labelValue labelValue := by
  have label : Expands document (.text "dog") (.text "dog") := .parts rfl rfl nofun
  exact .parts rfl rfl (by simpa [Value.parts, labelValue] using label)

theorem expands_pair :
    Expands litterDocument (referTo "#/pair") (.list [labelValue, labelValue]) := by
  have tag : Expands litterDocument (referTo "#/tag") labelValue :=
    .target (by decide) (expands_label litterDocument)
  refine .target (by decide : next? _ _ = some (.list [referTo "#/tag", referTo "#/tag"])) ?_
  exact .parts rfl rfl (by simpa [Value.parts] using tag)

theorem endless_dog : Endless litterDocument (referTo "#/dog") := by
  have dog : resolve litterDocument "#/dog" =
      .ok (.object [(.text "mother", referTo "#/dog")]) := rfl
  have inside : Unfolds litterDocument (.object [(.text "mother", referTo "#/dog")])
      (referTo "#/dog") := .part rfl (by simp [Value.parts])
  exact endless_of_recurs .refl rfl ⟨_, _, dog, .single inside, rfl⟩

/-- The label is found in both places; the mothers of the dog have no end. -/
theorem expand_finite_iff_litter :
    (∀ ref ∈ targets litterDocument ++ ["#/pair", "#/dog"], Resolves litterDocument ref) ∧
    expand litterDocument (referTo "#/pair") = .ok (.list [labelValue, labelValue]) ∧
    ∃ ref, expand litterDocument (referTo "#/dog") = .error (.reference ref .circular) := by
  have pair := expand_finite_iff (reached_resolves litterDocument (referTo "#/pair") (by decide))
  have dog := expand_finite_iff (reached_resolves litterDocument (referTo "#/dog") (by decide))
  exact ⟨by decide, (pair.1 _).mpr expands_pair, dog.2.1.mpr endless_dog⟩

/-- A value expands to a text exactly if its chain comes to the text. -/
theorem expands_text_iff {s : String} :
    Expands document v (.text s) ↔ ∃ n, chain document v n = some (.text s) := by
  constructor
  · generalize same : Value.text s = w
    intro expands
    induction expands with
    | target leads _ ih =>
      obtain ⟨n, there⟩ := ih same
      refine ⟨n + 1, ?_⟩
      rw [chain, leads, Option.bind_some, there]
    | @parts v w ends alike _ _ =>
      subst same
      cases v with
      | scalar t => exact ⟨0, congrArg (fun t => some (Value.scalar t)) alike⟩
      | list items => exact alike.elim
      | object fields => exact alike.elim
  · rintro ⟨n, there⟩
    induction n generalizing v with
    | zero =>
      cases there
      exact (expands_iff_of_none rfl).mpr ⟨Value.Alike.refl _, .nil⟩
    | succ n ih =>
      rw [chain, Option.bind_eq_some_iff] at there
      obtain ⟨u, leads, later⟩ := there
      exact .target leads (ih later)

/-- What stands in a result is what some value on the way expands to that is no reference. -/
theorem Expands.origin (expands : Expands document v w) (holds : w.Holds x) :
    ∃ u, Reaches document v u ∧ reference? u = none ∧ Expands document u x := by
  have settled : ∀ {v w}, Expands document v w →
      ∃ u, Reaches document v u ∧ reference? u = none ∧ Expands document u w := by
    intro v w expands
    induction expands with
    | target leads _ ih =>
      obtain ⟨u, reached, ends, here⟩ := ih
      exact ⟨u, .head (.target leads) reached, ends, here⟩
    | parts ends alike each _ => exact ⟨_, .refl, ends, .parts ends alike each⟩
  induction holds with
  | refl => exact settled expands
  | tail _ part ih =>
    obtain ⟨u, reached, ends, whole⟩ := ih
    obtain ⟨-, each⟩ := (expands_iff_of_none ends).mp whole
    obtain ⟨inner, inside, partner⟩ := exists_of_forall₂ each.flip part
    obtain ⟨last, onward, stops, here⟩ := settled partner
    exact ⟨last, (reached.tail (.part ends inside)).trans onward, stops, here⟩

/-- Under each key of a result stands what is under the key of the object expands to. -/
theorem expands_get {fields results : Fields} (ends : target? fields = none)
    (expands : Expands document (.object fields) (.object results)) (key : String) :
    Expands document (fields.get key) (results.get key) := by
  obtain ⟨alike, values⟩ := (expands_iff_of_none (v := .object fields) ends).mp expands
  have keys : fields.map Prod.fst = results.map Prod.fst := alike
  clear ends expands alike
  -- A key that is missing in the one is missing in the other, and reads as null in both.
  have missing : Expands document .null .null :=
    (expands_iff_of_none rfl).mpr ⟨Value.Alike.refl _, .nil⟩
  unfold Fields.get Fields.get?
  induction fields generalizing results with
  | nil =>
    cases results with
    | nil => exact missing
    | cons entry rest => cases keys
  | cons entry rest ih =>
    cases results with
    | nil => cases keys
    | cons other others =>
      obtain ⟨k, v⟩ := entry
      obtain ⟨l, w⟩ := other
      obtain ⟨rfl, below⟩ := List.cons.inj keys
      cases values with
      | cons here later =>
        rw [List.lookup_cons, List.lookup_cons]
        cases Scalar.text key == k with
        | true => exact here
        | false => exact ih later below

theorem target?_eq_some {fields : Fields} :
    target? fields = some ref ↔ fields.get "$ref" = .text ref := by
  unfold target?
  cases fields.get "$ref" with
  | scalar s => cases s <;> simp [Value.text?]
  | list items => simp [Value.text?]
  | object fields => simp [Value.text?]

/-- What holds no reference expands to itself. -/
theorem expands_self (v : Value) (settled : ∀ u, v.Holds u → reference? u = none) :
    Expands document v v := by
  refine (expands_iff_of_none (settled v .refl)).mpr ⟨Value.Alike.refl v, List.forall₂_same.mpr ?_⟩
  intro part inside
  exact expands_self part fun u holds => settled u (.head inside holds)
termination_by v.weight
decreasing_by exact Value.weight_lt_of_mem_parts inside

/-- No reference is left in what a value expands to, and it is not changed by expanding it again,
exactly if the value reaches no object without a reference under whose key `$ref` stands a reference
that comes to a text. -/
theorem expand_settled_iff (success : expand document v = .ok w) :
    ((∀ u, w.Holds u → reference? u = none) ∧ expand document w = .ok w) ↔
      ∀ fields : Fields, Reaches document v (.object fields) → target? fields = none →
        ∀ n s, chain document (fields.get "$ref") n ≠ some (.text s) := by
  have expands := expand_eq_ok_iff.mp success
  constructor
  · rintro ⟨settled, -⟩ fields reached ends n s there
    have text := expands_text_iff.mpr ⟨n, there⟩
    obtain ⟨x, here, holds⟩ := expands.reached reached
    obtain ⟨alike, -⟩ := (expands_iff_of_none (v := .object fields) ends).mp here
    cases x with
    | scalar s => exact alike.elim
    | list items => exact alike.elim
    | object results =>
      have same := (expands_get ends here "$ref").unique text
      have refers : reference? (.object results) = some s := target?_eq_some.mpr same
      rw [settled _ holds] at refers
      cases refers
  · intro apart
    have settled : ∀ u, w.Holds u → reference? u = none := by
      intro u holds
      cases refers : reference? u with
      | none => rfl
      | some s =>
        obtain ⟨results, rfl, target⟩ := reference?_eq_some.mp refers
        obtain ⟨origin, reached, ends, here⟩ := expands.origin holds
        obtain ⟨alike, -⟩ := (expands_iff_of_none ends).mp here
        cases origin with
        | scalar t => exact alike.elim
        | list items => exact alike.elim
        | object fields =>
          have text := expands_get ends here "$ref"
          rw [target?_eq_some.mp target] at text
          obtain ⟨n, there⟩ := expands_text_iff.mp text
          exact absurd there (apart fields reached ends n s)
    exact ⟨settled, expand_eq_ok_iff.mpr (expands_self w settled)⟩

def keptDocument : Value :=
  .object [(.text "kept", .text "#/label"), (.text "label", labelValue)]

theorem next?_kept : next? keptDocument (referTo "#/kept") = some (.text "#/label") := by
  decide

theorem next?_label : next? keptDocument (referTo "#/label") = some labelValue := by
  decide

/-- Where a reference leads to an object without references, none is left. -/
theorem expand_settled_iff_label :
    expand keptDocument (referTo "#/label") = .ok labelValue ∧
    (∀ u, labelValue.Holds u → reference? u = none) ∧
    expand keptDocument labelValue = .ok labelValue := by
  have success : expand keptDocument (referTo "#/label") = .ok labelValue :=
    expand_eq_ok_iff.mpr (.target next?_label (expands_label keptDocument))
  refine ⟨success, (expand_settled_iff success).mpr ?_⟩
  intro fields reached ends n s there
  rcases reached.cases_head with same | ⟨label, first, reached⟩
  · cases same
    cases ends
  rw [(unfolds_of_next? next?_label).mp first] at reached
  rcases reached.cases_head with same | ⟨dog, second, reached⟩
  · cases same
    have missing : Fields.get [(.text "label", .text "dog")] "$ref" = .null := rfl
    have text := expands_text_iff.mpr ⟨n, there⟩
    rw [missing, expands_iff_of_none rfl] at text
    cases text.1
  · have text : dog = .text "dog" := by
      simpa [Value.parts, labelValue] using (unfolds_of_none rfl).mp second
    subst text
    rcases reached.cases_head with same | ⟨part, third, -⟩
    · cases same
    · cases (unfolds_of_none rfl).mp third

/-- An object whose key `$ref` holds a reference to a text becomes a reference itself, and a second
expansion puts what it leads to in its place. -/
theorem expand_leaves_reference :
    expand keptDocument (.object [(.text "$ref", referTo "#/kept")]) = .ok (referTo "#/label") ∧
    reference? (referTo "#/label") = some "#/label" ∧
    expand keptDocument (referTo "#/label") = .ok labelValue := by
  have kept : Expands keptDocument (referTo "#/kept") (.text "#/label") :=
    .target next?_kept (.parts rfl rfl nofun)
  have whole : Expands keptDocument (.object [(.text "$ref", referTo "#/kept")])
      (referTo "#/label") := .parts rfl rfl (by simpa [Value.parts, referTo] using kept)
  exact ⟨expand_eq_ok_iff.mpr whole, rfl,
    expand_eq_ok_iff.mpr (.target next?_label (expands_label keptDocument))⟩

end Reference

end ClientGen
