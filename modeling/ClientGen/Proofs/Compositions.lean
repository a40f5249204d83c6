import Mathlib.Data.List.Forall2
import ClientGen.Model.Build
import ClientGen.Proofs.Runs

/-!
# What the branches of a composition say

Adding a branch to a composition does one of three things (`Composition.Adds`): a reference names a
parent; any other object declares properties, requires some, and may say of what type other keys
are; what is no object says nothing. So the branches together name the parents that they name one by
one, declare all their properties one after another, and require what each of them requires
(`Composition.addAll_ok`).
-/
namespace ClientGen.Model

def ownPart? : Value → Option Fields
  | .object fields => if (Fields.get fields "$ref").isSet then none else some fields
  | _ => none

def declaredEntries (schema : Fields) : List (Scalar × Value) :=
  match entriesOf ((schema.get "properties").orElse (.object [])) with
  | .ok entries => entries
  | .error _ => []

def requiredValues (schema : Fields) : List Value :=
  match ((schema.get "required").orElse (.list [])).elements with
  | .ok required => required
  | .error _ => []

def parentOf? : Value → Option String
  | .object fields =>
    match Naming.classOfRef? (Fields.get fields "$ref") with
    | .ok (some parent) => if parent = "" then none else some parent
    | _ => none
  | _ => none

/-- Properties that are declared after others take their places. -/
def declareAll (fields : Fields) (entries : List (Scalar × Value)) : Fields :=
  entries.foldl (fun fields (k, v) => fields.insert k v) fields

theorem ownPart?_eq_some {branch : Value} {part : Fields} :
    ownPart? branch = some part ↔ branch = .object part ∧ (part.get "$ref").isSet = false := by
  cases branch with
  | object fields =>
    rw [ownPart?, Option.ite_none_left_eq_some, Value.object.injEq]
    constructor
    · rintro ⟨noRef, same⟩
      cases same
      exact ⟨rfl, by simpa using noRef⟩
    · rintro ⟨rfl, noRef⟩
      exact ⟨by simp [noRef], rfl⟩
  | scalar s => simp [ownPart?]
  | list items => simp [ownPart?]

/-- A value that stands in the place of a reference gives a class exactly if it is set. -/
theorem classOfRef?_cases {ref : Value} {parent : Option String}
    (read : Naming.classOfRef? ref = .ok parent) : parent.isSome = ref.isSet := by
  unfold Naming.classOfRef? at read
  split at read
  · rename_i given
    obtain ⟨text, -, read⟩ := bind_eq_ok.mp read
    cases read
    rw [given]
    rfl
  · rename_i missing
    cases read
    simpa using missing

namespace Composition

/-- The type of other keys after a branch: the one that an earlier branch has given, or the one
that this branch gives. -/
def additionalAfter (c : Composition) (path : String) (branch : Fields) :
    Outcome (Option TypeExpr) :=
  match c.additional with
  | some type => .ok (some type)
  | none => additionalTypeOf path branch

/-- What a composition is once a branch has been added. -/
inductive Adds (c : Composition) (path : String) : Value → Composition → Prop
  | parent {fields : Fields} {name : String}
      (names : Naming.classOfRef? (fields.get "$ref") = .ok (some name)) :
      Adds c path (.object fields)
        (if name = "" then c else { c with parents := c.parents ++ [name] })
  | own {fields : Fields} {entries : List (Scalar × Value)} {required : List Value}
      {additional : Option TypeExpr} (noRef : (fields.get "$ref").isSet = false)
      (declares : entriesOf ((fields.get "properties").orElse (.object [])) = .ok entries)
      (requires : ((fields.get "required").orElse (.list [])).elements = .ok required)
      (frees : c.additionalAfter path fields = .ok additional) :
      Adds c path (.object fields) { c with
        properties := declareAll c.properties entries
        required := c.required ++ required
        additional }
  | remark {branch : Value} (noObject : ∀ fields, branch ≠ .object fields) : Adds c path branch c

variable {c next last : Composition} {path : String} {branch : Value}

/-- Of a branch that is no reference three things are read, one after another. -/
theorem addBranch_eq (fields : Fields) : c.addBranch path fields = do
    let entries ← entriesOf ((fields.get "properties").orElse (.object []))
    let required ← ((fields.get "required").orElse (.list [])).elements
    let additional ← c.additionalAfter path fields
    return { c with
      properties := declareAll c.properties entries
      required := c.required ++ required
      additional } := by
  unfold addBranch additionalAfter
  cases c.additional <;> rfl

/-- Adding a branch succeeds in these ways and in no other. -/
theorem add_eq_ok : c.add path branch = .ok next ↔ Adds c path branch next := by
  cases branch with
  | scalar s =>
    constructor
    · intro success
      cases success
      exact .remark (by simp)
    · rintro ⟨⟩
      rfl
  | list items =>
    constructor
    · intro success
      cases success
      exact .remark (by simp)
    · rintro ⟨⟩
      rfl
  | object fields =>
    rw [add]
    constructor
    · intro success
      obtain ⟨parent, read, success⟩ := bind_eq_ok.mp success
      cases parent with
      | some name =>
        cases success
        exact .parent read
      | none =>
        have noRef := classOfRef?_cases read
        rw [addBranch_eq] at success
        obtain ⟨entries, declares, success⟩ := bind_eq_ok.mp success
        obtain ⟨required, requires, success⟩ := bind_eq_ok.mp success
        obtain ⟨additional, frees, success⟩ := bind_eq_ok.mp success
        cases success
        exact .own noRef.symm declares requires frees
    · intro adds
      cases adds with
      | parent names =>
        rw [names]
        rfl
      | own noRef declares requires frees =>
        have unnamed : Naming.classOfRef? (Fields.get fields "$ref") = .ok none := by
          rw [Naming.classOfRef?, noRef]
          rfl
        refine bind_eq_ok.mpr ⟨none, unnamed, ?_⟩
        rw [addBranch_eq, declares, requires, frees]
        rfl
      | remark noObject => exact absurd rfl (noObject fields)

/-- A branch adds what it says, whatever has been said before. -/
theorem Adds.effects (adds : Adds c path branch next) :
    next.parents = c.parents ++ (parentOf? branch).toList ∧
    next.properties = declareAll c.properties ((ownPart? branch).toList.flatMap declaredEntries) ∧
    next.required = c.required ++ (ownPart? branch).toList.flatMap requiredValues := by
  cases adds with
  | @parent fields name names =>
    have reference := classOfRef?_cases names
    have noPart : ownPart? (.object fields) = none := if_pos reference.symm
    rw [noPart, parentOf?, names]
    dsimp only
    split <;> simp [declareAll]
  | @own fields entries required additional noRef declares requires frees =>
    have part : ownPart? (.object fields) = some fields := ownPart?_eq_some.mpr ⟨rfl, noRef⟩
    have noParent : parentOf? (.object fields) = none := by
      rw [parentOf?, Naming.classOfRef?, noRef]
      rfl
    have entered : declaredEntries fields = entries := by rw [declaredEntries, declares]
    have asked : requiredValues fields = required := by rw [requiredValues, requires]
    rw [part, noParent]
    simp [entered, asked]
  | remark noObject =>
    cases branch with
    | object fields => exact absurd rfl (noObject fields)
    | scalar s => simp [parentOf?, ownPart?, declareAll]
    | list items => simp [parentOf?, ownPart?, declareAll]

theorem declareAll_append (fields : Fields) (entries more : List (Scalar × Value)) :
    declareAll fields (entries ++ more) = declareAll (declareAll fields entries) more :=
  List.foldl_append

/-- The branches together add what they say one by one. -/
theorem addAll_ok {start : Nat} {branches : List Value}
    (success : c.addAll path start branches = .ok last) :
    last.parents = c.parents ++ branches.filterMap parentOf? ∧
    last.properties =
      declareAll c.properties ((branches.filterMap ownPart?).flatMap declaredEntries) ∧
    last.required = c.required ++ (branches.filterMap ownPart?).flatMap requiredValues := by
  induction branches generalizing c start with
  | nil =>
    cases success
    simp [declareAll]
  | cons branch rest ih =>
    rw [addAll] at success
    obtain ⟨next, added, success⟩ := bind_eq_ok.mp success
    obtain ⟨parents, properties, required⟩ := (add_eq_ok.mp added).effects
    obtain ⟨allParents, allProperties, allRequired⟩ := ih success
    have whole : ∀ {β : Type} (f : Value → Option β),
        (branch :: rest).filterMap f = (f branch).toList ++ rest.filterMap f := by
      intro β f
      rw [List.filterMap_cons]
      cases f branch <;> rfl
    rw [whole, whole, List.flatMap_append, List.flatMap_append, declareAll_append,
      ← List.append_assoc, ← List.append_assoc, ← parents, ← properties, ← required]
    exact ⟨allParents, allProperties, allRequired⟩

/-- All that a branch says can be read, but perhaps for the type of other keys. -/
def Readable : Value → Prop
  | .object fields =>
    (∃ parent, Naming.classOfRef? (Fields.get fields "$ref") = .ok parent) ∧
      ((Fields.get fields "$ref").isSet = false →
        (∃ entries,
          entriesOf ((Fields.get fields "properties").orElse (.object [])) = .ok entries) ∧
        ∃ required, ((Fields.get fields "required").orElse (.list [])).elements = .ok required)
  | _ => True

theorem Adds.readable (adds : Adds c path branch next) : Readable branch := by
  cases adds with
  | parent names =>
    refine ⟨⟨_, names⟩, fun noRef => ?_⟩
    have reference := classOfRef?_cases names
    rw [noRef] at reference
    cases reference
  | own noRef declares requires frees =>
    refine ⟨⟨none, ?_⟩, fun _ => ⟨⟨_, declares⟩, _, requires⟩⟩
    rw [Naming.classOfRef?, noRef]
    rfl
  | remark noObject =>
    cases branch with
    | object fields => exact absurd rfl (noObject fields)
    | scalar s => trivial
    | list items => trivial

theorem readable_of_addAll {start : Nat} {branches : List Value}
    (success : c.addAll path start branches = .ok last) : ∀ branch ∈ branches, Readable branch := by
  induction branches generalizing c start with
  | nil => simp
  | cons branch rest ih =>
    rw [addAll] at success
    obtain ⟨next, added, success⟩ := bind_eq_ok.mp success
    exact List.forall_mem_cons.mpr ⟨(add_eq_ok.mp added).readable, ih success⟩

theorem exists_add (readable : Readable branch)
    (typed : ∀ part ∈ ownPart? branch, ∃ t, additionalTypeOf path part = .ok t) :
    ∃ next, c.add path branch = .ok next := by
  cases branch with
  | scalar s => exact ⟨c, rfl⟩
  | list items => exact ⟨c, rfl⟩
  | object fields =>
    obtain ⟨⟨parent, names⟩, rest⟩ := readable
    cases parent with
    | some name => exact ⟨_, add_eq_ok.mpr (.parent names)⟩
    | none =>
      have noRef := (classOfRef?_cases names).symm
      obtain ⟨⟨entries, declares⟩, required, requires⟩ := rest noRef
      have frees : ∃ additional, c.additionalAfter path fields = .ok additional := by
        unfold additionalAfter
        split
        · exact ⟨_, rfl⟩
        · exact typed fields (ownPart?_eq_some.mpr ⟨rfl, noRef⟩)
      obtain ⟨additional, frees⟩ := frees
      exact ⟨_, add_eq_ok.mpr (.own noRef declares requires frees)⟩

/-- Branches that can be read make up a composition if each type of other keys can be printed,
wherever it stands. -/
theorem exists_addAll {start : Nat} {branches : List Value}
    (readable : ∀ branch ∈ branches, Readable branch)
    (typed : ∀ part ∈ branches.filterMap ownPart?, ∀ place,
      ∃ t, additionalTypeOf place part = .ok t) :
    ∃ last, c.addAll path start branches = .ok last := by
  induction branches generalizing c start with
  | nil => exact ⟨c, rfl⟩
  | cons branch rest ih =>
    obtain ⟨first, others⟩ := List.forall_mem_cons.mp readable
    rw [addAll]
    refine exists_bind_eq_ok (exists_add first fun part own => ?_) fun next => ?_
    · exact typed part (List.mem_filterMap.mpr ⟨branch, List.mem_cons_self, own⟩) _
    · refine ih others fun part member => ?_
      obtain ⟨other, later, own⟩ := List.mem_filterMap.mp member
      exact typed part (List.mem_filterMap.mpr ⟨other, List.mem_cons_of_mem _ later, own⟩)

end Composition

end ClientGen.Model
