import ClientGen.Model.Link
import ClientGen.Proofs.Dependencies
import ClientGen.Proofs.Runs

/-!
# Linked models

Linking goes through the table once and writes on both sides: a model takes the class names of its
parents, and each of its parents takes the model as a subclass. One step is the same as looking up
the parents of its model in the table as it was, and one more model among the subclasses
(`linkModel_halfway`). So is the whole run: parents and subclasses can be read off the table as it
was before any model was linked (`link_eq_linkedTable`).
-/
namespace ClientGen

def ModelBody.withParents (parents : List String) : ModelBody → ModelBody
  | .object _ properties additional => .object parents properties additional
  | body => body

namespace Model

def withSubclasses (m : Model) (subclasses : List String) : Model := { m with subclasses }

@[simp] theorem className_withSubclasses (m : Model) (subclasses : List String) :
    (m.withSubclasses subclasses).className = m.className := rfl

@[simp] theorem body_withSubclasses (m : Model) (subclasses : List String) :
    (m.withSubclasses subclasses).body = m.body := rfl

@[simp] theorem subclasses_withSubclasses (m : Model) (subclasses : List String) :
    (m.withSubclasses subclasses).subclasses = subclasses := rfl

@[simp] theorem withSubclasses_withSubclasses (m : Model) (subclasses others : List String) :
    (m.withSubclasses subclasses).withSubclasses others = m.withSubclasses others := rfl

theorem withParents_eq (m : Model) (parents : List String) :
    m.withParents parents = { m with body := m.body.withParents parents } := by
  cases m with
  | mk name className fileStem description body =>
    cases body <;> rfl

@[simp] theorem className_withParents (m : Model) (parents : List String) :
    (m.withParents parents).className = m.className := by
  rw [withParents_eq]

@[simp] theorem subclasses_withParents (m : Model) (parents : List String) :
    (m.withParents parents).subclasses = m.subclasses := by
  rw [withParents_eq]

@[simp] theorem body_withParents (m : Model) (parents : List String) :
    (m.withParents parents).body = m.body.withParents parents := by
  rw [withParents_eq]

theorem withParents_self {m : Model} {parents : List String} (own : m.parents = parents) :
    m.withParents parents = m := by
  subst own
  cases m with
  | mk name className fileStem description body =>
    cases body <;> rfl

theorem parents_withParents (m : Model) (parents : List String) :
    (m.withParents parents).parents = parents ∨ (m.withParents parents).parents = [] := by
  cases m with
  | mk name className fileStem description body =>
    cases body with
    | object => exact .inl rfl
    | enum | array | simple | union => exact .inr rfl

/-- Only interfaces have parents. -/
theorem kind_of_parents {m : Model} (extending : m.parents ≠ []) : m.kind = .object := by
  cases m with
  | mk name className fileStem description body =>
    cases body with
    | object => rfl
    | enum | array | simple | union => exact absurd rfl extending

end Model

namespace Models

/-- The class name under the key of a parent. -/
def lookupParent (models : Table Model) (name parent : String) : Outcome String :=
  match models.get? (Naming.key parent) with
  | some target => .ok target.className
  | none => .error (.unknownParent name parent)

theorem lookupParent_eq_ok {models : Table Model} {name parent className : String} :
    lookupParent models name parent = .ok className ↔
      ∃ d, models.get? (Naming.key parent) = some d ∧ d.className = className := by
  unfold lookupParent
  cases models.get? (Naming.key parent) <;> simp

/-- Every parent is found, or it is unknown. -/
theorem lookupParent_eq_error {models : Table Model} {name parent : String} {failure : Failure} :
    lookupParent models name parent = .error failure ↔
      models.get? (Naming.key parent) = none ∧ failure = .unknownParent name parent := by
  unfold lookupParent
  cases models.get? (Naming.key parent) <;> simp [eq_comm]

def linkedParents (models : Table Model) (m : Model) : Outcome (List String) :=
  m.parents.mapM (lookupParent models m.name)

/-- The classes that name a parent with a key. -/
def subclassesOf (extending : List Model) (key : String) : List String :=
  (extending.filter fun m => m.parents.any fun parent => Naming.key parent == key).map
    Model.className

/-- A model with its parents and its subclasses, as the table of all models tells them. -/
def linkedModel (models : Table Model) (extending : List Model) (key : String) (m : Model) :
    Model :=
  (m.withSubclasses (subclassesOf extending key)).withParents
    ((linkedParents models m).toOption.getD [])

/-- Every model linked as the table tells; the first unknown parent is a failure. -/
def linkedTable (models : Table Model) : Outcome (Table Model) := do
  let _ ← models.values.mapM (linkedParents models)
  return models.mapEntries (linkedModel models models.values)

variable {models : Table Model} {m : Model} {key className : String}
  {todo done : List (String × Model)}

section Registering

@[simp] theorem className_addSubclass (className : String) (m : Model) :
    (addSubclass className m).className = m.className := by
  unfold addSubclass
  split <;> rfl

@[simp] theorem addSubclass_addSubclass (className : String) (m : Model) :
    addSubclass className (addSubclass className m) = addSubclass className m := by
  unfold addSubclass
  split <;> simp [*]

/-- Every model whose key is that of one of the parents has the class as a subclass. -/
def registered (models : Table Model) (className : String) (parents : List String) : Table Model :=
  models.mapEntries fun key m =>
    if key ∈ parents.map Naming.key then addSubclass className m else m

theorem registered_cons (models : Table Model) (className parent : String) (rest : List String) :
    registered (models.modify (Naming.key parent) (addSubclass className)) className rest =
      registered models className (parent :: rest) := by
  rw [registered, registered, Table.modify_eq_mapEntries, Table.mapEntries_mapEntries]
  refine Table.mapEntries_congr fun key m _ => ?_
  simp only [List.map_cons, List.mem_cons]
  by_cases here : key = Naming.key parent <;> by_cases later : key ∈ rest.map Naming.key <;>
    simp [here, later]

/-- A parent is found by class names alone. -/
theorem lookupParent_mapEntries {f : String → Model → Model}
    (name : String) (same : ∀ key m, (f key m).className = m.className) :
    lookupParent (models.mapEntries f) name = lookupParent models name := by
  funext parent
  rw [lookupParent, lookupParent, Table.get?_mapEntries]
  cases models.get? (Naming.key parent) with
  | none => rfl
  | some target => exact congrArg Except.ok (same ..)

/-- The parents are looked up in the table as it was, and all of them take the subclass. -/
theorem linkParents_eq (m : Model) (models : Table Model) (parents : List String) :
    linkParents m models parents = (parents.mapM (lookupParent models m.name)).map fun names =>
      (registered models m.className parents, names) := by
  induction parents generalizing models with
  | nil =>
    have unchanged : registered models m.className [] = models :=
      Table.mapEntries_eq_self fun _ _ _ => rfl
    exact congrArg (fun t => Except.ok (t, [])) unchanged.symm
  | cons parent rest ih =>
    have found : lookupParent (models.modify (Naming.key parent) (addSubclass m.className)) m.name =
        lookupParent models m.name := by
      rw [Table.modify_eq_mapEntries]
      refine lookupParent_mapEntries _ fun key d => ?_
      split
      · exact className_addSubclass ..
      · rfl
    rw [linkParents, List.mapM_cons, lookupParent]
    cases models.get? (Naming.key parent) with
    | none => rfl
    | some target =>
      dsimp only
      rw [ih, found, registered_cons]
      cases rest.mapM (lookupParent models m.name) <;> rfl

end Registering

section Steps

/-- A model without parents can be linked as the others are. -/
theorem linkModel_of_present (present : models.get? key = some m) :
    linkModel models key = (linkParents m models m.parents).map fun (after, names) =>
      after.modify key (·.withParents names) := by
  rw [linkModel, present]
  dsimp only
  split
  · rename_i alone
    have none : m.parents = [] := by
      by_contra extending
      exact alone.elim (absurd (Model.kind_of_parents extending)) extending
    have unchanged : models.modify key (·.withParents []) = models := by
      rw [Table.modify_eq_mapEntries]
      refine Table.mapEntries_eq_self fun other d found => ?_
      split
      · rename_i same
        rw [same, present] at found
        cases found
        exact Model.withParents_self none
      · rfl
    rw [none]
    exact congrArg Except.ok unchanged.symm
  · cases linkParents m models m.parents <;> rfl

theorem withSubclasses_linkedModel (models : Table Model) (extending : List Model) (key : String)
    (m : Model) (subclasses : List String) :
    (linkedModel models extending key m).withSubclasses subclasses =
      (m.withSubclasses subclasses).withParents ((linkedParents models m).toOption.getD []) := by
  rw [linkedModel, Model.withParents_eq, Model.withParents_eq]
  rfl

/-- A model once some entries have been gone through: their models are registered, and it is linked
itself if it is one of them. -/
def halfwayModel (models : Table Model) (done : List (String × Model)) (key : String) (m : Model) :
    Model :=
  if key ∈ done.map Prod.fst then linkedModel models (done.map Prod.snd) key m
  else m.withSubclasses (subclassesOf (done.map Prod.snd) key)

def halfway (models : Table Model) (done : List (String × Model)) : Table Model :=
  models.mapEntries (halfwayModel models done)

theorem className_halfwayModel (key : String) (m : Model) :
    (halfwayModel models done key m).className = m.className := by
  unfold halfwayModel
  split
  · simp [linkedModel]
  · simp

theorem subclasses_halfwayModel (models : Table Model) (done : List (String × Model))
    (key : String) (m : Model) :
    (halfwayModel models done key m).subclasses = subclassesOf (done.map Prod.snd) key := by
  unfold halfwayModel
  split
  · simp [linkedModel]
  · simp

/-- A further model is registered with all others, and is linked itself. -/
theorem halfwayModel_concat {names : List String} (undone : key ∉ done.map Prod.fst)
    (present : models.get? key = some m) (linked : linkedParents models m = .ok names)
    {other : String} {d : Model} (among : models.get? other = some d) :
    (if other = key then
      ((halfwayModel models done other d).withSubclasses
        (subclassesOf (done.map Prod.snd ++ [m]) other)).withParents names
    else (halfwayModel models done other d).withSubclasses
      (subclassesOf (done.map Prod.snd ++ [m]) other)) =
      halfwayModel models (done ++ [(key, m)]) other d := by
  simp only [halfwayModel, List.map_append, List.map_cons, List.map_nil, List.mem_append,
    List.mem_singleton]
  by_cases here : other = key
  · subst other
    rw [present] at among
    cases among
    simp only [undone, or_true, if_true, if_false, Model.withSubclasses_withSubclasses,
      linkedModel, linked]
    rfl
  · by_cases earlier : other ∈ done.map Prod.fst
    · simp only [here, earlier, or_false, if_true, if_false, withSubclasses_linkedModel]
      rfl
    · simp only [here, earlier, or_false, if_false, Model.withSubclasses_withSubclasses]

/-- One more model is a subclass under the keys of its parents. -/
theorem subclassesOf_concat (extending : List Model) (m : Model) (key : String) :
    subclassesOf (extending ++ [m]) key = subclassesOf extending key ++
      if key ∈ m.parents.map Naming.key then [m.className] else [] := by
  rw [subclassesOf, List.filter_append, List.map_append]
  refine congrArg (subclassesOf extending key ++ ·) ?_
  have test : (m.parents.any fun parent => Naming.key parent == key) = true ↔
      key ∈ m.parents.map Naming.key := by
    simp
  by_cases extended : key ∈ m.parents.map Naming.key
  · simp [extended, test.mpr extended]
  · simp [extended, mt test.mp extended]

/-- Registering a class that is no subclass yet puts it behind the subclasses. -/
theorem addSubclass_of_concat {extending : List Model} {d : Model}
    (own : d.subclasses = subclassesOf extending key)
    (fresh : m.className ∉ subclassesOf extending key) :
    (if key ∈ m.parents.map Naming.key then addSubclass m.className d else d) =
      d.withSubclasses (subclassesOf (extending ++ [m]) key) := by
  rw [subclassesOf_concat, ← own]
  split
  · rw [addSubclass, if_neg (own ▸ fresh)]
    rfl
  · rw [List.append_nil]
    rfl

/-- A model that has not been gone through is no subclass yet. -/
theorem className_notMem_subclassesOf (keyed : Keyed models)
    (split : models.entries = done ++ (key, m) :: todo) (other : String) :
    m.className ∉ subclassesOf (done.map Prod.snd) other := by
  intro member
  obtain ⟨d, among, same⟩ := List.mem_map.mp member
  obtain ⟨⟨k, d⟩, earlier, rfl⟩ := List.mem_map.mp (List.mem_filter.mp among).1
  have filed : Naming.key d.className = k :=
    keyed k d (Table.get?_eq_some.mpr (split ▸ List.mem_append_left _ earlier))
  have own : Naming.key m.className = key :=
    keyed key m (Table.get?_eq_some.mpr (split ▸ List.mem_append_cons_self))
  have distinct := models.nodup
  rw [split, List.map_append, List.map_cons, List.nodup_append] at distinct
  have apart := distinct.2.2 k (List.mem_map.mpr ⟨(k, d), earlier, rfl⟩) key List.mem_cons_self
  exact apart (by rw [← filed, ← own, same])

/-- Going through one entry looks up the parents of its model in the table as it was. -/
theorem linkModel_halfway (keyed : Keyed models)
    (split : models.entries = done ++ (key, m) :: todo) :
    linkModel (halfway models done) key =
      (linkedParents models m).map fun _ => halfway models (done ++ [(key, m)]) := by
  have there : models.get? key = some m :=
    Table.get?_eq_some.mpr (split ▸ List.mem_append_cons_self)
  have undone : key ∉ done.map Prod.fst := by
    have distinct := models.nodup
    rw [split, List.map_append, List.map_cons, List.nodup_append] at distinct
    exact fun member => distinct.2.2 key member key List.mem_cons_self rfl
  have present : (halfway models done).get? key =
      some (m.withSubclasses (subclassesOf (done.map Prod.snd) key)) := by
    rw [halfway, Table.get?_mapEntries, there, Option.map_some, halfwayModel, if_neg undone]
  have found : lookupParent (halfway models done) m.name = lookupParent models m.name :=
    lookupParent_mapEntries _ className_halfwayModel
  rw [linkModel_of_present present, linkParents_eq]
  change ((m.parents.mapM (lookupParent (halfway models done) m.name)).map _).map _ = _
  rw [found, ← linkedParents]
  cases linked : linkedParents models m with
  | error failure => rfl
  | ok names =>
    refine congrArg Except.ok ?_
    dsimp only
    rw [Table.modify_eq_mapEntries, registered, halfway, Table.mapEntries_mapEntries,
      Table.mapEntries_mapEntries]
    refine Table.mapEntries_congr fun other d among => ?_
    have fresh := className_notMem_subclassesOf keyed split other
    have registering := addSubclass_of_concat (subclasses_halfwayModel models done other d) fresh
    have added := halfwayModel_concat undone there linked among
    rw [← registering] at added
    exact added

/-- Going through the rest of the table looks up the parents of all its models. -/
theorem foldlM_linkModel (keyed : Keyed models) (todo : List (String × Model)) :
    ∀ done, models.entries = done ++ todo →
      (todo.map Prod.fst).foldlM linkModel (halfway models done) = do
        let _ ← (todo.map Prod.snd).mapM (linkedParents models)
        return halfway models (done ++ todo) := by
  induction todo with
  | nil =>
    intro done _
    rw [List.append_nil]
    rfl
  | cons entry rest ih =>
    intro done split
    obtain ⟨key, m⟩ := entry
    rw [List.map_cons, List.map_cons, List.foldlM_cons, List.mapM_cons,
      linkModel_halfway keyed split]
    cases linkedParents models m with
    | error failure => rfl
    | ok names =>
      have later := ih (done ++ [(key, m)]) (by rw [split, List.append_assoc]; rfl)
      rw [List.append_assoc] at later
      refine later.trans ?_
      change _ = (rest.map Prod.snd).mapM (linkedParents models) >>= _ >>= _
      cases (rest.map Prod.snd).mapM (linkedParents models) <;> rfl

end Steps

/-- Linking a table of models without subclasses gives each model its parents and its subclasses as
the table tells them. -/
theorem link_eq_linkedTable (keyed : Keyed models)
    (fresh : ∀ m ∈ models.values, m.subclasses = []) : link models = linkedTable models := by
  have start : halfway models [] = models := by
    refine Table.mapEntries_eq_self fun key m present => ?_
    have none := fresh m (Table.mem_values.mpr ⟨key, present⟩)
    cases m
    cases none
    rfl
  have whole : halfway models models.entries =
      models.mapEntries (linkedModel models models.values) :=
    Table.mapEntries_congr fun key m present => if_pos (Table.mem_keys_of_get? present)
  have run := foldlM_linkModel keyed models.entries [] rfl
  rw [start, List.nil_append, whole] at run
  exact run

end Models

end ClientGen
