import Mathlib
import ClientGen.Proofs.Constituents
import ClientGen.Proofs.Dependencies

/-!
# The order of collected dependencies

Dependencies are collected from candidates, which are names and types, one after another. In every
table of models, also in one whose models are filed under other keys than those of their classes,
each candidate only adds to the end of the list, no two listed classes have the same key, and the
classes stand in the order in which candidates first led to them, where a candidate with the key of
the owner or of a class listed before is passed over (`listing_ordered`). In a table whose keys are
those of the classes this is the order in which the candidates first name them.
-/
namespace ClientGen.Dependencies

def ledBy (models : Table Model) (name : String) : Option String :=
  (models.get? (keyOf name)).map Model.className

/-- Whether a name has the key of the owner or of a class listed before. -/
def passedOver (owner : Option String) (d : Dependencies) (name : String) : Bool :=
  owner = some (keyOf name) || keyOf name ∈ d.classes.map Naming.key

/-- The classes that names lead to as they are added one after another, but for those names that
`pass` passes over. -/
def ledFrom (models : Table Model) (owner : Option String) (pass : Dependencies → String → Bool)
    (d : Dependencies) : List String → List String
  | [] => []
  | name :: rest =>
    (if pass d name then none else ledBy models name).toList ++
      ledFrom models owner pass (d.addName models owner name) rest

/-- The classes that candidates lead to, but for names of the owner and of classes listed before. -/
def led (models : Table Model) (owner : Option String) (candidates : List Candidate) :
    List String :=
  ledFrom models (ownerKey owner) (passedOver (ownerKey owner)) {}
    (candidates.flatMap Candidate.names)

def named (models : Table Model) (candidates : List Candidate) : List String :=
  (candidates.flatMap Candidate.names).filterMap (ledBy models)

variable {models : Table Model} {owner : Option String} {names order : List String}
  {d : Dependencies} {name : String}

def Settled (models : Table Model) (owner : Option String) (d : Dependencies) (name : String) :
    Prop :=
  (owner = some (keyOf name) ∨ keyOf name ∈ d.seen) ∨
  ∀ m, models.get? (keyOf name) = some m →
    owner = some (Naming.key m.className) ∨ Naming.key m.className ∈ d.seen

structure LeadsTo (models : Table Model) (owner : Option String) (d : Dependencies)
    (name : String) (m : Model) : Prop where
  present : models.get? (keyOf name) = some m
  unmet : ¬(owner = some (keyOf name) ∨ keyOf name ∈ d.seen)
  fresh : ¬(owner = some (Naming.key m.className) ∨ Naming.key m.className ∈ d.seen)

theorem Settled.addName_eq (settled : Settled models owner d name) :
    d.addName models owner name = d := by
  unfold addName addKey
  by_cases met : owner = some (keyOf name) ∨ keyOf name ∈ d.seen
  · rw [if_pos met]
  rw [if_neg met]
  cases found : models.get? (keyOf name) with
  | none => rfl
  | some m =>
    have known := settled.resolve_left met m found
    simp only [addClass, if_pos known]

theorem LeadsTo.addName_eq {m : Model} (leads : LeadsTo models owner d name m) :
    d.addName models owner name =
      ⟨d.classes ++ [m.className], d.seen ++ [keyOf name, Naming.key m.className]⟩ := by
  unfold addName addKey
  rw [if_neg leads.unmet, leads.present]
  simp only [addClass, if_neg leads.fresh]

/-- A name either adds nothing or leads to a new class. -/
theorem settled_or_leadsTo (models : Table Model) (owner : Option String) (d : Dependencies)
    (name : String) : Settled models owner d name ∨ ∃ m, LeadsTo models owner d name m := by
  by_cases met : owner = some (keyOf name) ∨ keyOf name ∈ d.seen
  · exact .inl (.inl met)
  cases found : models.get? (keyOf name) with
  | none => exact .inl (.inr fun m present => by cases found.symm.trans present)
  | some m =>
    by_cases known : owner = some (Naming.key m.className) ∨ Naming.key m.className ∈ d.seen
    · refine .inl (.inr fun n present => ?_)
      cases found.symm.trans present
      exact known
    · exact .inr ⟨m, found, met, known⟩

/-! ### Repeated candidates -/

theorem seen_subset_addName (models : Table Model) (owner : Option String) (d : Dependencies)
    (name : String) : d.seen ⊆ (d.addName models owner name).seen := by
  rcases settled_or_leadsTo models owner d name with settled | ⟨m, leads⟩
  · exact settled.addName_eq.symm ▸ List.Subset.refl _
  · rw [leads.addName_eq]
    exact List.subset_append_left ..

theorem seen_subset_addNames (models : Table Model) (owner : Option String) (d : Dependencies)
    (names : List String) : d.seen ⊆ (d.addNames models owner names).seen := by
  induction names generalizing d with
  | nil => exact List.Subset.refl _
  | cons name rest ih => exact List.Subset.trans (seen_subset_addName ..) (ih _)

theorem Settled.mono (settled : Settled models owner d name) {later : Dependencies}
    (seen : d.seen ⊆ later.seen) : Settled models owner later name :=
  settled.imp (Or.imp_right (@seen _)) fun known m present =>
    (known m present).imp_right (@seen _)

/-- Once added, a name adds nothing any more. -/
theorem settled_addName (models : Table Model) (owner : Option String) (d : Dependencies)
    (name : String) : Settled models owner (d.addName models owner name) name := by
  rcases settled_or_leadsTo models owner d name with settled | ⟨m, leads⟩
  · rwa [settled.addName_eq]
  · rw [leads.addName_eq]
    exact .inl (.inr (by simp))

theorem settled_addNames {names : List String} (member : name ∈ names) (d : Dependencies) :
    Settled models owner (d.addNames models owner names) name := by
  induction names generalizing d with
  | nil => cases member
  | cons first rest ih =>
    rcases List.mem_cons.mp member with rfl | later
    · exact (settled_addName models owner d name).mono (seen_subset_addNames ..)
    · exact ih later _

theorem addNames_eq_of_settled (settled : ∀ name ∈ names, Settled models owner d name) :
    d.addNames models owner names = d := by
  induction names with
  | nil => rfl
  | cons name rest ih =>
    have here := (settled name List.mem_cons_self).addName_eq
    unfold addNames at ih ⊢
    rw [List.foldl_cons, here]
    exact ih fun other member => settled other (List.mem_cons_of_mem _ member)

theorem collect_concat (models : Table Model) (owner : Option String) (candidates : List Candidate)
    (candidate : Candidate) :
    collect models owner (candidates ++ [candidate]) =
      (collect models owner candidates).addNames models (ownerKey owner) candidate.names :=
  List.foldl_concat ..

/-- A candidate that was there before changes nothing. -/
theorem collect_concat_of_mem {candidates : List Candidate} {candidate : Candidate}
    (member : candidate ∈ candidates) :
    collect models owner (candidates ++ [candidate]) = collect models owner candidates := by
  rw [collect_concat]
  apply addNames_eq_of_settled
  intro name stands
  rw [collect_eq_addNames]
  exact settled_addNames (List.mem_flatMap.mpr ⟨candidate, member, stands⟩) _

/-! ### What is listed -/

theorem classes_prefix_addName (models : Table Model) (owner : Option String) (d : Dependencies)
    (name : String) : d.classes <+: (d.addName models owner name).classes := by
  rcases settled_or_leadsTo models owner d name with settled | ⟨m, leads⟩
  · exact settled.addName_eq.symm ▸ List.prefix_refl _
  · rw [leads.addName_eq]
    exact List.prefix_append ..

theorem classes_prefix_addNames (models : Table Model) (owner : Option String) (d : Dependencies)
    (names : List String) : d.classes <+: (d.addNames models owner names).classes := by
  induction names generalizing d with
  | nil => exact List.prefix_refl _
  | cons name rest ih => exact (classes_prefix_addName ..).trans (ih _)

structure Gathered (models : Table Model) (owner : Option String) (names : List String)
    (d : Dependencies) : Prop where
  sourced : ∀ c ∈ d.classes, ∃ name ∈ names, ∃ m,
    models.get? (keyOf name) = some m ∧ m.className = c
  seen : ∀ c ∈ d.classes, Naming.key c ∈ d.seen
  known : ∀ key ∈ d.seen, key ∈ d.classes.map Naming.key ∨
    ∃ m, models.get? key = some m ∧ m.className ∈ d.classes
  foreign : ∀ c ∈ d.classes, owner ≠ some (Naming.key c)
  distinct : (d.classes.map Naming.key).Nodup

theorem gathered_empty (models : Table Model) (owner : Option String) :
    Gathered models owner [] {} :=
  ⟨by simp, by simp, by simp, by simp, by simp⟩

theorem Gathered.addName (before : Gathered models owner names d) (name : String) :
    Gathered models owner (names ++ [name]) (d.addName models owner name) := by
  have sourced : ∀ c ∈ d.classes, ∃ other ∈ names ++ [name], ∃ m,
      models.get? (keyOf other) = some m ∧ m.className = c := by
    intro c member
    obtain ⟨other, among, lead⟩ := before.sourced c member
    exact ⟨other, List.mem_append_left _ among, lead⟩
  rcases settled_or_leadsTo models owner d name with settled | ⟨m, leads⟩
  · rw [settled.addName_eq]
    exact ⟨sourced, before.seen, before.known, before.foreign, before.distinct⟩
  rw [leads.addName_eq]
  have fresh : Naming.key m.className ∉ d.classes.map Naming.key := by
    intro member
    obtain ⟨c, listed, equal⟩ := List.mem_map.mp member
    exact leads.fresh (.inr (equal ▸ before.seen c listed))
  refine ⟨?_, ?_, ?_, ?_, ?_⟩
  · intro c member
    rcases List.mem_append.mp member with earlier | last
    · exact sourced c earlier
    · rw [List.mem_singleton.mp last]
      exact ⟨name, by simp, m, leads.present, rfl⟩
  · intro c member
    rcases List.mem_append.mp member with earlier | last
    · exact List.mem_append_left _ (before.seen c earlier)
    · rw [List.mem_singleton.mp last]
      simp
  · intro key member
    rcases List.mem_append.mp member with earlier | last
    · rcases before.known key earlier with listed | ⟨n, present, listed⟩
      · exact .inl (by simp [listed])
      · exact .inr ⟨n, present, List.mem_append_left _ listed⟩
    · rcases List.mem_pair.mp last with rfl | rfl
      · exact .inr ⟨m, leads.present, by simp⟩
      · exact .inl (by simp)
  · intro c member
    rcases List.mem_append.mp member with earlier | last
    · exact before.foreign c earlier
    · rw [List.mem_singleton.mp last]
      exact fun own => leads.fresh (.inl own)
  · rw [List.map_append, List.nodup_append]
    refine ⟨before.distinct, by simp, ?_⟩
    intro key earlier last member equal
    rw [List.map_singleton, List.mem_singleton] at member
    exact fresh (member ▸ equal ▸ earlier)

theorem Gathered.addNames (before : Gathered models owner names d) (more : List String) :
    Gathered models owner (names ++ more) (d.addNames models owner more) := by
  induction more generalizing names d with
  | nil => simpa [Dependencies.addNames] using before
  | cons name rest ih =>
    have next := ih (before.addName name)
    rwa [List.append_assoc] at next

/-- What is gathered from some candidates alone. -/
theorem gathered_collect (models : Table Model) (owner : Option String)
    (candidates : List Candidate) :
    Gathered models (ownerKey owner) (candidates.flatMap Candidate.names)
      (collect models owner candidates) := by
  rw [collect_eq_addNames]
  exact (gathered_empty models _).addNames _

/-! ### The order -/

/-- The classes of `d` stand in the order in which they first are in `order`, and no class of
`order` can be added any more. -/
structure Ordered (owner : Option String) (order : List String) (d : Dependencies) : Prop where
  sublist : d.classes.Sublist (TypeExpr.distinct order)
  done : ∀ c ∈ order, owner = some (Naming.key c) ∨ Naming.key c ∈ d.seen

theorem ordered_empty (owner : Option String) : Ordered owner [] {} :=
  ⟨List.nil_sublist _, by simp⟩

/-- Names that are passed over have been met, and a name that has been met but is not passed over
leads to a class that has been met as well. -/
def PassesOver (models : Table Model) (owner : Option String)
    (pass : Dependencies → String → Bool) : Prop :=
  ∀ names d name, Gathered models owner names d →
    if pass d name then owner = some (keyOf name) ∨ keyOf name ∈ d.seen
    else (owner = some (keyOf name) ∨ keyOf name ∈ d.seen) → ∀ c, ledBy models name = some c →
      owner = some (Naming.key c) ∨ Naming.key c ∈ d.seen

theorem passesOver_passedOver (models : Table Model) (owner : Option String) :
    PassesOver models owner (passedOver owner) := by
  intro names d name before
  by_cases passed : owner = some (keyOf name) ∨ keyOf name ∈ d.classes.map Naming.key
  · rw [if_pos (by simpa [passedOver] using passed)]
    refine passed.imp_right fun member => ?_
    obtain ⟨c, listed, equal⟩ := List.mem_map.mp member
    exact equal ▸ before.seen c listed
  · rw [if_neg (by simpa [passedOver] using passed)]
    rw [not_or] at passed
    intro met c lead
    obtain ⟨m, present, rfl⟩ := Option.map_eq_some_iff.mp lead
    -- the key was met on the way to another class, that of the model under it
    obtain ⟨n, found, listed⟩ :=
      (before.known _ (met.resolve_left passed.1)).resolve_left passed.2
    cases present.symm.trans found
    exact .inr (before.seen _ listed)

theorem passesOver_none (keyed : Keyed models) (owner : Option String) :
    PassesOver models owner fun _ _ => false := by
  intro names d name _
  rw [if_neg Bool.false_ne_true]
  intro met c lead
  obtain ⟨m, present, rfl⟩ := Option.map_eq_some_iff.mp lead
  rwa [keyed _ m present]

variable {pass : Dependencies → String → Bool}

theorem Ordered.addName (before : Ordered owner order d) (gathered : Gathered models owner names d)
    (passes : PassesOver models owner pass) (name : String) :
    Ordered owner (order ++ (if pass d name then none else ledBy models name).toList)
      (d.addName models owner name) := by
  have passed := passes names d name gathered
  rcases settled_or_leadsTo models owner d name with settled | ⟨m, leads⟩
  · rw [settled.addName_eq]
    cases lead : (if pass d name then none else ledBy models name) with
    | none => simpa using before
    | some c =>
      rw [Option.ite_none_left_eq_some] at lead
      rw [if_neg lead.1] at passed
      have done : owner = some (Naming.key c) ∨ Naming.key c ∈ d.seen := by
        rcases settled with met | known
        · exact passed met c lead.2
        · obtain ⟨m, present, rfl⟩ := Option.map_eq_some_iff.mp lead.2
          exact known m present
      refine ⟨?_, ?_⟩
      · rw [Option.toList_some, TypeExpr.distinct_concat]
        split
        · exact before.sublist
        · exact before.sublist.trans (List.sublist_append_left ..)
      · intro other member
        rcases List.mem_append.mp member with earlier | last
        · exact before.done other earlier
        · rw [Option.toList_some, List.mem_singleton] at last
          exact last ▸ done
  · have unpassed : ¬pass d name = true := by
      intro pass
      rw [if_pos pass] at passed
      exact leads.unmet passed
    have fresh : m.className ∉ order := fun member => leads.fresh (before.done _ member)
    rw [leads.addName_eq, if_neg unpassed, ledBy, leads.present]
    refine ⟨?_, ?_⟩
    · rw [Option.map_some, Option.toList_some, TypeExpr.distinct_concat, if_neg fresh]
      exact before.sublist.append (List.Sublist.refl _)
    · intro other member
      rcases List.mem_append.mp member with earlier | last
      · exact (before.done other earlier).imp_right fun seen => List.mem_append_left _ seen
      · rw [Option.map_some, Option.toList_some, List.mem_singleton] at last
        subst last
        exact .inr (by simp)

theorem Ordered.addNames (before : Ordered owner order d) (gathered : Gathered models owner names d)
    (passes : PassesOver models owner pass) (more : List String) :
    Ordered owner (order ++ ledFrom models owner pass d more) (d.addNames models owner more) := by
  induction more generalizing order names d with
  | nil => simpa [ledFrom, Dependencies.addNames] using before
  | cons name rest ih =>
    have next := ih (before.addName gathered passes name) (gathered.addName name)
    rwa [List.append_assoc] at next

/-- When no name is passed over, every name of a model leads to its class. -/
theorem ledFrom_none (d : Dependencies) (names : List String) :
    ledFrom models owner (fun _ _ => false) d names = names.filterMap (ledBy models) := by
  induction names generalizing d with
  | nil => rfl
  | cons name rest ih =>
    rw [ledFrom, ih, if_neg Bool.false_ne_true, List.filterMap_cons]
    cases ledBy models name <;> rfl

/-- The listed classes are classes of models of the table, no two of them with the same key and
none of them the owner. They stand in the order in which candidates first led to them, names of
the owner and of classes listed before being passed over, which makes no difference in a table
whose keys are those of the classes. Another candidate only adds to the end of the list, and one
that was there before changes nothing. -/
theorem listing_ordered (models : Table Model) (owner : Option String)
    (candidates : List Candidate) :
    (∀ c ∈ listing models owner candidates, ∃ m ∈ models.values, m.className = c) ∧
    ((listing models owner candidates).map Naming.key).Nodup ∧
    (∀ name, owner = some name → name ≠ "" →
      Naming.key name ∉ (listing models owner candidates).map Naming.key) ∧
    (listing models owner candidates).Sublist
      (TypeExpr.distinct (led models owner candidates)) ∧
    (Keyed models → (listing models owner candidates).Sublist
      (TypeExpr.distinct (named models candidates))) ∧
    (∀ candidate, listing models owner candidates <+:
      listing models owner (candidates ++ [candidate])) ∧
    ∀ candidate ∈ candidates, collect models owner (candidates ++ [candidate]) =
      collect models owner candidates := by
  have gathered := gathered_collect models owner candidates
  have ordered : ∀ {pass}, PassesOver models (ownerKey owner) pass →
      Ordered (ownerKey owner)
        (ledFrom models (ownerKey owner) pass {} (candidates.flatMap Candidate.names))
        (collect models owner candidates) := by
    intro pass passes
    rw [collect_eq_addNames]
    exact Ordered.addNames (ordered_empty _) (gathered_empty ..) passes _
  refine ⟨?_, gathered.distinct, ?_, (ordered (passesOver_passedOver models _)).sublist, ?_, ?_,
    fun candidate member => collect_concat_of_mem member⟩
  · intro c member
    obtain ⟨name, -, m, present, equal⟩ := gathered.sourced c member
    exact ⟨m, List.mem_map_of_mem (Table.get?_eq_some.mp present), equal⟩
  · rintro name rfl nonempty member
    obtain ⟨c, listed, equal⟩ := List.mem_map.mp member
    refine gathered.foreign c listed ?_
    rw [ownerKey, equal]
    exact nonempty
  · intro keyed
    have plain := (ordered (passesOver_none keyed _)).sublist
    rwa [ledFrom_none] at plain
  · intro candidate
    unfold listing
    rw [collect_concat]
    exact classes_prefix_addNames ..

def pets : Table Model :=
  .ofList [("pet", { name := "Pet", className := "Pet" }),
    ("tag", { name := "Tag", className := "Tag" }),
    ("owner", { name := "Owner", className := "Owner" })]

theorem keyed_pets : Keyed pets := by
  intro key m present
  have entries : pets.entries = _ := Table.entries_ofList (by simp)
  have entry := Table.get?_eq_some.mp present
  rw [entries] at entry
  simp only [List.mem_cons, List.not_mem_nil, or_false, Prod.mk.injEq] at entry
  rcases entry with ⟨rfl, rfl⟩ | ⟨rfl, rfl⟩ | ⟨rfl, rfl⟩ <;> cbv

/-- The candidates of a pet: a type with the pet itself in it, a name and a plain type. -/
def candidatesOfPet : List Candidate :=
  [.type ⟨"Pet[] | Tag", some ["Pet[]", "Tag"]⟩, .name "owner", .name "string"]

/-- The pet is passed over, and its owner comes after the tag. -/
theorem listing_ordered_pets :
    listing pets (some "Pet") candidatesOfPet = ["Tag", "Owner"] ∧
    Naming.key "Pet" ∉ (listing pets (some "Pet") candidatesOfPet).map Naming.key ∧
    (listing pets (some "Pet") candidatesOfPet).Sublist
      (TypeExpr.distinct (named pets candidatesOfPet)) ∧
    collect pets (some "Pet") (candidatesOfPet ++ [.name "owner"]) =
      collect pets (some "Pet") candidatesOfPet := by
  obtain ⟨-, -, foreign, -, plain, -, repeated⟩ :=
    listing_ordered pets (some "Pet") candidatesOfPet
  exact ⟨by cbv, foreign "Pet" rfl (by decide), plain keyed_pets,
    repeated _ (List.mem_cons_of_mem _ List.mem_cons_self)⟩

/-- Four models, two of them of one class, none under the key of its own class. -/
def misfiled : Table Model :=
  .ofList [("a", { name := "B", className := "B" }), ("b", { name := "C", className := "C" }),
    ("d", { name := "D", className := "D" }), ("e", { name := "C", className := "C" })]

/-- The second name leads to `C`, but it has the key of the class listed before and is passed over,
so `C` is listed after `D`. -/
theorem listing_not_in_order :
    listing misfiled none [.name "a", .name "b", .name "d", .name "e"] = ["B", "D", "C"] ∧
    TypeExpr.distinct (named misfiled [.name "a", .name "b", .name "d", .name "e"]) =
      ["B", "C", "D"] ∧
    ¬(listing misfiled none [.name "a", .name "b", .name "d", .name "e"]).Sublist
      (TypeExpr.distinct (named misfiled [.name "a", .name "b", .name "d", .name "e"])) := by
  have listed : listing misfiled none [.name "a", .name "b", .name "d", .name "e"] =
      ["B", "D", "C"] := by cbv
  have order : TypeExpr.distinct (named misfiled [.name "a", .name "b", .name "d", .name "e"]) =
      ["B", "C", "D"] := by cbv
  refine ⟨listed, order, ?_⟩
  rw [listed, order]
  decide

end ClientGen.Dependencies
