import Mathlib.Data.List.Perm.Basic
import ClientGen.Client.ServiceFile
import ClientGen.Proofs.SharedParameters

/-!
# The order of parameters

An operation takes its required parameters before the optional ones, and the parameters of either
kind by name, as the configuration asks for it. Parameters that the setting does not tell apart
stay in the order in which they are given, also where names descend. Exactly one list is arranged
like this, and sorting gives it (`Parameter.sort_arranges`).
-/
namespace ClientGen

/-- Two lists of the same items are the same if both are in order, and items that are ordered both
ways, which are tied, come in the same order in both. -/
theorem eq_of_pairwise_of_filter {α : Type} {before : α → α → Prop} (tied : α → α → Bool)
    {items others : List α} (reflexive : ∀ a, tied a a = true)
    (antisymmetric : ∀ a ∈ items, ∀ b ∈ items, before a b → before b a → tied a b = true)
    (ordered : items.Pairwise before) (otherOrdered : others.Pairwise before)
    (perm : items.Perm others) (stable : ∀ a, items.filter (tied a) = others.filter (tied a)) :
    items = others := by
  induction items generalizing others with
  | nil => exact (List.nil_perm.mp perm).symm
  | cons a rest ih =>
    cases others with
    | nil => exact absurd perm List.not_perm_cons_nil
    | cons b more =>
      obtain ⟨afterFirst, restOrdered⟩ := List.pairwise_cons.mp ordered
      obtain ⟨afterOther, moreOrdered⟩ := List.pairwise_cons.mp otherOrdered
      have same : a = b := by
        rcases List.mem_cons.mp (perm.mem_iff.mp List.mem_cons_self) with same | later
        · exact same
        · rcases List.mem_cons.mp (perm.mem_iff.mpr List.mem_cons_self) with same | elsewhere
          · exact same.symm
          · have ties : tied a b = true :=
              antisymmetric a List.mem_cons_self b (List.mem_cons_of_mem a elsewhere)
                (afterFirst b elsewhere) (afterOther a later)
            have heads := stable a
            rw [List.filter_cons_of_pos (reflexive a), List.filter_cons_of_pos ties] at heads
            exact (List.cons.inj heads).1
      subst same
      have inside : ∀ c ∈ rest, ∀ d ∈ rest, before c d → before d c → tied c d = true :=
        fun c among d amongToo =>
          antisymmetric c (List.mem_cons_of_mem a among) d (List.mem_cons_of_mem a amongToo)
      have restStable : ∀ c, rest.filter (tied c) = more.filter (tied c) := by
        intro c
        have whole := stable c
        cases ties : tied c a with
        | true =>
          rw [List.filter_cons_of_pos ties, List.filter_cons_of_pos ties] at whole
          exact (List.cons.inj whole).2
        | false =>
          rwa [List.filter_cons_of_neg (by simp [ties]), List.filter_cons_of_neg (by simp [ties])]
            at whole
      rw [ih inside restOrdered moreOrdered perm.cons_inv restStable]

namespace Parameter

/-- Whether a name may stand before another by a setting. Only two settings look at names. -/
def NamesInOrder (setting first second : String) : Prop :=
  (setting = "asc" → first ≤ second) ∧ (setting = "desc" → second ≤ first)

/-- Two parameters that a setting does not tell apart: both are required or neither is, and if the
setting looks at names, they have the same. -/
def Tied (setting : String) (p q : Parameter) : Prop :=
  p.required = q.required ∧ (setting = "asc" ∨ setting = "desc" → p.name = q.name)

instance (setting : String) (p q : Parameter) : Decidable (Tied setting p q) :=
  inferInstanceAs (Decidable (_ ∧ _))

/-- One parameter may stand before another by a setting: a required one before all, and one with a
text for its name before those of its kind whose names may come later. -/
def MayPrecede (setting : String) (p q : Parameter) : Prop :=
  (q.required = true → p.required = true) ∧ (p.required = q.required →
    ∀ a b, p.name = .text a → q.name = .text b → NamesInOrder setting a b)

/-- The list arranges the given parameters by a setting: it has the same parameters, each before
those that it may precede, and it leaves tied parameters in the order in which they are given. -/
structure Arranges (setting : String) (given list : List Parameter) : Prop where
  perm : list.Perm given
  ordered : list.Pairwise (MayPrecede setting)
  stable : ∀ p, list.filter (fun q => Tied setting p q) = given.filter fun q => Tied setting p q

def TextNamed (parameters : List Parameter) : Prop :=
  ∀ p ∈ parameters, ∃ name, p.name = .text name

variable {setting : String} {given : List Parameter}

/-- Parameters that may precede each other are tied. -/
theorem tied_of_mayPrecede {p q : Parameter} {a b : String} (first : p.name = .text a)
    (second : q.name = .text b) (forth : MayPrecede setting p q) (back : MayPrecede setting q p) :
    Tied setting p q := by
  have same : p.required = q.required := by
    rw [Bool.eq_iff_iff]
    exact ⟨back.1, forth.1⟩
  refine ⟨same, fun looked => ?_⟩
  have ahead := forth.2 same a b first second
  have behind := back.2 same.symm b a second first
  have equal : a = b := by
    rcases looked with ascending | descending
    · exact String.le_antisymm (ahead.1 ascending) (behind.1 ascending)
    · exact String.le_antisymm (behind.2 descending) (ahead.2 descending)
  rw [first, second, equal]

/-- No two lists arrange the same parameters. -/
theorem Arranges.unique {list other : List Parameter} (named : TextNamed given)
    (first : Arranges setting given list) (second : Arranges setting given other) :
    list = other := by
  refine eq_of_pairwise_of_filter (fun p q => decide (Tied setting p q)) ?_ ?_ first.ordered
    second.ordered (first.perm.trans second.perm.symm) ?_
  · intro p
    exact decide_eq_true ⟨rfl, fun _ => rfl⟩
  · intro p member q memberToo forth back
    obtain ⟨a, firstName⟩ := named p (first.perm.mem_iff.mp member)
    obtain ⟨b, secondName⟩ := named q (first.perm.mem_iff.mp memberToo)
    exact decide_eq_true (tied_of_mayPrecede firstName secondName forth back)
  · intro p
    rw [first.stable p, second.stable p]

/-- Texts have an order, so that parameters that are named by texts can be sorted. -/
theorem areOrdered_of_textNamed (named : TextNamed given) :
    Value.areOrdered (given.map Parameter.name) = true := by
  induction given with
  | nil => rfl
  | cons p rest ih =>
    obtain ⟨⟨a, own⟩, others⟩ := List.forall_mem_cons.mp named
    rw [List.map_cons, Value.areOrdered, Bool.and_eq_true, List.all_eq_true]
    refine ⟨?_, ih others⟩
    intro v member
    obtain ⟨q, among, rfl⟩ := List.mem_map.mp member
    obtain ⟨b, name⟩ := others q among
    rw [own, name]
    rfl

def nameText (p : Parameter) : String :=
  p.name.text?.getD ""

/-- Whether an order by the texts of names lets one parameter stand before another. -/
def NameOrder.allowsTexts : NameOrder → Parameter → Parameter → Bool
  | .ascending, p, q => p.nameText ≤ q.nameText
  | .descending, p, q => q.nameText ≤ p.nameText

theorem NameOrder.allowsTexts_trans (order : NameOrder) (p q r : Parameter)
    (first : order.allowsTexts p q = true) (second : order.allowsTexts q r = true) :
    order.allowsTexts p r = true := by
  cases order with
  | ascending =>
    simp only [allowsTexts, decide_eq_true_eq] at first second ⊢
    exact String.le_trans first second
  | descending =>
    simp only [allowsTexts, decide_eq_true_eq] at first second ⊢
    exact String.le_trans second first

theorem NameOrder.allowsTexts_total (order : NameOrder) (p q : Parameter) :
    (order.allowsTexts p q || order.allowsTexts q p) = true := by
  cases order <;> simp [allowsTexts, String.le_total]

/-- Parameters that are named by texts are ordered by these. -/
theorem NameOrder.allows_eq {order : NameOrder} {p q : Parameter} {a b : String}
    (first : p.name = .text a) (second : q.name = .text b) :
    order.allows p q = order.allowsTexts p q := by
  have compared : ∀ c d : String, Value.notAfter (.text c) (.text d) = decide (c ≤ d) := by
    intro c d
    have less : Value.less? (.text d) (.text c) = some (decide (d < c)) := rfl
    have excluded : decide (c ≤ d) = !decide (d < c) := by
      rw [← decide_not, decide_eq_decide, String.not_lt]
    rw [Value.notAfter, less, excluded]
    cases decide (d < c) <;> rfl
  cases order with
  | ascending => simp [allows, allowsTexts, nameText, first, second, compared, Value.text?]
  | descending => simp [allows, allowsTexts, nameText, first, second, compared, Value.text?]

/-- Where parameters are named by texts, sorting by name is sorting by these. -/
theorem mergeSort_allows (order : NameOrder) (named : TextNamed given) :
    given.mergeSort order.allows = given.mergeSort order.allowsTexts := by
  have mapped : (given.mergeSort order.allows).map id =
      (given.map id).mergeSort order.allowsTexts := by
    refine List.map_mergeSort ?_
    intro p member q memberToo
    obtain ⟨a, first⟩ := named p member
    obtain ⟨b, second⟩ := named q memberToo
    exact NameOrder.allows_eq first second
  rwa [List.map_id, List.map_id] at mapped

/-- Sorting by name leaves parameters in place that have the same name. -/
theorem filter_mergeSort (order : NameOrder) {keep : Parameter → Bool} (name : String)
    (alike : ∀ p ∈ given, keep p = true → p.nameText = name) :
    (given.mergeSort order.allowsTexts).filter keep = given.filter keep := by
  have inOrder : (given.filter keep).Pairwise fun p q => order.allowsTexts p q = true := by
    refine List.pairwise_of_forall_mem_list ?_
    intro p member q memberToo
    obtain ⟨among, kept⟩ := List.mem_filter.mp member
    obtain ⟨amongToo, keptToo⟩ := List.mem_filter.mp memberToo
    have first := alike p among kept
    have second := alike q amongToo keptToo
    cases order <;> simp [NameOrder.allowsTexts, first, second]
  have within : (given.filter keep).Sublist (given.mergeSort order.allowsTexts) :=
    List.sublist_mergeSort order.allowsTexts_trans order.allowsTexts_total inOrder
      List.filter_sublist
  have kept : (given.filter keep).Sublist ((given.mergeSort order.allowsTexts).filter keep) := by
    simpa using within.filter keep
  have length := ((List.mergeSort_perm given order.allowsTexts).filter keep).length_eq
  exact (kept.eq_of_length length.symm).symm

/-- Parameters that are named by texts can be sorted by name. Then the names are in order, and
parameters with the same name are in place. -/
theorem sortByName_some (order : NameOrder) (named : TextNamed given) :
    sortByName (some order) given = .ok (given.mergeSort order.allowsTexts) := by
  rw [sortByName, if_pos (areOrdered_of_textNamed named), mergeSort_allows order named]

theorem nameText_of_name {p : Parameter} {a : String} (name : p.name = .text a) :
    p.nameText = a := by
  rw [nameText, name]
  rfl

/-- What the order of a setting allows, the setting does. -/
theorem namesInOrder_of_allowsTexts {order : NameOrder} {p q : Parameter} {a b : String}
    (asked : NameOrder.ofSetting? setting = some order) (allowed : order.allowsTexts p q = true)
    (first : p.name = .text a) (second : q.name = .text b) : NamesInOrder setting a b := by
  rw [NameOrder.ofSetting?] at asked
  constructor
  · rintro rfl
    cases asked
    simpa [NameOrder.allowsTexts, nameText_of_name first, nameText_of_name second] using allowed
  · rintro rfl
    cases asked
    simpa [NameOrder.allowsTexts, nameText_of_name first, nameText_of_name second] using allowed

/-- Two settings ask for an order. -/
theorem isSome_ofSetting?_iff :
    (NameOrder.ofSetting? setting).isSome = true ↔ setting = "asc" ∨ setting = "desc" := by
  unfold NameOrder.ofSetting?
  split
  · simp_all
  · split <;> simp_all

/-- Sorting by name puts names that are texts in order, and leaves tied parameters in place. -/
theorem exists_sortByName (setting : String) (named : TextNamed given) :
    ∃ byName, sortByName (NameOrder.ofSetting? setting) given = .ok byName ∧
      byName.Pairwise (fun p q => ∀ a b, p.name = .text a → q.name = .text b →
        NamesInOrder setting a b) ∧
      ∀ p, byName.filter (fun q => Tied setting p q) = given.filter fun q => Tied setting p q := by
  cases asked : NameOrder.ofSetting? setting with
  | none =>
    have free : ¬(setting = "asc" ∨ setting = "desc") := by
      rw [← isSome_ofSetting?_iff, asked]
      simp
    refine ⟨given, rfl, ?_, fun _ => rfl⟩
    refine List.pairwise_of_forall fun p q a b _ _ => ⟨?_, ?_⟩
    · exact fun ascending => absurd (.inl ascending) free
    · exact fun descending => absurd (.inr descending) free
  | some order =>
    refine ⟨_, sortByName_some order named, ?_, ?_⟩
    · refine (List.pairwise_mergeSort order.allowsTexts_trans order.allowsTexts_total given).imp ?_
      intro p q allowed a b first second
      exact namesInOrder_of_allowsTexts asked allowed first second
    · intro p
      refine filter_mergeSort order p.nameText ?_
      intro q _ tied
      have looked : setting = "asc" ∨ setting = "desc" :=
        isSome_ofSetting?_iff.mp (asked ▸ Option.isSome_some)
      have same := (of_decide_eq_true tied).2 looked
      rw [nameText, nameText, same]

/-- Putting the required parameters first leaves parameters in place of which all or none are
required. -/
theorem filter_requiredFirst {parameters : List Parameter} {keep : Parameter → Bool}
    (required : Bool) (alike : ∀ p, keep p = true → p.required = required) :
    (requiredFirst parameters).filter keep = parameters.filter keep := by
  have kept : ∀ (test : Bool → Bool), ∀ p ∈ parameters,
      (keep p && test p.required) = (keep p && test required) := by
    intro test p _
    cases keeps : keep p with
    | true => rw [alike p keeps]
    | false => rfl
  rw [requiredFirst, List.filter_append, List.filter_filter, List.filter_filter,
    List.filter_congr (kept fun required => required),
    List.filter_congr (kept fun required => !required)]
  cases required <;> simp

/-- Parameters that are in some order are in this order by kind, with the required ones first. -/
theorem pairwise_requiredFirst {parameters : List Parameter} {before : Parameter → Parameter → Prop}
    (inOrder : parameters.Pairwise before) :
    (requiredFirst parameters).Pairwise fun p q =>
      (q.required = true → p.required = true) ∧ (p.required = q.required → before p q) := by
  rw [requiredFirst, List.pairwise_append]
  refine ⟨?_, ?_, ?_⟩
  · rw [List.pairwise_filter]
    refine inOrder.imp ?_
    intro p q ordered first _
    exact ⟨fun _ => first, fun _ => ordered⟩
  · rw [List.pairwise_filter]
    refine inOrder.imp ?_
    intro p q ordered _ second
    refine ⟨fun required => ?_, fun _ => ordered⟩
    rw [required] at second
    cases second
  · intro p first q second
    have isRequired := (List.mem_filter.mp first).2
    have isOptional := (List.mem_filter.mp second).2
    refine ⟨fun _ => isRequired, fun same => ?_⟩
    rw [← same, isRequired] at isOptional
    cases isOptional

/-- Parameters that are named by texts are sorted, and arranged by it. -/
theorem exists_sort (setting : String) (named : TextNamed given) :
    ∃ sorted, sort setting given = .ok sorted ∧ Arranges setting given sorted := by
  obtain ⟨byName, sorted, ordered, stable⟩ := exists_sortByName setting named
  refine ⟨requiredFirst byName, bind_eq_ok.mpr ⟨byName, sorted, rfl⟩, ?_, ?_, ?_⟩
  · exact (requiredFirst_perm byName).trans (sortByName_perm sorted)
  · exact pairwise_requiredFirst ordered
  · intro p
    rw [filter_requiredFirst p.required, stable]
    intro q tied
    exact (of_decide_eq_true tied).1.symm

/-- What stands in order by requirement is the required parameters and then the optional ones. -/
theorem requiredFirst_of_pairwise {parameters : List Parameter}
    (ordered : parameters.Pairwise fun p q => q.required = true → p.required = true) :
    requiredFirst parameters = parameters := by
  induction parameters with
  | nil => rfl
  | cons p rest ih =>
    obtain ⟨ahead, later⟩ := List.pairwise_cons.mp ordered
    have others := ih later
    unfold requiredFirst at others ⊢
    cases required : p.required with
    | true =>
      rw [List.filter_cons_of_pos required, List.filter_cons_of_neg (by simp [required]),
        List.cons_append, others]
    | false =>
      have optional : ∀ q ∈ p :: rest, q.required = false := by
        intro q member
        rcases List.mem_cons.mp member with rfl | behind
        · exact required
        · rw [Bool.eq_false_iff]
          intro given
          rw [ahead q behind given] at required
          cases required
      rw [List.filter_eq_nil_iff.mpr fun q member => by simp [optional q member],
        List.filter_eq_self.mpr fun q member => by simp [optional q member], List.nil_append]

end Parameter

namespace Client

def signaturePart (p : Parameter) : String :=
  optionalName p.identifier p.required ++ ": " ++ p.type.text ++ (if p.isLast then "" else ", ")

/-- An operation takes required parameters, then optional ones, and its signature declares them in
this order, unless they are taken in one object. -/
def TakesRequiredFirst (o : Operation) : Prop :=
  ∃ required optional, (∀ p ∈ required, p.required = true) ∧ (∀ p ∈ optional, p.required = false) ∧
    o.parameters = required ++ optional ∧
    ∀ serviceClass, o.paramsClass = none → signature serviceClass o =
      String.join (required.map signaturePart) ++ String.join (optional.map signaturePart)

end Client

namespace Operation

variable {config : Config} {models : Table Model} {document : Value} {serviceClass id : String}
  {place : Place} {definition : Fields} {o : Operation}

/-- Marking the last parameter of an operation leaves the required ones first. -/
theorem requiredFirst_of_build
    (success : build config models document serviceClass place definition id = .ok o) :
    Parameter.requiredFirst o.parameters = o.parameters := by
  obtain ⟨_, _, sorted, _, _, parts⟩ := build_ok success
  obtain ⟨byName, -, sorts⟩ := bind_eq_ok.mp parts.sorts
  cases sorts
  have unmarked : o.parameters.map Parameter.required =
      (Parameter.requiredFirst byName).map Parameter.required := by
    rw [parts.parameters]
    apply map_markLast
    intro p
    rfl
  have anyOrder : byName.Pairwise fun _ _ => True := List.pairwise_of_forall fun _ _ => trivial
  have ordered := (Parameter.pairwise_requiredFirst anyOrder).imp And.left
  rw [← List.pairwise_map (f := Parameter.required) (R := fun a b => b = true → a = true),
    ← unmarked, List.pairwise_map] at ordered
  exact Parameter.requiredFirst_of_pairwise ordered

theorem takesRequiredFirst_of_build
    (success : build config models document serviceClass place definition id = .ok o) :
    Client.TakesRequiredFirst o := by
  have split := requiredFirst_of_build success
  rw [Parameter.requiredFirst] at split
  refine ⟨_, _, ?_, ?_, split.symm, ?_⟩
  · intro p member
    exact (List.mem_filter.mp member).2
  · intro p member
    simpa using (List.mem_filter.mp member).2
  · intro serviceClass separate
    rw [← String.join_append, ← List.map_append, split, Client.signature, separate]
    rfl

end Operation

/-- Parameters that are named by texts are sorted, and the result is the only list that arranges
them by the setting. Of parameters that an operation takes, whatever their names, the required ones
come first, so that its signature declares no required parameter after an optional one. -/
theorem Parameter.sort_arranges :
    (∀ setting given, TextNamed given → ∃ sorted, sort setting given = .ok sorted ∧
      ∀ list, Arranges setting given list ↔ list = sorted) ∧
    ∀ config models document serviceClass place definition id o,
      Operation.build config models document serviceClass place definition id = .ok o →
        Client.TakesRequiredFirst o := by
  constructor
  · intro setting given named
    obtain ⟨sorted, sorts, arranged⟩ := exists_sort setting named
    refine ⟨sorted, sorts, fun list => ?_⟩
    constructor
    · intro other
      exact other.unique named arranged
    · rintro rfl
      exact arranged
  · intro config models document serviceClass place definition id o success
    exact Operation.takesRequiredFirst_of_build success

namespace Parameter

/-- Two parameters of the same name, with a required one between them and another one behind. -/
def mixedParameters : List Parameter :=
  [{ name := .text "b", identifier := "first" }, { name := .text "a", required := true },
    { name := .text "b", identifier := "second" }, { name := .text "c" }]

def petPath : Operation.Place :=
  ⟨.text "/pet/\x7bid\x7d", "get", [(.text "parameters", .list [.object [
    (.text "name", .text "id"), (.text "in", .text "path"), (.text "type", .text "string")]])]⟩

/-- Names descend behind the required parameter, and the two with the same name stay in order. An
operation takes the placeholder of its path before its own parameter. -/
theorem sort_arranges_mixed : TextNamed mixedParameters ∧
    (∃ sorted, sort "desc" mixedParameters = .ok sorted ∧
      sorted.map (fun p => (p.name, p.identifier)) =
        [(.text "a", ""), (.text "c", ""), (.text "b", "first"), (.text "b", "second")] ∧
      ∀ list, Arranges "desc" mixedParameters list ↔ list = sorted) ∧
    ∃ models o, (Models.ofDefinitions {} (.object Api.petDefinitions)).outcome = .ok models ∧
      Operation.build { minParamsForContainer := 3 } models (.object []) "ApiService" petPath
        (Operation.petBy "name") "getPet" = .ok o ∧
      o.parameters.map (fun p => (p.name, p.required)) =
        [(.text "id", true), (.text "name", false)] ∧ Client.TakesRequiredFirst o := by
  have named : TextNamed mixedParameters := by
    intro p member
    simp only [mixedParameters, List.mem_cons, List.not_mem_nil, or_false] at member
    rcases member with rfl | rfl | rfl | rfl <;> exact ⟨_, rfl⟩
  obtain ⟨sorted, sorts, arranged⟩ := sort_arranges.1 "desc" mixedParameters named
  obtain ⟨_, evaluated, names⟩ : ∃ sorted, sort "desc" mixedParameters = .ok sorted ∧
      sorted.map (fun p => (p.name, p.identifier)) =
        [(.text "a", ""), (.text "c", ""), (.text "b", "first"), (.text "b", "second")] :=
    ⟨_, by cbv, by cbv⟩
  cases sorts.symm.trans evaluated
  obtain ⟨models, modelsBuilt⟩ := Api.petModels_built
  obtain ⟨o, built, taken⟩ : ∃ o, Operation.build { minParamsForContainer := 3 } models
      (.object []) "ApiService" petPath (Operation.petBy "name") "getPet" = .ok o ∧
      o.parameters.map (fun p => (p.name, p.required)) =
        [(.text "id", true), (.text "name", false)] :=
    ⟨_, by cbv, by cbv⟩
  exact ⟨named, ⟨sorted, sorts, names, arranged⟩, models, o, modelsBuilt, built, taken,
    sort_arranges.2 _ _ _ _ _ _ _ o built⟩

end Parameter

end ClientGen
