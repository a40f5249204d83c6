import ClientGen.Proofs.LetterCase
import ClientGen.Proofs.OperationGroups

/-!
# The names that tags give

A tag gives the name that the text for it has in camel case, as if a gap stood before it
(`tagName_eq`). So only the letters and digits of the text and the gaps between them count. A name
has nothing but letters and digits, and is the name of itself, unless it is empty: which it is
exactly if the text has no ASCII letter or digit (`tagName_eq_empty_iff`). The fallback does not
help then, since it stands in for a missing tag only. `Services.serviceNames_iff` says so for the
services of a document as well.
-/
namespace ClientGen

namespace Naming

def HasAlnum (s : String) : Prop := ∃ c ∈ s.toList, isAlnum c = true

instance (s : String) : Decidable (HasAlnum s) :=
  inferInstanceAs (Decidable (∃ c ∈ s.toList, isAlnum c = true))

/-- A tag that can give a name: it is missing, so that the fallback stands in for it, or its text
has a letter or digit. -/
def IsTelling (tag : Value) : Prop := tag.isSet = true → HasAlnum tag.display

instance (tag : Value) : Decidable (IsTelling tag) :=
  inferInstanceAs (Decidable (_ → _))

/-- The text that gives the name: that of the tag, of the fallback, or of the default tag. -/
def tagText (tag : Value) (fallback : String) : String :=
  if tag.isSet then tag.display else if fallback = "" then defaultTag else fallback

variable {c : Char} {s t : List Char} {tag : Value} {fallback : String}

/-- The letters and digits of a text as a tag name has them. -/
def nameChars (s : List Char) : List Char := camelCase isAlnum true (s.map fun c => [c])

theorem nameChars_of_isAlnum (alnum : isAlnum c = true) :
    nameChars (c :: s) =
      Text.upperChars [c] ++ camelCase isAlnum false (s.map fun c => [c]) :=
  camelCase_of_isAlnum alnum

theorem nameChars_of_not_isAlnum (other : isAlnum c = false) :
    nameChars (c :: s) = nameChars s :=
  camelCase_of_not_isAlnum other

/-- What starts after a gap starts with a capital, if it starts with a letter at all. -/
theorem nameChars_cases (s : List Char) :
    nameChars s = [] ∨ ∃ d rest, nameChars s = d :: rest ∧ Text.upperChar d = [d] :=
  camelCase_cases (fun _ => isWord_of_isAlnum) s

/-- To put the first character of an identifier into upper case is to start it after a gap. -/
theorem upperFirst_identifier (s : String) :
    Text.upperFirst (identifier s) = String.ofList (nameChars s.toList) := by
  rw [identifier, identifierOf, pieces]
  cases s.toList with
  | nil => rfl
  | cons c rest =>
    cases alnum : isAlnum c with
    | false =>
      rw [camelCase_of_not_isAlnum alnum, nameChars_of_not_isAlnum alnum, ← nameChars]
      rcases nameChars_cases rest with none | ⟨d, more, chars, stays⟩
      · rw [none]
        rfl
      · rw [chars, upperFirst_cons, stays, List.singleton_append]
    | true =>
      rw [camelCase_of_isAlnum alnum, nameChars_of_isAlnum alnum, if_neg Bool.false_ne_true,
        List.singleton_append, upperFirst_cons, Text.upperChars, List.flatMap_singleton]

/-- The name that a tag gives, in one pass over the text for it. -/
theorem tagName_eq (tag : Value) (fallback : String) :
    tagName tag fallback = String.ofList (nameChars (tagText tag fallback).toList) := by
  rw [← upperFirst_identifier]
  rfl

theorem isAlnum_of_mem_nameChars (member : c ∈ nameChars s) : isAlnum c = true :=
  keep_of_mem_camelCase (fun _ d alnum => isAlnum_upperChar alnum d) member

theorem nameChars_eq_nil_iff : nameChars s = [] ↔ ∀ c ∈ s, isAlnum c = false := by
  induction s with
  | nil => simp [nameChars, camelCase]
  | cons c s ih =>
    rw [List.forall_mem_cons]
    cases alnum : isAlnum c with
    | false => rw [nameChars_of_not_isAlnum alnum, ih, and_iff_right rfl]
    | true =>
      obtain ⟨d, upper, -⟩ := exists_capital (isWord_of_isAlnum alnum)
      simp [nameChars_of_isAlnum alnum, upper]

/-- A name is made of letters and digits only, the first in upper case, so that it gives itself. -/
theorem nameChars_nameChars (s : List Char) : nameChars (nameChars s) = nameChars s := by
  rcases nameChars_cases s with none | ⟨d, rest, chars, stays⟩
  · rw [none]
    rfl
  · have alnum : ∀ c ∈ d :: rest, isAlnum c = true :=
      fun c member => isAlnum_of_mem_nameChars (chars ▸ member)
    obtain ⟨first, others⟩ := List.forall_mem_cons.mp alnum
    rw [chars, nameChars_of_isAlnum first, camelCase_of_kept others, Text.upperChars,
      List.flatMap_singleton, stays, List.singleton_append]

theorem not_hasAlnum_iff {s : String} : ¬HasAlnum s ↔ ∀ c ∈ s.toList, isAlnum c = false := by
  simp [HasAlnum]

theorem ne_empty_of_hasAlnum {s : String} (has : HasAlnum s) : s ≠ "" := by
  rintro rfl
  obtain ⟨c, member, -⟩ := has
  cases member

theorem tagText_of_not_isSet (missing : tag.isSet = false) (stands : HasAlnum fallback) :
    tagText tag fallback = fallback := by
  rw [tagText, missing, if_neg Bool.false_ne_true, if_neg (ne_empty_of_hasAlnum stands)]

theorem tagText_text {s : String} (present : s ≠ "") (fallback : String) :
    tagText (.text s) fallback = s := by
  have set : (Value.text s).isSet = true := bne_iff_ne.mpr present
  rw [tagText, if_pos set]
  rfl

theorem isAlnum_of_mem_tagName (member : c ∈ (tagName tag fallback).toList) :
    isAlnum c = true := by
  rw [tagName_eq, String.toList_ofList] at member
  exact isAlnum_of_mem_nameChars member

/-- With a fallback that has a letter or digit, a name is empty exactly if the tag is there but has
none. -/
theorem tagName_eq_empty_iff (stands : HasAlnum fallback) :
    tagName tag fallback = "" ↔ ¬IsTelling tag := by
  rw [tagName_eq, String.ofList_eq_empty_iff, nameChars_eq_nil_iff, ← not_hasAlnum_iff, IsTelling]
  cases set : tag.isSet with
  | false => simp [tagText_of_not_isSet set stands, stands]
  | true => simp [tagText, set]

/-- A name gives itself, unless it is empty: then the fallback stands in for it. -/
theorem tagName_tagName_iff (stands : HasAlnum fallback) :
    tagName (.text (tagName tag fallback)) fallback = tagName tag fallback ↔
      tagName tag fallback ≠ "" := by
  constructor
  · intro same empty
    rw [empty, tagName_eq_empty_iff stands] at same
    exact same fun set => absurd set (by decide)
  · intro present
    rw [tagName_eq (.text _), tagText_text present, tagName_eq tag, String.toList_ofList,
      nameChars_nameChars]

structure IsServiceName (fallback name : String) : Prop where
  nonempty : name ≠ ""
  alnum : ∀ c ∈ name.toList, isAlnum c = true
  own : tagName (.text name) fallback = name

theorem isServiceName_tagName_iff (stands : HasAlnum fallback) :
    IsServiceName fallback (tagName tag fallback) ↔ IsTelling tag := by
  have present : tagName tag fallback ≠ "" ↔ IsTelling tag := by
    rw [Ne, tagName_eq_empty_iff stands, not_not]
  constructor
  · intro name
    exact present.mp name.nonempty
  · intro telling
    have nonempty := present.mpr telling
    exact ⟨nonempty, fun c member => isAlnum_of_mem_tagName member,
      (tagName_tagName_iff stands).mpr nonempty⟩

end Naming

namespace Services

open Naming

variable {config : Config} {models : Table Model} {document : Value} {services : Table Service}
  {fallback : String}

/-- An operation of the document has the first tag `tag`. -/
def IsFirstTag (document tag : Value) : Prop :=
  ∃ e ∈ pathEntries document, ∃ method definition, e.Operates method definition ∧
    firstTag (definition.get "tags") = .ok tag

theorem mem_declaredOperations {e : Endpoint} (entry : e ∈ pathEntries document) {method : String}
    {definition : Fields} (operates : e.Operates method definition) {tag : Value}
    (first : firstTag (definition.get "tags") = .ok tag) :
    (⟨tagName tag config.defaultTag, ⟨e.url, method, e.item⟩, definition⟩ : Declared) ∈
      declaredOperations config document :=
  List.mem_filterMap.mpr ⟨e, entry, declared?_of_operates operates first⟩

/-- The services of a document have the names that the first tags of its operations give. -/
theorem mem_keys_ofDocument (success : (ofDocument config models document).outcome = .ok services)
    {name : String} : name ∈ services.keys ↔
      ∃ tag, IsFirstTag document tag ∧ tagName tag config.defaultTag = name := by
  obtain ⟨drafts, gathered, sameKeys, -⟩ := gathered_of_ofDocument success
  rw [sameKeys, gathered.tags, TypeExpr.mem_distinct, List.mem_map]
  constructor
  · rintro ⟨d, member, rfl⟩
    obtain ⟨e, entry, declared⟩ := List.mem_filterMap.mp member
    by_cases operates : ∃ method definition, e.Operates method definition
    · obtain ⟨method, definition, operates⟩ := operates
      obtain ⟨first, read⟩ := gathered.tagged e entry method definition operates
      rw [declared?_of_operates operates read, Option.some.injEq] at declared
      subst declared
      refine ⟨first, ⟨e, entry, method, definition, operates, read⟩, ?_⟩
      dsimp only
    · rw [declared?_of_passed fun method definition there => operates ⟨method, definition, there⟩]
        at declared
      cases declared
  · rintro ⟨first, ⟨e, entry, method, definition, operates, read⟩, rfl⟩
    refine ⟨_, mem_declaredOperations entry operates read, ?_⟩
    dsimp only

/-- With a fallback that has a letter or digit, a tag gives the name of a service exactly if it is
telling; else the name is empty. So the services of a document have such names exactly if all first
tags of operations are telling. -/
theorem serviceNames_iff (stands : HasAlnum fallback) :
    (∀ tag, IsServiceName fallback (tagName tag fallback) ↔ IsTelling tag) ∧
    (∀ tag, ¬IsTelling tag → tagName tag fallback = "") ∧
    ∀ (config : Config) (models : Table Model) (document : Value) (services : Table Service),
      config.defaultTag = fallback → (ofDocument config models document).outcome = .ok services →
      ((∀ name ∈ services.keys, IsServiceName fallback name) ↔
        ∀ tag, IsFirstTag document tag → IsTelling tag) := by
  refine ⟨fun tag => isServiceName_tagName_iff stands,
    fun tag => (tagName_eq_empty_iff stands).mpr, ?_⟩
  rintro config models document services rfl success
  constructor
  · intro sound tag used
    have name := sound _ ((mem_keys_ofDocument success).mpr ⟨tag, used, rfl⟩)
    exact (isServiceName_tagName_iff stands).mp name
  · intro telling name member
    obtain ⟨tag, used, rfl⟩ := (mem_keys_ofDocument success).mp member
    exact (isServiceName_tagName_iff stands).mpr (telling tag used)

/-- The services of a shop have names in order, so that all tags of its operations are telling. -/
theorem serviceNames_shop : HasAlnum "Api" ∧ IsTelling (.text " -our pets ☃") ∧
    IsServiceName "Api" (tagName (.text " -our pets ☃") "Api") ∧
    ∃ models services, (ofDocument {} models shopDocument).outcome = .ok services ∧
      services.keys = ["OurPets", "Api"] ∧ (∀ name ∈ services.keys, IsServiceName "Api" name) ∧
      ∀ tag, IsFirstTag shopDocument tag → IsTelling tag := by
  obtain ⟨models, services, -, built, keys⟩ := shop_built
  have stands : HasAlnum "Api" := ⟨'A', by decide, by decide⟩
  have telling : IsTelling (.text " -our pets ☃") := fun _ => ⟨'o', by decide, by decide⟩
  obtain ⟨each, -, all⟩ := serviceNames_iff stands
  have named : ∀ name ∈ services.keys, IsServiceName "Api" name := by
    rw [keys]
    simp only [List.mem_cons, List.not_mem_nil, or_false]
    rintro name (rfl | rfl)
    · have pets : tagName (.text " -our pets ☃") "Api" = "OurPets" := by cbv
      exact pets ▸ (each _).mpr telling
    · have missing : tagName .null "Api" = "Api" := by cbv
      exact missing ▸ (each _).mpr fun set => absurd set (by decide)
  exact ⟨stands, telling, (each _).mpr telling, models, services, built, keys, named,
    (all {} models shopDocument services rfl built).mp named⟩

/-- Tags without ASCII letters and digits are merged under an empty name. -/
theorem serviceNames_merged : HasAlnum "Api" ∧
    tagName (.text "日本") "Api" = "" ∧ tagName (.text " - ") "Api" = "" ∧
    ¬IsServiceName "Api" "" ∧
    ∃ models services,
      (ofDocument {} models (.object [(.text "paths", .object [
        (.text "/pets", .object [(.text "get", taggedOperation "getPets" ["日本"])]),
        (.text "/shops", .object [(.text "get", taggedOperation "getShops" [" - "])])])])).outcome =
          .ok services ∧
      services.entries.map (fun (name, s) => (name, s.operations.map Operation.path)) =
        [("", [.text "/pets", .text "/shops"])] := by
  obtain ⟨models, -⟩ := Api.petModels_built
  refine ⟨⟨'A', by decide, by decide⟩, by cbv, by cbv, fun name => name.nonempty rfl, models, ?_⟩
  exact ⟨_, by cbv, by cbv⟩

end Services

end ClientGen
