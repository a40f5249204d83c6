import ClientGen.Proofs.Compositions
import ClientGen.Proofs.FilePaths
import ClientGen.Proofs.Numerals
import ClientGen.Proofs.ReferenceNames

/-!
# Class names read again

A class name is empty or an identifier that no small letter starts, and just such texts are the
class names of themselves (`Naming.className_eq_self_iff`). So a class name that is read once more,
as a reference or as a parent in a composition, is the same class name and leads to the same model.
The empty class name is the exception: an empty text is no reference, and an empty parent is not
recorded (`Models.readsBack_iff`).
-/
namespace ClientGen

namespace Naming

/-- An identifier of ASCII letters, digits and underscores. -/
structure IsAsciiIdentifier (name : String) : Prop where
  nonempty : name ≠ ""
  words : ∀ c ∈ name.toList, isWord c = true
  start : ∀ c ∈ name.toList.head?, c.isDigit = false

variable {c : Char} {rest : List Char} {name : String}

theorem IsAsciiIdentifier.exists_cons (identifier : IsAsciiIdentifier name) :
    ∃ c rest, name.toList = c :: rest ∧ isWord c = true ∧ c.isDigit = false := by
  have present : name.toList ≠ [] := by
    rw [Ne, String.toList_eq_nil_iff]
    exact identifier.nonempty
  obtain ⟨c, rest, chars⟩ := List.exists_cons_of_ne_nil present
  exact ⟨c, rest, chars, identifier.words c (by simp [chars]), identifier.start c (by simp [chars])⟩

theorem toList_className (name : String) : (className name).toList =
    escapeDigit (camelCase isWord true (name.toList.map fun c => [c])) := by
  rw [className, classNameOf, String.toList_ofList, pieces]

/-- A class name is empty, or starts with a character that is neither a digit nor a small letter:
either it has been put into upper case, or it is the underscore before a digit. -/
theorem className_cases (name : String) : className name = "" ∨
    ∃ c rest, (className name).toList = c :: rest ∧ Text.isDigit c = false ∧
      Text.upperChar c = [c] := by
  have written := toList_className name
  rcases camelCase_cases (fun _ => id) name.toList with none | ⟨c, rest, chars, stays⟩
  · rw [none] at written
    exact .inl (String.toList_eq_nil_iff.mp written)
  · right
    rw [chars, escapeDigit, startsWith] at written
    cases digit : Text.isDigit c with
    | true =>
      rw [digit, if_pos rfl] at written
      exact ⟨'_', c :: rest, written, by decide, rfl⟩
    | false =>
      rw [digit, if_neg Bool.false_ne_true] at written
      exact ⟨c, rest, written, digit, stays⟩

/-- A text of word characters is its own class name, if the first one needs neither an underscore
before it nor upper case. -/
theorem className_of_words (chars : name.toList = c :: rest)
    (words : ∀ x ∈ name.toList, isWord x = true) (noDigit : Text.isDigit c = false)
    (stays : Text.upperChar c = [c]) : className name = name := by
  rw [chars] at words
  obtain ⟨first, others⟩ := List.forall_mem_cons.mp words
  rw [← String.toList_inj, toList_className, chars, List.map_cons, camelCase_cons_of_word first,
    if_pos rfl, stays, camelCase_of_kept others, List.singleton_append, escapeDigit, startsWith,
    noDigit, if_neg Bool.false_ne_true]

/-- A class name is its own class name. -/
theorem className_className (name : String) : className (className name) = className name := by
  rcases className_cases name with empty | ⟨c, rest, chars, noDigit, stays⟩
  · rw [empty]
    decide
  · exact className_of_words chars (fun _ => isWord_of_mem_className) noDigit stays

theorem isAsciiIdentifier_className (present : className name ≠ "") :
    IsAsciiIdentifier (className name) := by
  refine ⟨present, fun _ => isWord_of_mem_className, ?_⟩
  obtain ⟨c, rest, chars, noDigit, -⟩ := (className_cases name).resolve_left present
  intro first start
  rw [chars, List.head?_cons, Option.mem_some_iff] at start
  subst start
  cases digit : c.isDigit with
  | false => rfl
  | true =>
    rw [Text.isDigit_of_ascii digit] at noDigit
    cases noDigit

/-- The class names are the texts that are their own class names: the empty one, and the identifiers
that no small letter starts. -/
theorem className_eq_self_iff : className name = name ↔
    name = "" ∨ IsAsciiIdentifier name ∧ ∀ c ∈ name.toList.head?, c.isLower = false := by
  constructor
  · intro own
    by_cases empty : name = ""
    · exact .inl empty
    · rw [← own] at empty
      have identifier := isAsciiIdentifier_className empty
      obtain ⟨c, rest, chars, -, stays⟩ := (className_cases name).resolve_left empty
      rw [own] at identifier chars
      refine .inr ⟨identifier, ?_⟩
      intro first start
      rw [chars, List.head?_cons, Option.mem_some_iff] at start
      subst start
      exact (upperChar_eq_self_iff (identifier.words c (by simp [chars]))).mp stays
  · rintro (rfl | ⟨identifier, big⟩)
    · decide
    · obtain ⟨c, rest, chars, word, noDigit⟩ := identifier.exists_cons
      have range := (isWord_iff c).mp word
      have stays := (upperChar_eq_self_iff word).mpr (big c (by simp [chars]))
      rw [← Text.isDigit_eq_of_lt (by omega)] at noDigit
      exact className_of_words chars identifier.words noDigit stays

theorem slash_not_mem_className (name : String) : '/' ∉ (className name).toList :=
  fun member => absurd (isWord_of_mem_className member) (by decide)

/-- A class name is read as a reference to itself. -/
theorem classOfRef_className (name : String) : classOfRef (className name) = className name := by
  rw [classOfRef, Text.afterLast_of_absent (slash_not_mem_className name), String.ofList_toList,
    className_className]

/-- A text is a reference unless it is empty. -/
theorem classOfRef?_text (ref : String) :
    classOfRef? (.text ref) = .ok (if ref = "" then none else some (classOfRef ref)) := by
  by_cases empty : ref = ""
  · subst empty
    rfl
  · have set : (Value.text ref).isSet = true := bne_iff_ne.mpr empty
    rw [classOfRef?, if_pos set, if_neg empty]
    rfl

/-- Behind a slash every class name is read as a reference to itself, the empty one included. -/
theorem classOfRef?_behind_slash (front name : String) :
    classOfRef? (.text (front ++ "/" ++ className name)) = .ok (some (className name)) := by
  have chars : (front ++ "/" ++ className name).toList =
      front.toList ++ '/' :: (className name).toList := by simp
  have present : front ++ "/" ++ className name ≠ "" := by
    intro empty
    rw [empty] at chars
    simp at chars
  rw [classOfRef?_text, if_neg present, classOfRef, chars,
    Text.afterLast_append_cons _ (slash_not_mem_className name), String.ofList_toList,
    className_className]

end Naming

namespace Models

open Naming

/-- A branch of a composition that refers to the class `name` behind a slash. -/
def branchTo (front name : String) : Value :=
  .object [(.text "$ref", .text (front ++ "/" ++ name))]

/-- The class name of a model leads back to the model: read as a reference, and recorded as a parent
for a branch that refers to it. -/
structure ReadsBack (models : Table Model) (m : Model) : Prop where
  reference : ∃ name, classOfRef? (.text m.className) = .ok (some name) ∧
    models.get? (key name) = some m
  parent : ∀ (c : Model.Composition) (path front : String), ∃ name,
    c.add path (branchTo front m.className) = .ok { c with parents := c.parents ++ [name] } ∧
      models.get? (key name) = some m

variable {models : Table Model} {m : Model} {name : String}

/-- A branch that refers to a class adds it as a parent, unless its name is empty. -/
theorem add_branchTo (c : Model.Composition) (path front name : String) :
    c.add path (branchTo front (className name)) =
      .ok (if className name = "" then c
        else { c with parents := c.parents ++ [className name] }) := by
  have reference : Fields.get [(.text "$ref", .text (front ++ "/" ++ className name))] "$ref" =
      .text (front ++ "/" ++ className name) := rfl
  rw [branchTo, Model.Composition.add, reference, classOfRef?_behind_slash]
  rfl

/-- Whatever the branches of a composition refer to, no empty name is recorded as a parent. -/
theorem empty_notMem_parents {path : String} {start : Nat} {branches : List Value}
    {c : Model.Composition} (joined : ({} : Model.Composition).addAll path start branches = .ok c) :
    "" ∉ c.parents := by
  intro member
  obtain ⟨parents, -, -⟩ := Model.Composition.addAll_ok joined
  rw [parents, List.nil_append, List.mem_filterMap] at member
  obtain ⟨branch, -, names⟩ := member
  unfold Model.parentOf? at names
  split at names
  · split at names
    · rw [Option.ite_none_left_eq_some] at names
      obtain ⟨nonempty, same⟩ := names
      exact nonempty (Option.some.inj same)
    · cases names
  · cases names

/-- A parent is linked to the model under its key. -/
theorem linkParents_singleton (child : Model) (present : models.get? (key name) = some m) :
    ∃ after, linkParents child models [name] = .ok (after, [m.className]) := by
  have found : lookupParent models child.name name = .ok m.className :=
    lookupParent_eq_ok.mpr ⟨m, present, rfl⟩
  rw [linkParents_eq, List.mapM_cons, found]
  exact ⟨_, rfl⟩

/-- Of the models that are filed under their class names, just those with an empty one are not led
back to. -/
theorem readsBack_iff (named : m.className = className name)
    (present : models.get? (key m.className) = some m) :
    ReadsBack models m ↔ m.className ≠ "" := by
  constructor
  · rintro ⟨⟨found, read, -⟩, -⟩ empty
    rw [empty] at read
    cases read
  · intro nonempty
    refine ⟨⟨m.className, ?_, present⟩, fun c path front => ⟨m.className, ?_, present⟩⟩
    · rw [classOfRef?_text, if_neg nonempty, named, classOfRef_className]
    · rw [named] at nonempty ⊢
      rw [add_branchTo, if_neg nonempty]

/-- A class name is empty or an identifier, and its own class name. The empty text is no reference,
and no composition records a parent with an empty name. A model is found again by its class name:
under the key, by a reference that ends with the class name behind a slash, and as the parent of
another model. Where the class name stands alone as a reference, or is to be recorded as a parent,
the model is found exactly if the class name is not empty. -/
theorem className_reads_back :
    (∀ name, (className name = "" ∨ IsAsciiIdentifier (className name)) ∧
      className (className name) = className name ∧
      (className name = name ↔
        name = "" ∨ IsAsciiIdentifier name ∧ ∀ c ∈ name.toList.head?, c.isLower = false)) ∧
    classOfRef? (.text "") = .ok none ∧
    (∀ path branches c, ({} : Model.Composition).addAll path 0 branches = .ok c →
      "" ∉ c.parents) ∧
    ∀ config definitions models, (ofDefinitions config definitions).outcome = .ok models →
      ∀ k m, models.get? k = some m →
        key m.className = k ∧
        (∀ front, classOfRef? (.text (front ++ "/" ++ m.className)) = .ok (some m.className)) ∧
        (∀ child, ∃ after,
          linkParents child models [m.className] = .ok (after, [m.className])) ∧
        (ReadsBack models m ↔ m.className ≠ "") := by
  refine ⟨fun name => ⟨?_, className_className name, className_eq_self_iff⟩, rfl,
    fun _ _ _ joined => empty_notMem_parents joined, ?_⟩
  · exact (em _).imp_right isAsciiIdentifier_className
  · intro config definitions models success k m present
    obtain ⟨filed, ⟨name, named⟩, -⟩ := named_of_ofDefinitions success present
    subst filed
    refine ⟨rfl, fun front => ?_, fun child => linkParents_singleton child present,
      readsBack_iff named present⟩
    rw [named, classOfRef?_behind_slash]

/-- A definition whose class name has an underscore before it, and one that extends it by this class
name. -/
def printDefinitions : Fields :=
  [(.text "3d-model", .object []),
    (.text "Print", .object [(.text "allOf", .list [branchTo "#/definitions" "_3dModel"])])]

/-- The class name of a model is an identifier although the name of the definition is none, and the
model is found by it. -/
theorem className_reads_back_print :
    className "3d-model" = "_3dModel" ∧ IsAsciiIdentifier "_3dModel" ∧
    className "_3dModel" = "_3dModel" ∧
    ∃ models m, (ofDefinitions {} (.object printDefinitions)).outcome = .ok models ∧
      models.get? "_3dmodel" = some m ∧ m.className = "_3dModel" ∧
      key m.className = "_3dmodel" ∧
      classOfRef? (.text "#/definitions/_3dModel") = .ok (some "_3dModel") ∧
      (∀ child, ∃ after,
        linkParents child models ["_3dModel"] = .ok (after, ["_3dModel"])) ∧
      ReadsBack models m := by
  obtain ⟨names, -, -, tables⟩ := className_reads_back
  have called : className "3d-model" = "_3dModel" := by cbv
  obtain ⟨identifier, own, -⟩ := names "3d-model"
  rw [called] at identifier own
  obtain ⟨models, m, success, present, named⟩ :
      ∃ models m, (ofDefinitions {} (.object printDefinitions)).outcome = .ok models ∧
        models.get? "_3dmodel" = some m ∧ m.className = "_3dModel" :=
    ⟨_, _, by cbv, by cbv, by cbv⟩
  obtain ⟨filed, read, linked, back⟩ := tables {} _ models success _ m present
  have reference := read "#/definitions"
  rw [named] at reference linked back
  have found : ReadsBack models m := back.mpr (by decide)
  exact ⟨called, identifier.resolve_left (by decide), own, models, m, success, present, named,
    filed, reference, linked, found⟩

/-- A definition without word characters in its name, and one that extends it. -/
def dashDefinitions : Fields :=
  [(.text "-", .object []),
    (.text "Cat", .object [(.text "allOf", .list [branchTo "#/definitions" "-"])])]

/-- The empty class name is no reference, and the definition that extends the model becomes a name
for text, without a parent. -/
theorem className_not_read_back : className "-" = "" ∧ classOfRef? (.text "") = .ok none ∧
    ∃ models m cat, (ofDefinitions {} (.object dashDefinitions)).outcome = .ok models ∧
      models.get? "" = some m ∧ m.className = "" ∧ ¬ReadsBack models m ∧
      models.get? "cat" = some cat ∧ cat.parents = [] ∧ cat.body = .simple (.scalar "string") := by
  obtain ⟨models, m, cat, success, present, named, presentToo, parents, body⟩ :
      ∃ models m cat, (ofDefinitions {} (.object dashDefinitions)).outcome = .ok models ∧
        models.get? "" = some m ∧ m.className = "" ∧
        models.get? "cat" = some cat ∧ cat.parents = [] ∧ cat.body = .simple (.scalar "string") :=
    ⟨_, _, _, by cbv, by cbv, by cbv, by cbv, by cbv, by cbv⟩
  refine ⟨by cbv, rfl, models, m, cat, success, present, named, ?_, presentToo, parents, body⟩
  rintro ⟨⟨found, read, -⟩, -⟩
  rw [named] at read
  cases read

end Models

end ClientGen
