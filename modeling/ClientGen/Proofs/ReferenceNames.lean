import Mathlib
import ClientGen.Proofs.ClassNames
import ClientGen.Proofs.Runs
import ClientGen.Reference.Pointer

/-!
# References and class names

A reference is read in two ways. As a pointer it is a list of steps, in which escapes are undone and
empty steps are passed over; as the name of a type it is the text after its last slash. For a
reference to a definition the two agree on the class name exactly if the text after the last slash
is the name itself, or there is none and the name has no word character
(`classOfRef?_eq_className_iff`).
-/
namespace ClientGen

namespace Naming

theorem length_upperChar {c : Char} (word : isWord c = true) : (Text.upperChar c).length = 1 := by
  have range := (isWord_iff c).mp word
  have ascii : c.toNat < 0x80 := by omega
  simp [Text.upperChar, ascii]

theorem camelCase_cons_of_word {gap : Bool} {c : Char} {rest : List Piece}
    (word : isWord c = true) : camelCase isWord gap ([c] :: rest) =
      (if gap then Text.upperChar c else [c]) ++ camelCase isWord false rest := by
  have starts : startsWith isWord [c] = true := word
  rw [camelCase, if_pos starts, Text.upperChars, List.flatMap_singleton]

theorem camelCase_cons_of_other {gap : Bool} {c : Char} {rest : List Piece}
    (other : ¬isWord c = true) : camelCase isWord gap ([c] :: rest) =
      camelCase isWord true rest := by
  have starts : ¬startsWith isWord [c] = true := other
  rw [camelCase, if_neg starts]

/-- A class name has a character for each word character of the name. -/
theorem length_camelCase (gap : Bool) (s : List Char) :
    (camelCase isWord gap (s.map fun c => [c])).length = s.countP isWord := by
  induction s generalizing gap with
  | nil => rfl
  | cons c rest ih =>
    by_cases word : isWord c = true
    · have single : (if gap then Text.upperChar c else [c]).length = 1 := by
        split
        · exact length_upperChar word
        · rfl
      rw [List.map_cons, camelCase_cons_of_word word, List.length_append, ih, single,
        List.countP_cons_of_pos word, Nat.add_comm]
    · rw [List.map_cons, camelCase_cons_of_other word, ih, List.countP_cons_of_neg word]

theorem length_escapeDigit (s : List Char) :
    (escapeDigit s).length = s.length + if startsWith Text.isDigit s then 1 else 0 := by
  unfold escapeDigit
  split <;> simp

theorem length_className (name : List Char) :
    (className (String.ofList name)).toList.length = name.countP isWord +
      if startsWith Text.isDigit (camelCase isWord true (name.map fun c => [c])) then 1 else 0 := by
  simp only [className, classNameOf, pieces, String.toList_ofList, length_escapeDigit,
    length_camelCase]

/-- A class name is empty exactly if the name has no word character. -/
theorem className_eq_empty_iff {name : String} :
    className name = "" ↔ ∀ c ∈ name.toList, isWord c = false := by
  have length := length_className name.toList
  have counted := length_camelCase true name.toList
  rw [String.ofList_toList] at length
  rw [← String.toList_inj, String.toList_empty, ← List.length_eq_zero_iff, length]
  constructor
  · intro empty c member
    have none : name.toList.countP isWord = 0 := by omega
    rw [List.countP_eq_zero] at none
    simpa using none c member
  · intro other
    have none : name.toList.countP isWord = 0 := by
      rw [List.countP_eq_zero]
      intro c member
      simp [other c member]
    rw [none] at counted ⊢
    rw [List.length_eq_zero_iff.mp counted]
    rfl

end Naming

namespace Reference

theorem length_unescape_le (s : List Char) : (unescape s).length ≤ s.length := by
  fun_induction unescape s with
  | case1 rest ih => simp only [List.length_cons]; omega
  | case2 rest ih => simp only [List.length_cons]; omega
  | case3 c rest _ _ ih => simp only [List.length_cons]; omega
  | case4 => exact Nat.le_refl 0

theorem unescape_eq_nil_iff {s : List Char} : unescape s = [] ↔ s = [] := by
  fun_cases unescape s <;> simp

/-- Undoing an escape makes a step shorter. -/
theorem unescape_eq_self_iff {s : List Char} :
    unescape s = s ↔ (unescape s).length = s.length := by
  constructor
  · intro same
    rw [same]
  · fun_induction unescape s with
    | case1 rest ih =>
      have shorter := length_unescape_le rest
      simp only [List.length_cons]
      omega
    | case2 rest ih =>
      have shorter := length_unescape_le rest
      simp only [List.length_cons]
      omega
    | case3 c rest _ _ ih =>
      intro length
      simp only [List.length_cons, Nat.add_right_cancel_iff] at length
      rw [ih length]
    | case4 => exact fun _ => rfl

/-- An escape has one word character, its digit, and stands for none. -/
theorem countP_unescape (s : List Char) :
    (unescape s).countP Naming.isWord + s.length =
      s.countP Naming.isWord + (unescape s).length := by
  have tilde : Naming.isWord '~' = false := by decide
  have slash : Naming.isWord '/' = false := by decide
  have one : Naming.isWord '1' = true := by decide
  have zero : Naming.isWord '0' = true := by decide
  fun_induction unescape s with
  | case1 rest ih =>
    simp only [List.countP_cons, List.length_cons, tilde, slash, one, if_true, Bool.false_eq_true,
      if_false]
    omega
  | case2 rest ih =>
    simp only [List.countP_cons, List.length_cons, tilde, zero, if_true, Bool.false_eq_true,
      if_false]
    omega
  | case3 c rest _ _ ih =>
    simp only [List.countP_cons, List.length_cons]
    omega
  | case4 => rfl

/-- The first word character of a step is a digit if it is one once the escapes are undone: it is
the same character, or the digit of an escape. -/
theorem startsWith_digit_of_unescape {gap : Bool} {s : List Char}
    (digit : Naming.startsWith Text.isDigit
      (Naming.camelCase Naming.isWord gap ((unescape s).map fun c => [c])) = true) :
    Naming.startsWith Text.isDigit
      (Naming.camelCase Naming.isWord gap (s.map fun c => [c])) = true := by
  fun_induction unescape s generalizing gap with
  | case1 rest ih => cases gap <;> rfl
  | case2 rest ih => cases gap <;> rfl
  | case3 c rest _ _ ih =>
    by_cases word : Naming.isWord c = true
    · rw [List.map_cons, Naming.camelCase_cons_of_word word] at digit ⊢
      have single : (if gap then Text.upperChar c else [c]) ≠ [] := by
        have one := Naming.length_upperChar word
        split
        · intro empty
          rw [empty] at one
          cases one
        · exact List.cons_ne_nil c []
      obtain ⟨first, others, starts⟩ := List.exists_cons_of_ne_nil single
      rw [starts] at digit ⊢
      exact digit
    · rw [List.map_cons, Naming.camelCase_cons_of_other word] at digit ⊢
      exact ih digit
  | case4 => exact digit

/-- A step with escapes has another class name than what it stands for. -/
theorem className_unescape_iff {s : List Char} :
    Naming.className (String.ofList s) = Naming.className (String.ofList (unescape s)) ↔
      unescape s = s := by
  constructor
  · intro same
    have lengths := congrArg (fun name => name.toList.length) same
    have counted := countP_unescape s
    have shorter := length_unescape_le s
    simp only [Naming.length_className] at lengths
    rw [unescape_eq_self_iff]
    split at lengths
    · split at lengths <;> omega
    · rename_i noDigit
      split at lengths
      · rename_i digit
        exact absurd (startsWith_digit_of_unescape digit) noDigit
      · omega
  · intro plain
    rw [plain]

/-- The reference leads into the definitions of the document, and from there to the definition
`name`. -/
def LeadsTo (document : Value) (ref name : String) (schema : Value) : Prop :=
  ∃ fields definitions : Fields, document = .object fields ∧
    fields.get? "definitions" = some (.object definitions) ∧
    definitions.get? name = some schema ∧ steps? ref = some ["definitions", name]

variable {document schema : Value} {ref name : String}

theorem LeadsTo.resolve_eq (leads : LeadsTo document ref name schema) :
    resolve document ref = .ok schema := by
  obtain ⟨fields, definitions, rfl, inDocument, inDefinitions, steps⟩ := leads
  have first : step ref (.object fields) "definitions" = .ok (.object definitions) := by
    simp only [step, inDocument]
  have second : step ref (.object definitions) name = .ok schema := by
    simp only [step, inDefinitions]
  simp only [resolve, steps, walk, first]
  exact bind_eq_ok.mpr ⟨_, rfl, bind_eq_ok.mpr ⟨schema, second, rfl⟩⟩

/-- The text after the last slash of a reference to a definition is what its last step is made of,
or the reference ends with a slash. -/
theorem afterLast_of_steps (steps : steps? ref = some ["definitions", name]) :
    ∃ raw, raw ≠ [] ∧ name = String.ofList (unescape raw) ∧
      (Text.afterLast '/' ref.toList = raw ∨ Text.afterLast '/' ref.toList = []) := by
  unfold steps? at steps
  split at steps
  · rename_i rest written
    rw [Option.some.injEq, List.map_eq_cons_iff] at steps
    obtain ⟨first, others, parts, -, steps⟩ := steps
    obtain ⟨raw, rfl, rfl⟩ := List.map_eq_singleton_iff.mp steps
    have among : raw ∈ (Text.splitOn '/' rest).filter (!·.isEmpty) := by simp [parts]
    have filled : raw ≠ [] := by simpa using (List.mem_filter.mp among).2
    refine ⟨raw, filled, rfl, ?_⟩
    obtain ⟨front, last, pieces⟩ :=
      (List.eq_nil_or_concat' (Text.splitOn '/' rest)).resolve_left (Text.splitOn_ne_nil '/' rest)
    have after : Text.afterLast '/' ref.toList = last := by
      have slash : '#' :: '/' :: rest = ['#'] ++ '/' :: rest := rfl
      rw [written, slash, Text.afterLast, Text.splitOn_append_cons, pieces, ← List.append_assoc,
        List.getLast?_concat, Option.getD_some]
    rw [after]
    by_cases empty : last = []
    · exact Or.inr empty
    · left
      have kept : [last].filter (!·.isEmpty) = [last] := by simp [empty]
      rw [pieces, List.filter_append, kept] at parts
      have ends := congrArg List.getLast? parts
      simpa using ends
  · cases steps

/-- A reference to a definition is read as the class name of the definition exactly if the text
after its last slash is the name of the definition, or there is none and the name has no word
character either. -/
theorem classOfRef?_eq_className_iff (leads : LeadsTo document ref name schema) :
    resolve document ref = .ok schema ∧
      (Naming.classOfRef? (.text ref) = .ok (some (Naming.className name)) ↔
        Text.afterLast '/' ref.toList = name.toList ∨
        Text.afterLast '/' ref.toList = [] ∧ ∀ c ∈ name.toList, Naming.isWord c = false) := by
  refine ⟨leads.resolve_eq, ?_⟩
  obtain ⟨-, -, -, -, -, steps⟩ := leads
  obtain ⟨raw, filled, rfl, after⟩ := afterLast_of_steps steps
  have isSet : (Value.text ref).isSet = true := by
    have written : ref ≠ "" := by
      rintro rfl
      cases steps
    simpa [Value.isSet] using written
  have read : Naming.classOfRef? (.text ref) = .ok (some (Naming.classOfRef ref)) := by
    rw [Naming.classOfRef?, if_pos isSet]
    rfl
  have named : unescape raw ≠ [] := fun empty => filled (unescape_eq_nil_iff.mp empty)
  rw [read, Except.ok.injEq, Option.some.injEq, Naming.classOfRef, String.toList_ofList]
  rcases after with whole | nothing
  · rw [whole, className_unescape_iff]
    constructor
    · intro plain
      exact Or.inl plain.symm
    · rintro (plain | ⟨empty, -⟩)
      · exact plain.symm
      · exact absurd empty filled
  · rw [nothing]
    have empty : Naming.className (String.ofList []) = "" := rfl
    rw [empty, eq_comm, Naming.className_eq_empty_iff, String.toList_ofList]
    constructor
    · intro other
      exact Or.inr ⟨rfl, other⟩
    · rintro (same | ⟨-, other⟩)
      · exact absurd same.symm named
      · exact other

/-- A document with a definition whose name holds a slash. -/
def partsDocument : Value :=
  .object [(.text "definitions", .object [
    (.text "spare part", .object [(.text "type", .text "object")]),
    (.text "part/list", .object [(.text "type", .text "array")])])]

theorem leadsTo_sparePart : LeadsTo partsDocument "#//definitions/spare part" "spare part"
    (.object [(.text "type", .text "object")]) :=
  ⟨_, _, rfl, by rfl, by rfl, by cbv⟩

theorem leadsTo_partList : LeadsTo partsDocument "#/definitions/part~1list" "part/list"
    (.object [(.text "type", .text "array")]) :=
  ⟨_, _, rfl, by rfl, by rfl, by cbv⟩

theorem leadsTo_sparePart_slash : LeadsTo partsDocument "#/definitions/spare part/" "spare part"
    (.object [(.text "type", .text "object")]) :=
  ⟨_, _, rfl, by rfl, by rfl, by cbv⟩

/-- Where the name stands after the last slash, the reference is read as its class name. -/
theorem classOfRef?_sparePart :
    LeadsTo partsDocument "#//definitions/spare part" "spare part"
      (.object [(.text "type", .text "object")]) ∧
    resolve partsDocument "#//definitions/spare part" =
      .ok (.object [(.text "type", .text "object")]) ∧
    Naming.classOfRef? (.text "#//definitions/spare part") =
      .ok (some (Naming.className "spare part")) := by
  obtain ⟨resolved, agrees⟩ := classOfRef?_eq_className_iff leadsTo_sparePart
  exact ⟨leadsTo_sparePart, resolved, agrees.mpr (Or.inl (by cbv))⟩

/-- An escape in the last step, or a slash after it, gives a class name that no definition has. -/
theorem classOfRef?_partList :
    LeadsTo partsDocument "#/definitions/part~1list" "part/list"
      (.object [(.text "type", .text "array")]) ∧
    Naming.classOfRef? (.text "#/definitions/part~1list") = .ok (some "Part1list") ∧
    Naming.className "part/list" = "PartList" ∧
    LeadsTo partsDocument "#/definitions/spare part/" "spare part"
      (.object [(.text "type", .text "object")]) ∧
    Naming.classOfRef? (.text "#/definitions/spare part/") = .ok (some "") ∧
    Naming.className "spare part" = "SparePart" :=
  ⟨leadsTo_partList, by cbv, by cbv, leadsTo_sparePart_slash, by cbv, by cbv⟩

end Reference

end ClientGen
