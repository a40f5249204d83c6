import Mathlib
import ClientGen.Proofs.ServiceLiterals

/-!
# The identifiers of parameters

The identifier of a parameter is made of the letters and digits of its name, with a capital after
each gap. The gaps are gone then, so that names can meet in an identifier, and nothing stands before
a digit at the start. Two names have the same identifier exactly if they are spelled alike
(`Naming.identifier_eq_iff`), and an identifier can be declared exactly if a letter comes first in
the name. `Operation.identifiersFit_iff` puts this together for the parameters of an operation.
-/
namespace ClientGen

namespace Naming

/-- The letters and digits of a name without regard to case, and whether they are written as
capitals: as such, or behind a gap. `gap` says whether the name starts after one. -/
def spelling (gap : Bool) : List Char → List (List Char × Bool)
  | [] => []
  | c :: rest =>
    if isAlnum c then (Text.lowerChar c, c.isAlpha && (gap || c.isUpper)) :: spelling false rest
    else spelling true rest

/-- Two names have the same letters and digits up to case, and the same of the letters are capitals
or stand behind a gap. -/
def SpelledAlike (a b : String) : Prop := spelling false a.toList = spelling false b.toList

instance (a b : String) : Decidable (SpelledAlike a b) :=
  inferInstanceAs (Decidable (_ = _))

def LetterFirst (name : String) : Prop :=
  ∃ c, name.toList.find? isAlnum = some c ∧ c.isAlpha = true

/-- An identifier that can be declared is not empty and starts with no digit. -/
def IsDeclarable (identifier : String) : Prop :=
  ∃ c rest, identifier.toList = c :: rest ∧ c.isDigit = false

theorem isUpper_iff (c : Char) : c.isUpper = true ↔ 65 ≤ c.toNat ∧ c.toNat ≤ 90 := by
  simp only [Char.isUpper, decide_eq_true_eq, UInt32.le_iff_toNat_le, ge_iff_le]
  rfl

theorem isAlpha_iff (c : Char) : c.isAlpha = true ↔
    (65 ≤ c.toNat ∧ c.toNat ≤ 90) ∨ (97 ≤ c.toNat ∧ c.toNat ≤ 122) := by
  simp only [Char.isAlpha, Bool.or_eq_true, isUpper_iff, Char.isLower, Bool.and_eq_true,
    decide_eq_true_eq, UInt32.le_iff_toNat_le, ge_iff_le]
  rfl

theorem isDigit_iff (c : Char) : c.isDigit = true ↔ 48 ≤ c.toNat ∧ c.toNat ≤ 57 := by
  simp only [Char.isDigit, Bool.and_eq_true, decide_eq_true_eq, UInt32.le_iff_toNat_le, ge_iff_le]
  rfl

/-- A letter or digit is known by its lower case form and by whether it is a capital. -/
theorem eq_of_lowerChar {c d : Char} (first : isAlnum c = true) (second : isAlnum d = true)
    (lower : Text.lowerChar c = Text.lowerChar d) (upper : c.isUpper = d.isUpper) : c = d := by
  rw [Bool.eq_iff_iff, isUpper_iff, isUpper_iff] at upper
  rw [lowerChar_of_isWord (isWord_of_isAlnum first), lowerChar_of_isWord (isWord_of_isAlnum second),
    List.singleton_inj, if_congr upper rfl rfl] at lower
  split at lower
  · have codes := congrArg Char.toNat lower
    rw [toNat_ofNat_of_lt (by omega), toNat_ofNat_of_lt (by omega)] at codes
    exact Char.toNat_inj.mp (by omega)
  · exact lower

theorem isDigit_of_isAlnum {c : Char} (alnum : isAlnum c = true) : c.isDigit = !c.isAlpha := by
  have codes := (isAlnum_iff c).mp alnum
  cases letter : c.isAlpha with
  | true =>
    rw [isAlpha_iff] at letter
    rw [Bool.not_true, Bool.eq_false_iff, Ne, isDigit_iff]
    omega
  | false =>
    rw [Bool.eq_false_iff, Ne, isAlpha_iff] at letter
    rw [Bool.not_false, isDigit_iff]
    omega

/-- How a letter or digit is written in an identifier: a letter behind a gap as a capital. -/
theorem exists_written {c : Char} (alnum : isAlnum c = true) (gap : Bool) :
    ∃ d, (if gap then Text.upperChars [c] else [c]) = [d] ∧ isAlnum d = true ∧
      Text.lowerChar d = Text.lowerChar c ∧ d.isUpper = (c.isAlpha && (gap || c.isUpper)) ∧
      d.isAlpha = c.isAlpha := by
  cases gap with
  | false =>
    refine ⟨c, rfl, alnum, rfl, ?_, rfl⟩
    rw [Char.isAlpha]
    cases c.isUpper <;> simp
  | true =>
    obtain ⟨d, upper, -, same⟩ := exists_upperChar (isWord_of_isAlnum alnum)
    have written := List.singleton_inj.mp
      ((upperChar_of_isWord (isWord_of_isAlnum alnum)).symm.trans upper)
    have codes := (isAlnum_iff c).mp alnum
    have code : d.toNat = if 97 ≤ c.toNat ∧ c.toNat ≤ 122 then c.toNat - 32 else c.toNat := by
      rw [← written]
      split
      · exact toNat_ofNat_of_lt (by omega)
      · rfl
    have capital : d.isUpper = c.isAlpha := by
      rw [Bool.eq_iff_iff, isUpper_iff, isAlpha_iff, code]
      split <;> omega
    have letter : d.isAlpha = c.isAlpha := by
      rw [Bool.eq_iff_iff, isAlpha_iff, isAlpha_iff, code]
      split <;> omega
    exact ⟨d, by simp [Text.upperChars, upper], isAlnum_upperChar alnum d (by simp [upper]), same,
      by simpa using capital, letter⟩

variable {gap : Bool} {c : Char} {s t rest : List Char}

/-- The spelling of a name is read off its identifier. -/
theorem spelling_eq (gap : Bool) (s : List Char) : spelling gap s =
    (camelCase isAlnum gap (s.map fun c => [c])).map fun d => (Text.lowerChar d, d.isUpper) := by
  induction s generalizing gap with
  | nil => rfl
  | cons c rest ih =>
    cases alnum : isAlnum c with
    | false =>
      rw [camelCase_of_not_isAlnum alnum, spelling, alnum, ← ih]
      rfl
    | true =>
      obtain ⟨d, written, -, lower, upper, -⟩ := exists_written alnum gap
      rw [camelCase_of_isAlnum alnum, written, spelling, alnum, List.singleton_append,
        List.map_cons, ← ih, lower, upper]
      rfl

/-- Letters and digits that are spelled alike are the same. -/
theorem eq_of_map_spelled (first : ∀ c ∈ s, isAlnum c = true) (second : ∀ c ∈ t, isAlnum c = true)
    (same : s.map (fun d => (Text.lowerChar d, d.isUpper)) =
      t.map fun d => (Text.lowerChar d, d.isUpper)) : s = t := by
  induction s generalizing t with
  | nil => exact (List.map_eq_nil_iff.mp same.symm).symm
  | cons c rest ih =>
    cases t with
    | nil => cases same
    | cons d more =>
      obtain ⟨own, others⟩ := List.forall_mem_cons.mp first
      obtain ⟨ownToo, othersToo⟩ := List.forall_mem_cons.mp second
      obtain ⟨head, tail⟩ := List.cons.inj same
      obtain ⟨lower, upper⟩ := Prod.mk.inj head
      rw [eq_of_lowerChar own ownToo lower upper, ih others othersToo tail]

/-- Names have the same identifier exactly if they are spelled alike. -/
theorem identifier_eq_iff {a b : String} : identifier a = identifier b ↔ SpelledAlike a b := by
  have letters : ∀ name, ∀ c ∈ camelCase isAlnum false (pieces name), isAlnum c = true :=
    fun name c member => keep_of_mem_camelCase (fun _ d alnum => isAlnum_upperChar alnum d) member
  rw [SpelledAlike, spelling_eq, spelling_eq, identifier, identifier, identifierOf, identifierOf,
    String.ofList_inj]
  constructor
  · intro same
    exact congrArg _ same
  · intro same
    exact eq_of_map_spelled (letters a) (letters b) same

/-- What is left of a name can be declared exactly if a letter comes first in it. -/
theorem declarable_camelCase_iff (gap : Bool) (s : List Char) :
    (∃ d more, camelCase isAlnum gap (s.map fun c => [c]) = d :: more ∧ d.isDigit = false) ↔
      ∃ c, s.find? isAlnum = some c ∧ c.isAlpha = true := by
  induction s generalizing gap with
  | nil => simp [camelCase]
  | cons c rest ih =>
    cases alnum : isAlnum c with
    | false =>
      rw [camelCase_of_not_isAlnum alnum, ih, List.find?_cons_of_neg (by simp [alnum])]
    | true =>
      obtain ⟨d, written, stays, -, -, letter⟩ := exists_written alnum gap
      rw [camelCase_of_isAlnum alnum, written, List.find?_cons_of_pos alnum]
      simp [isDigit_of_isAlnum stays, letter]

theorem isDeclarable_identifier_iff {name : String} :
    IsDeclarable (identifier name) ↔ LetterFirst name := by
  rw [IsDeclarable, identifier, identifierOf, String.toList_ofList]
  exact declarable_camelCase_iff false name.toList

end Naming

namespace Client

/-- A parameter as it is declared: by its identifier, and with its type. -/
def parameterDeclaration (p : Parameter) : String :=
  optionalName p.identifier p.required ++ ": " ++ p.type.text

/-- The code for an operation declares a parameter by its identifier, in the signature or in the
object that holds the parameters, and the body reads it from there. -/
structure UsesIdentifier (serviceClass : String) (o : Operation) (p : Parameter) : Prop where
  access : p.access = Parameter.scope o.paramsClass.isSome ++ p.identifier
  inSignature : o.paramsClass = none →
    (parameterDeclaration p).toList <:+: (signature serviceClass o).toList
  inContainer : o.paramsClass ≠ none → ∀ text, container o = .ok text →
    (parameterDeclaration p).toList <:+: text.toList
  inBody : ∀ statement, sending p = .ok statement → statement ≠ "" →
    p.access.toList <:+: statement.toList

variable {o : Operation} {p : Parameter}

theorem infix_signature (serviceClass : String) (separate : o.paramsClass = none)
    (member : p ∈ o.parameters) :
    (parameterDeclaration p).toList <:+: (signature serviceClass o).toList := by
  rw [signature, separate]
  refine .trans ?_ (Text.infix_join (List.mem_map_of_mem member))
  exact Text.infix_append_of_left (List.infix_refl _) _

theorem infix_container {text : String} (together : o.paramsClass ≠ none)
    (success : container o = .ok text) (member : p ∈ o.parameters) :
    (parameterDeclaration p).toList <:+: text.toList := by
  obtain ⟨paramsClass, given⟩ := Option.ne_none_iff_exists'.mp together
  rw [container, given] at success
  obtain ⟨members, each, success⟩ := bind_eq_ok.mp success
  cases success
  obtain ⟨line, among, made⟩ := exists_of_forall₂ (forall₂_of_mapM_ok each) member
  obtain ⟨description, -, made⟩ := bind_eq_ok.mp made
  cases made
  have listed := Text.infix_join among
  refine .trans ?_ (listed.trans (Text.infix_append_of_left (Text.infix_append_self _ _) _))
  have same : description ++ optionalName p.identifier p.required ++ ": " ++ p.type.text ++ ";\n" =
      description ++ parameterDeclaration p ++ ";\n" := by
    simp only [parameterDeclaration, String.append_assoc]
  rw [same]
  exact Text.infix_append_of_left (Text.infix_append_self _ _) _

theorem infix_whenGiven (p : Parameter) (statement : String) :
    p.access.toList <:+: (whenGiven p statement).toList := by
  rw [whenGiven]
  refine Text.infix_append_of_left (Text.infix_append_of_left (Text.infix_append_of_left ?_ _) _) _
  exact Text.infix_append_self _ _

theorem infix_querySending {statement : String} (success : querySending p = .ok statement) :
    p.access.toList <:+: statement.toList := by
  unfold querySending at success
  split at success
  · rw [Except.ok.injEq] at success
    subst success
    repeat first
      | with_reducible exact Text.infix_append_self _ _
      | with_reducible refine Text.infix_append_of_left ?_ _
  · obtain ⟨value, -, success⟩ := bind_eq_ok.mp success
    cases success
    exact infix_whenGiven p _

/-- A statement that sends a parameter reads it. -/
theorem infix_sending {statement : String} (success : sending p = .ok statement)
    (written : statement ≠ "") : p.access.toList <:+: statement.toList := by
  unfold sending at success
  split at success
  · exact infix_querySending success
  · obtain ⟨value, -, success⟩ := bind_eq_ok.mp success
    cases success
    exact infix_whenGiven p _
  · cases success
    exact Text.infix_append_of_left (Text.infix_append_self _ _) _
  · cases success
    exact infix_whenGiven p _
  · cases success
    exact absurd rfl written

end Client

namespace Operation

/-- Parameters with different names are declared and read under different identifiers, and each
identifier can be declared. -/
def IdentifiersFit (o : Operation) : Prop :=
  (∀ p ∈ o.parameters, ∀ q ∈ o.parameters, p.name ≠ q.name →
    p.identifier ≠ q.identifier ∧ p.access ≠ q.access) ∧
  ∀ p ∈ o.parameters, Naming.IsDeclarable p.identifier

/-- The parameters of an operation have names in which a letter comes first, and no two different
ones of which are spelled alike. -/
def NamesFit (o : Operation) : Prop :=
  (∀ p ∈ o.parameters, ∀ q ∈ o.parameters, p.name ≠ q.name →
    ∀ a b, p.name = .text a → q.name = .text b → ¬Naming.SpelledAlike a b) ∧
  ∀ p ∈ o.parameters, ∃ a, p.name = .text a ∧ Naming.LetterFirst a

variable {config : Config} {models : Table Model} {document : Value} {serviceClass id : String}
  {place : Place} {definition : Fields} {o : Operation}

theorem usesIdentifier_of_build
    (success : build config models document serviceClass place definition id = .ok o)
    {p : Parameter} (member : p ∈ o.parameters) : Client.UsesIdentifier serviceClass o p where
  access := by
    obtain ⟨_, -, -, access⟩ := named_of_build success member
    exact access
  inSignature := fun separate => Client.infix_signature serviceClass separate member
  inContainer := fun together _ made => Client.infix_container together made member
  inBody := fun _ made written => Client.infix_sending made written

/-- The code for an operation uses the identifiers of its parameters. Parameters with different
names have different ones, each of which can be declared, exactly if the names of the parameters
fit: in each name a letter comes first, and no two of them are spelled alike. -/
theorem identifiersFit_iff
    (success : build config models document serviceClass place definition id = .ok o) :
    (∀ p ∈ o.parameters, Client.UsesIdentifier serviceClass o p) ∧
      (o.IdentifiersFit ↔ o.NamesFit) := by
  refine ⟨fun p member => usesIdentifier_of_build success member, and_congr ?_ ?_⟩
  · refine forall₂_congr fun p member => forall₂_congr fun q memberToo => ?_
    refine imp_congr_right fun _ => ?_
    obtain ⟨a, first, own, access⟩ := named_of_build success member
    obtain ⟨b, second, ownToo, accessToo⟩ := named_of_build success memberToo
    rw [access, accessToo, Ne, Ne, String.append_right_inj, and_self, own, ownToo,
      Naming.identifier_eq_iff]
    constructor
    · rintro apart c d firstToo secondToo
      cases first.symm.trans firstToo
      cases second.symm.trans secondToo
      exact apart
    · intro apart
      exact apart a b first second
  · refine forall₂_congr fun p member => ?_
    obtain ⟨a, named, own, -⟩ := named_of_build success member
    rw [own, Naming.isDeclarable_identifier_iff]
    constructor
    · intro letter
      exact ⟨a, named, letter⟩
    · rintro ⟨b, namedToo, letter⟩
      cases named.symm.trans namedToo
      exact letter

def pathWith (name : String) : Place :=
  ⟨.text "/pet", "get", [(.text "parameters", .list [queryParameter name "string"])]⟩

/-- The operation that declares a parameter, on a path that declares another one, takes both, by
these identifiers. -/
def TakesBoth (own shared : String) (models : Table Model) (o : Operation) : Prop :=
  (Models.ofDefinitions {} (.object Api.petDefinitions)).outcome = .ok models ∧
    build { minParamsForContainer := 3 } models (.object []) "ApiService" (pathWith shared)
      (petBy own) "getPet" = .ok o ∧
    o.parameters.map Parameter.name = [.text own, .text shared]

/-- Some pairs of names, with the identifiers that are made of them. -/
def namePairs : List (String × String × List String) :=
  [("petId", "pet-name", ["petId", "petName"]), ("petId", "pet-id", ["petId", "petId"]),
    ("2fa", "$", ["2fa", ""])]

theorem exists_takesBoth {own shared : String} {identifiers : List String}
    (known : (own, shared, identifiers) ∈ namePairs) :
    ∃ models o p q, TakesBoth own shared models o ∧ o.parameters = [p, q] ∧
      p.name = .text own ∧ q.name = .text shared ∧ [p.identifier, q.identifier] = identifiers := by
  obtain ⟨models, o, takes, same⟩ : ∃ models o, TakesBoth own shared models o ∧
      o.parameters.map Parameter.identifier = identifiers := by
    obtain ⟨models, modelsBuilt⟩ := Api.petModels_built
    simp only [namePairs, List.mem_cons, Prod.mk.injEq, List.not_mem_nil, or_false] at known
    rcases known with ⟨rfl, rfl, rfl⟩ | ⟨rfl, rfl, rfl⟩ | ⟨rfl, rfl, rfl⟩
    · exact ⟨models, _, ⟨modelsBuilt, by cbv, by cbv⟩, by cbv⟩
    · exact ⟨models, _, ⟨modelsBuilt, by cbv, by cbv⟩, by cbv⟩
    · exact ⟨models, _, ⟨modelsBuilt, by cbv, by cbv⟩, by cbv⟩
  obtain ⟨p, rest, listed, first, names⟩ := List.map_eq_cons_iff.mp takes.2.2
  obtain ⟨q, rest, rfl, second, names⟩ := List.map_eq_cons_iff.mp names
  cases List.map_eq_nil_iff.mp names
  rw [listed] at same
  exact ⟨models, o, p, q, takes, listed, first, second, same⟩

/-- The names `petId` and `pet-name` fit. -/
theorem identifiersFit_petName : ∃ models o, TakesBoth "petId" "pet-name" models o ∧
    o.IdentifiersFit := by
  obtain ⟨models, o, p, q, takes, listed, first, second, -⟩ := exists_takesBoth
    (by decide : ("petId", "pet-name", ["petId", "petName"]) ∈ namePairs)
  have either : ∀ r ∈ o.parameters, r.name = .text "petId" ∨ r.name = .text "pet-name" := by
    rw [listed]
    simp [first, second]
  refine ⟨models, o, takes, (identifiersFit_iff takes.2.1).2.mpr ⟨?_, ?_⟩⟩
  · intro r member t memberToo other a b own ownToo
    rcases either r member with named | named
    · rcases either t memberToo with namedToo | namedToo
      · exact absurd (named.trans namedToo.symm) other
      · cases named.symm.trans own
        cases namedToo.symm.trans ownToo
        decide
    · rcases either t memberToo with namedToo | namedToo
      · cases named.symm.trans own
        cases namedToo.symm.trans ownToo
        decide
      · exact absurd (named.trans namedToo.symm) other
  · intro r member
    rcases either r member with named | named
    · exact ⟨_, named, 'p', by decide, by decide⟩
    · exact ⟨_, named, 'p', by decide, by decide⟩

/-- The names `petId` and `pet-id` have the same identifier, that of `2fa` starts with a digit, and
that of `$` is empty. -/
theorem identifiers_clash :
    (∃ models o p q, TakesBoth "petId" "pet-id" models o ∧ o.parameters = [p, q] ∧
      p.name ≠ q.name ∧ p.identifier = "petId" ∧ q.identifier = "petId" ∧ ¬o.IdentifiersFit) ∧
    ∃ models o p q, TakesBoth "2fa" "$" models o ∧ o.parameters = [p, q] ∧
      p.identifier = "2fa" ∧ q.identifier = "" ∧ ¬o.IdentifiersFit := by
  constructor
  · obtain ⟨models, o, p, q, takes, listed, first, second, same⟩ :=
      exists_takesBoth (by decide : ("petId", "pet-id", ["petId", "petId"]) ∈ namePairs)
    simp only [List.cons.injEq, and_true] at same
    have other : p.name ≠ q.name := by
      rw [first, second]
      decide
    refine ⟨models, o, p, q, takes, listed, other, same.1, same.2, ?_⟩
    rintro ⟨apart, -⟩
    have differ := (apart p (by simp [listed]) q (by simp [listed]) other).1
    exact differ (same.1.trans same.2.symm)
  · obtain ⟨models, o, p, q, takes, listed, -, -, same⟩ :=
      exists_takesBoth (by decide : ("2fa", "$", ["2fa", ""]) ∈ namePairs)
    simp only [List.cons.injEq, and_true] at same
    refine ⟨models, o, p, q, takes, listed, same.1, same.2, ?_⟩
    rintro ⟨-, declarable⟩
    obtain ⟨c, rest, chars, noDigit⟩ := declarable p (by simp [listed])
    rw [same.1] at chars
    cases chars
    exact absurd noDigit (by decide)

end Operation

end ClientGen
