import ClientGen.Proofs.ServiceLiterals

/-!
# The placeholders of a path

A path is read from the left. The first placeholder in it gives way to code that encodes a value,
what stands before it stays as it is, and the rest is read in the same way; a path without
placeholders is left alone. This settles the template (`Path.Filled.unique`). The value for a
placeholder is that of the parameter with its name, as the rest of the method takes it
(`Operation.pathExpression_fills`).
-/
namespace ClientGen

namespace Path

def placeholder (name : List Char) : List Char := '\x7b' :: (name ++ ['\x7d'])

/-- A placeholder can have any name that is not empty and has no closing brace. -/
def IsName (name : List Char) : Prop := name ≠ [] ∧ '\x7d' ∉ name

/-- The placeholder for `name` stands between `before` and `after`, and none starts to the left of
it. -/
structure Leftmost (path before name after : List Char) : Prop where
  split : path = before ++ placeholder name ++ after
  isName : IsName name
  least : ∀ front other back, path = front ++ placeholder other ++ back → IsName other →
    before.length ≤ front.length

def encoding (value : String) : List Char :=
  ("$\x7bencodeURIComponent(" ++ value ++ ")\x7d").toList

/-- The placeholders of a path are filled from the left with the encoded values for their names. -/
inductive Filled (value : String → String) : List Char → List Char → Prop
  | text {path : List Char} (plain : ∀ before name after,
      path = before ++ placeholder name ++ after → ¬IsName name) : Filled value path path
  | fill {path before name after rest : List Char} (first : Leftmost path before name after)
      (later : Filled value after rest) :
      Filled value path (before ++ encoding (value (String.ofList name)) ++ rest)

theorem placeholder_append (name after : List Char) :
    placeholder name ++ after = '\x7b' :: (name ++ '\x7d' :: after) := by
  simp [placeholder]

/-- What follows the opening brace of a placeholder is cut at the first closing brace. -/
theorem cut_name {name : List Char} (closed : '\x7d' ∉ name) (after : List Char) :
    (name ++ '\x7d' :: after).takeWhile (· != '\x7d') = name ∧
      (name ++ '\x7d' :: after).dropWhile (· != '\x7d') = '\x7d' :: after := by
  have all : ∀ c ∈ name, (c != '\x7d') = true := by
    intro c member
    rw [bne_iff_ne]
    rintro rfl
    exact closed member
  rw [List.takeWhile_append_of_pos all, List.dropWhile_append_of_pos all]
  simp

/-- There is only one leftmost placeholder. -/
theorem Leftmost.unique {path before name after front other back : List Char}
    (first : Leftmost path before name after) (second : Leftmost path front other back) :
    before = front ∧ name = other ∧ after = back := by
  have same : before.length = front.length :=
    Nat.le_antisymm (first.least _ _ _ second.split second.isName)
      (second.least _ _ _ first.split first.isName)
  have both := first.split.symm.trans second.split
  rw [List.append_assoc, List.append_assoc] at both
  obtain ⟨sameFront, behind⟩ := List.append_inj both same
  rw [placeholder_append, placeholder_append, List.cons.injEq] at behind
  obtain ⟨ownName, ownRest⟩ := cut_name first.isName.2 after
  obtain ⟨otherName, otherRest⟩ := cut_name second.isName.2 back
  rw [behind.2, otherName] at ownName
  rw [behind.2, otherRest, List.cons.injEq] at ownRest
  exact ⟨sameFront, ownName.symm, ownRest.2.symm⟩

/-- The placeholders of a path can be filled in one way only. -/
theorem Filled.unique {value : String → String} {path first second : List Char}
    (filled : Filled value path first) (other : Filled value path second) : first = second := by
  induction filled generalizing second with
  | text plain =>
    cases other with
    | text _ => rfl
    | fill leftmost _ => exact absurd leftmost.isName (plain _ _ _ leftmost.split)
  | fill leftmost _ ih =>
    cases other with
    | text plain => exact absurd leftmost.isName (plain _ _ _ leftmost.split)
    | fill leftmostToo later =>
      obtain ⟨rfl, rfl, rfl⟩ := leftmost.unique leftmostToo
      rw [ih later]

/-- A character that starts no placeholder stays. -/
theorem Filled.cons {value : String → String} {c : Char} {rest filled : List Char}
    (starts : ∀ name after, c :: rest = placeholder name ++ after → ¬IsName name)
    (later : Filled value rest filled) : Filled value (c :: rest) (c :: filled) := by
  -- A placeholder of the longer text starts behind its first character.
  have inside : ∀ front name back, c :: rest = front ++ placeholder name ++ back → IsName name →
      ∃ behind, front = c :: behind ∧ rest = behind ++ placeholder name ++ back := by
    intro front name back split named
    cases front with
    | nil => exact absurd named (starts name back split)
    | cons d behind =>
      obtain ⟨same, splitRest⟩ := List.cons.inj split
      exact ⟨behind, by rw [same], splitRest⟩
  cases later with
  | text plain =>
    refine .text fun before name after split named => ?_
    obtain ⟨behind, -, splitRest⟩ := inside before name after split named
    exact plain behind name after splitRest named
  | @fill _ before name after _ first later =>
    have moved : Leftmost (c :: rest) (c :: before) name after := by
      refine ⟨by rw [first.split]; rfl, first.isName, ?_⟩
      intro front other back split named
      obtain ⟨behind, rfl, splitRest⟩ := inside front other back split named
      exact Nat.succ_le_succ (first.least behind other back splitRest named)
    exact .fill moved later

/-- A part of a path in a template, with the values for the names of placeholders. -/
def fillPart (value : String → String) : Part → List Char
  | .char c => [c]
  | .placeholder name => encoding (value (String.ofList name))

/-- Where the text behind an opening brace is cut at a closing one, a placeholder may end. -/
theorem eq_of_dropWhile {rest after : List Char} {d : Char}
    (drops : rest.dropWhile (· != '\x7d') = d :: after) :
    rest = rest.takeWhile (· != '\x7d') ++ '\x7d' :: after := by
  have closing := List.head?_dropWhile_not (· != '\x7d') rest
  simp only [drops, List.head?_cons, bne_eq_false_iff_eq] at closing
  calc rest
      = rest.takeWhile (· != '\x7d') ++ rest.dropWhile (· != '\x7d') :=
        List.takeWhile_append_dropWhile.symm
    _ = rest.takeWhile (· != '\x7d') ++ '\x7d' :: after := by rw [drops, closing]

theorem parts_placeholder {name : List Char} (named : IsName name) (after : List Char) :
    parts (placeholder name ++ after) = .placeholder name :: parts after := by
  obtain ⟨taken, dropped⟩ := cut_name named.2 after
  rw [placeholder_append, parts]
  split
  · rename_i drops
    rw [dropped, List.cons.injEq] at drops
    rw [if_pos ⟨rfl, taken.symm ▸ named.1⟩, taken, drops.2]
  · rename_i drops
    rw [dropped] at drops
    cases drops

theorem parts_char {c : Char} {rest : List Char}
    (starts : ∀ name after, c :: rest = placeholder name ++ after → ¬IsName name) :
    parts (c :: rest) = .char c :: parts rest := by
  rw [parts]
  split
  · rename_i drops
    rw [if_neg]
    rintro ⟨rfl, nonempty⟩
    refine starts _ _ (by rw [placeholder_append, ← eq_of_dropWhile drops]) ⟨nonempty, ?_⟩
    intro member
    simpa using List.mem_takeWhile_imp member
  · rfl

/-- The parts of a path are what is filled, and what stays. -/
theorem filled_parts (value : String → String) (path : List Char) :
    Filled value path ((parts path).flatMap (fillPart value)) := by
  induction h : path.length using Nat.strong_induction_on generalizing path with
  | h n ih =>
    subst h
    cases path with
    | nil =>
      rw [parts]
      exact .text fun before name after split _ => by simp [placeholder] at split
    | cons c rest =>
      by_cases starts : ∃ name after, c :: rest = placeholder name ++ after ∧ IsName name
      · obtain ⟨name, after, split, named⟩ := starts
        have shorter : after.length < (c :: rest).length := by
          rw [split]
          simp [placeholder]
          omega
        have first : Leftmost (c :: rest) [] name after := ⟨split, named, by simp⟩
        have own : parts (c :: rest) = .placeholder name :: parts after := by
          rw [split, parts_placeholder named]
        rw [own]
        exact .fill first (ih _ shorter after rfl)
      · have stays : ∀ name after, c :: rest = placeholder name ++ after → ¬IsName name :=
          fun name after split named => starts ⟨name, after, split, named⟩
        rw [parts_char stays]
        exact .cons stays (ih _ (by simp) rest rfl)

/-- A path as it is read; one that is not set is empty. -/
def source : Scalar → String
  | .text s => s
  | _ => ""

variable {parameters : List Parameter} {inContainer : Bool}

/-- The code that takes the value for the name of a placeholder. -/
def valueFor (parameters : List Parameter) (inContainer : Bool) (name : String) : String :=
  Parameter.scope inContainer ++ identifierFor parameters name

/-- A template is the path with the values for its placeholders. -/
theorem filled_template (path : String) : Filled (valueFor parameters inContainer) path.toList
    (template parameters inContainer path).toList := by
  have each : partText parameters inContainer = fillPart (valueFor parameters inContainer) := by
    funext part
    cases part with
    | char c => rfl
    | placeholder name => simp [partText, fillPart, encoding, valueFor, String.append_assoc]
  rw [template, String.toList_ofList, each]
  exact filled_parts _ _

theorem filled_of_expression {path : Scalar} {t : String}
    (success : expression parameters inContainer path = .ok t) :
    Filled (valueFor parameters inContainer) (source path).toList t.toList := by
  unfold expression at success
  split at success
  · split at success
    · cases success
      exact filled_template _
    · rename_i untext
      split at success
      · cases success
      · cases success
        have empty : source path = "" := by
          cases path with
          | text s => exact absurd rfl (untext s)
          | _ => rfl
        rw [empty]
        exact .text fun before name after split _ => by simp [placeholder] at split
  · cases success

/-- A name that no parameter has stands for itself. -/
theorem valueFor_of_forall_ne {name : String}
    (unknown : ∀ p ∈ parameters, p.name ≠ .text name) :
    valueFor parameters inContainer name = Parameter.scope inContainer ++ name := by
  have none : parameters.reverse.find? (·.name == .text name) = none := by
    rw [List.find?_eq_none]
    intro p member same
    exact unknown p (List.mem_reverse.mp member) (beq_iff_eq.mp same)
  rw [valueFor, identifierFor, none]

/-- Where the identifiers of parameters follow from their names, a name stands for each parameter
that has it. -/
theorem valueFor_of_mem {p : Parameter} {name : String}
    (derived : ∀ q ∈ parameters, q.name = .text name → q.identifier = Naming.identifier name)
    (member : p ∈ parameters) (named : p.name = .text name) :
    valueFor parameters inContainer name = Parameter.scope inContainer ++ p.identifier := by
  rw [valueFor, identifierFor]
  cases found : parameters.reverse.find? (·.name == .text name) with
  | none =>
    rw [List.find?_eq_none] at found
    exact absurd (beq_iff_eq.mpr named) (found p (List.mem_reverse.mpr member))
  | some q =>
    have same : q.name = .text name := by simpa using List.find?_some found
    have among := List.mem_reverse.mp (List.mem_of_find?_eq_some found)
    rw [derived p member named]
    exact congrArg _ (derived q among same)

end Path

namespace Parameter

/-- An identifier has no dot, so that only what stands in the container is read from `params`. -/
theorem scope_prefix_iff (inContainer : Bool) (name : String) :
    "params.".toList <+: (scope inContainer ++ Naming.identifier name).toList ↔
      inContainer = true := by
  cases inContainer with
  | true => simp [scope]
  | false =>
    simp only [scope, Bool.false_eq_true, if_false, iff_false]
    intro starts
    have dot : '.' ∈ (Naming.identifier name).toList := by
      rw [String.empty_append] at starts
      exact starts.subset (by decide)
    exact absurd (Naming.isAlnum_of_mem_identifier dot) (by decide)

end Parameter

namespace Operation

variable {config : Config} {models : Table Model} {document : Value} {serviceClass id : String}
  {place : Place} {definition : Fields} {o : Operation}

/-- The template of a built operation is its path with the placeholders filled, and nothing else is.
The value for the name of a parameter is what the method reads that parameter from, in the object of
parameters exactly if there is one. A name that no parameter has stands for itself. -/
theorem pathExpression_fills
    (success : build config models document serviceClass place definition id = .ok o) :
    ∃ value : String → String,
      (∀ t, Path.Filled value (Path.source place.url).toList t ↔ t = o.pathExpression.toList) ∧
      (∀ p ∈ o.parameters, ∃ name, p.name = .text name ∧ value name = p.access ∧
        ("params.".toList <+: p.access.toList ↔ o.paramsClass.isSome = true)) ∧
      ∀ name, (∀ p ∈ o.parameters, p.name ≠ .text name) →
        value name = Parameter.scope o.paramsClass.isSome ++ name := by
  obtain ⟨_, _, _, _, _, parts⟩ := build_ok success
  have filled := Path.filled_of_expression (expression_of_build success)
  rw [parts.path] at filled
  refine ⟨Path.valueFor o.parameters o.paramsClass.isSome, ?_, ?_, ?_⟩
  · intro t
    constructor
    · intro other
      exact other.unique filled
    · rintro rfl
      exact filled
  · intro p member
    obtain ⟨name, named, derived, access⟩ := named_of_build success member
    refine ⟨name, named, ?_, ?_⟩
    · rw [access]
      refine Path.valueFor_of_mem ?_ member named
      intro q among same
      obtain ⟨own, ownNamed, ownDerived, -⟩ := named_of_build success among
      cases ownNamed.symm.trans same
      exact ownDerived
    · rw [access, derived]
      exact Parameter.scope_prefix_iff _ _
  · intro name unknown
    exact Path.valueFor_of_forall_ne unknown

/-- A path with placeholders, one of which has a brace in its name, and with braces that hold no
name or are not closed. -/
def bracedPath : Place :=
  ⟨.text "/pet/\x7bname\x7d/\x7b\x7btag\x7d\x7b\x7d/\x7bname", "get", []⟩

theorem pathExpression_fills_braced : ∃ models o value,
    (Models.ofDefinitions {} (.object Api.petDefinitions)).outcome = .ok models ∧
    build {} models (.object []) "ApiService" bracedPath (petBy "name") "getPet" = .ok o ∧
    o.pathExpression = "/pet/$\x7bencodeURIComponent(name)\x7d/" ++
      "$\x7bencodeURIComponent(\x7btag)\x7d\x7b\x7d/\x7bname" ∧
    (∀ t, Path.Filled value (Path.source bracedPath.url).toList t ↔ t = o.pathExpression.toList) ∧
    value "name" = "name" ∧ value "\x7btag" = "\x7btag" := by
  obtain ⟨models, modelsBuilt⟩ := Api.petModels_built
  obtain ⟨o, built, template, single⟩ : ∃ o, build {} models (.object []) "ApiService" bracedPath
      (petBy "name") "getPet" = .ok o ∧
      o.pathExpression = "/pet/$\x7bencodeURIComponent(name)\x7d/" ++
        "$\x7bencodeURIComponent(\x7btag)\x7d\x7b\x7d/\x7bname" ∧
      (o.parameters.map (fun p => (p.name, p.access)), o.paramsClass) =
        ([(.text "name", "name")], none) :=
    ⟨_, by cbv, by cbv, by cbv⟩
  obtain ⟨names, separate⟩ := Prod.mk.inj single
  obtain ⟨p, alone, pair⟩ := List.map_eq_singleton_iff.mp names
  obtain ⟨own, access⟩ := Prod.mk.inj pair
  obtain ⟨value, filled, ofParameters, others⟩ := pathExpression_fills built
  refine ⟨models, o, value, modelsBuilt, built, template, filled, ?_, ?_⟩
  · obtain ⟨name, named, same, -⟩ := ofParameters p (alone ▸ List.mem_singleton_self p)
    cases own.symm.trans named
    rw [same, access]
  · rw [others "\x7btag", separate]
    · rfl
    · intro q member named
      rw [alone, List.mem_singleton] at member
      rw [member, own] at named
      exact absurd named (by decide)

end Operation

end ClientGen
