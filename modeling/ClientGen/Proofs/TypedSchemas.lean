import ClientGen.Proofs.Runs
import ClientGen.Schema.Type

/-!
# What the type of a schema is put together from

`Schema.HasType` has one case for each way in which the type of a schema comes about, and gives the
types of the parts that it is put together from. Every type that a schema has comes about in one of
these ways (`Schema.hasType_of_type`), so that what holds of types is proved by cases on it.
-/
namespace ClientGen.Schema

def leastLength (minItems : Value) : Outcome Int :=
  if minItems.isSet then bound minItems else .ok 0

/-- The type `t` of the schema `s`, and the types of the parts that it is put together from. -/
inductive HasType : Schema → TypeExpr → Prop
  | null {o : Origin} : HasType (.null o) .nullType
  | ref {o : Origin} {target : Value} {name : Option String}
      (read : Naming.classOfRef? target = .ok name) :
      HasType (.ref o target) (typeOfText (name.getD ""))
  | override {o : Origin} {text : String} :
      HasType (.override o text) (typeOfText (Text.replaceAll "List<" "Array<" text))
  | nullable {o : Origin} {inner : Schema} {t : TypeExpr} (typed : inner.type = .ok t) :
      HasType (.nullable o inner) t.nullable
  | union {o : Origin} {keyword : UnionKeyword} {variants : List Schema} {types : List TypeExpr}
      (typed : List.Forall₂ (fun s t => s.type = .ok t) variants types) :
      HasType (.union o keyword variants) (.union types)
  | intersection {o : Origin} {branches : List Schema} {types : List TypeExpr}
      (typed : List.Forall₂ (fun s t => s.type = .ok t) branches types) :
      HasType (.intersection o branches) (.intersection types)
  | primitive {o : Origin} {kind : PrimitiveType} {enum : Option (List Value)} {const : Value} :
      HasType (.primitive o kind enum const) (primitiveType kind enum const)
  | file {o : Origin} : HasType (.file o) .blobType
  | array {o : Origin} {items : Schema} {t : TypeExpr} (typed : items.type = .ok t) :
      HasType (.array o items) t.arrayOf
  -- Behind the items stands one more place, of the type of all that may follow.
  | bounded {o : Origin} {items : List Schema} {minItems maxItems : Value}
      {additional : Option Schema} {places : List TypeExpr} {least most : Int}
      (given : maxItems.isSet = true) (smallest : leastLength minItems = .ok least)
      (greatest : bound maxItems = .ok most)
      (typed : List.Forall₂ (fun s t => s.type = .ok t)
        (items ++ [additional.getD (.any o none)]) places) :
      HasType (.tuple o items minItems maxItems additional)
        (.compound (" | ".intercalate (tupleTexts places least most)) (firstItems most places))
  | unbounded {o : Origin} {items : List Schema} {minItems maxItems : Value}
      {additional : Option Schema} (missing : maxItems.isSet = false) :
      HasType (.tuple o items minItems maxItems additional)
        (.scalar ("Array<" ++ TypeExpr.anyType.text ++ ">"))
  | record {o : Origin} {members : List (Member × Schema)} {required : List Value}
      {additional : Option Schema} {declared others : List (String × TypeExpr)}
      (written : List.Forall₂ (fun m e => m.2.type = .ok e.2 ∧ memberText m.1 e.2 = .ok e.1)
        members declared)
      (free : List.Forall₂ (fun s e => ∃ t, s.type = .ok t ∧ e = ("[key: string]: " ++ t.text, t))
        additional.toList others) :
      HasType (.record o members required additional)
        (.compound (recordText ((declared ++ others).map Prod.fst))
          ((declared ++ others).map Prod.snd))
  | any {o : Origin} {typeName : Option String} : HasType (.any o typeName) .anyType

theorem forall₂_of_types {schemas : List Schema} {ts : List TypeExpr}
    (success : types schemas = .ok ts) : List.Forall₂ (fun s t => s.type = .ok t) schemas ts := by
  induction schemas generalizing ts with
  | nil =>
    simp only [types, Except.ok.injEq] at success
    exact success ▸ .nil
  | cons s rest ih =>
    rw [types] at success
    obtain ⟨t, head, success⟩ := bind_eq_ok.mp success
    obtain ⟨others, tail, success⟩ := bind_eq_ok.mp success
    cases success
    exact .cons head (ih tail)

theorem forall₂_of_memberTypes {members : List (Member × Schema)}
    {typed : List (String × TypeExpr)} (success : memberTypes members = .ok typed) :
    List.Forall₂ (fun m e => m.2.type = .ok e.2 ∧ memberText m.1 e.2 = .ok e.1) members typed := by
  induction members generalizing typed with
  | nil =>
    simp only [memberTypes, Except.ok.injEq] at success
    exact success ▸ .nil
  | cons m rest ih =>
    obtain ⟨m, s⟩ := m
    rw [memberTypes] at success
    obtain ⟨t, head, success⟩ := bind_eq_ok.mp success
    obtain ⟨text, written, success⟩ := bind_eq_ok.mp success
    obtain ⟨others, tail, success⟩ := bind_eq_ok.mp success
    cases success
    exact .cons ⟨head, written⟩ (ih tail)

/-- The entry for other keys, if there is one, leads up to the type of their values. -/
theorem forall₂_of_additionalType {additional : Option Schema} {rest : Option TypeExpr}
    (success : additionalType additional = .ok rest) :
    List.Forall₂ (fun s e => ∃ t, s.type = .ok t ∧ e = ("[key: string]: " ++ t.text, t))
      additional.toList (rest.toList.map fun t => ("[key: string]: " ++ t.text, t)) := by
  cases additional with
  | none =>
    cases success
    exact .nil
  | some s =>
    rw [additionalType] at success
    obtain ⟨t, typed, success⟩ := bind_eq_ok.mp success
    cases success
    exact .cons ⟨t, typed, rfl⟩ .nil

/-- The place behind the items of a tuple has the type of what is missing, or any type. -/
theorem type_additional {o : Origin} {additional : Option Schema} {rest : Option TypeExpr}
    (success : additionalType additional = .ok rest) :
    (additional.getD (.any o none)).type = .ok (rest.getD .anyType) := by
  cases additional with
  | none =>
    simp only [additionalType, Except.ok.injEq] at success
    subst rest
    rw [Option.getD_none, type]
    rfl
  | some s =>
    rw [additionalType] at success
    obtain ⟨t, typed, success⟩ := bind_eq_ok.mp success
    cases success
    exact typed

theorem tupleType_ok {places : List TypeExpr} {minItems maxItems : Value} {t : TypeExpr}
    (success : tupleType places minItems maxItems = .ok t) :
    ∃ least most, leastLength minItems = .ok least ∧ bound maxItems = .ok most ∧
      t = .compound (" | ".intercalate (tupleTexts places least most))
        (firstItems most places) := by
  unfold tupleType at success
  obtain ⟨most, greatest, success⟩ := bind_eq_ok.mp success
  unfold leastLength
  split at success
  · rename_i given
    obtain ⟨least, smallest, success⟩ := bind_eq_ok.mp success
    cases success
    exact ⟨least, most, by rw [if_pos given, smallest], greatest, rfl⟩
  · rename_i missing
    cases success
    exact ⟨0, most, if_neg missing, greatest, rfl⟩

/-- The type of a schema is put together from the types of its parts. -/
theorem hasType_of_type {s : Schema} {t : TypeExpr} (success : s.type = .ok t) : s.HasType t := by
  cases s with
  | null o =>
    cases success
    exact .null
  | ref o target =>
    rw [type] at success
    obtain ⟨name, read, success⟩ := bind_eq_ok.mp success
    cases success
    exact .ref read
  | override o text =>
    cases success
    exact .override
  | nullable o inner =>
    rw [type] at success
    obtain ⟨u, typed, success⟩ := bind_eq_ok.mp success
    cases success
    exact .nullable typed
  | union o keyword variants =>
    rw [type] at success
    obtain ⟨ts, typed, success⟩ := bind_eq_ok.mp success
    cases success
    exact .union (forall₂_of_types typed)
  | intersection o branches =>
    rw [type] at success
    obtain ⟨ts, typed, success⟩ := bind_eq_ok.mp success
    cases success
    exact .intersection (forall₂_of_types typed)
  | primitive o kind enum const =>
    cases success
    exact .primitive
  | file o =>
    cases success
    exact .file
  | array o items =>
    rw [type] at success
    obtain ⟨u, typed, success⟩ := bind_eq_ok.mp success
    cases success
    exact .array typed
  | tuple o items minItems maxItems additional =>
    rw [type] at success
    split at success
    · rename_i given
      obtain ⟨listed, itemTypes, success⟩ := bind_eq_ok.mp success
      obtain ⟨rest, restType, success⟩ := bind_eq_ok.mp success
      obtain ⟨least, most, smallest, greatest, rfl⟩ := tupleType_ok success
      exact .bounded given smallest greatest
        (List.rel_append (forall₂_of_types itemTypes) (.cons (type_additional restType) .nil))
    · rename_i missing
      cases success
      exact .unbounded (Bool.eq_false_iff.mpr missing)
  | record o members required additional =>
    rw [type] at success
    obtain ⟨declared, written, success⟩ := bind_eq_ok.mp success
    obtain ⟨rest, free, success⟩ := bind_eq_ok.mp success
    cases success
    exact .record (forall₂_of_memberTypes written) (forall₂_of_additionalType free)
  | any o typeName =>
    cases success
    exact .any

theorem exists_scalar_restricted (name : String) (literal : Value → String)
    (enum : Option (List Value)) (const : Value) :
    ∃ text, restricted name literal enum const = .scalar text := by
  unfold restricted
  split
  · exact ⟨_, rfl⟩
  · split
    · exact ⟨_, rfl⟩
    · exact ⟨_, rfl⟩

theorem exists_scalar_primitiveType (kind : PrimitiveType) (enum : Option (List Value))
    (const : Value) : ∃ text, primitiveType kind enum const = .scalar text := by
  cases kind with
  | string => exact exists_scalar_restricted _ _ enum const
  | integer => exact exists_scalar_restricted _ _ enum const
  | number => exact exists_scalar_restricted _ _ enum const
  | boolean => exact ⟨_, rfl⟩
  | null => exact ⟨_, rfl⟩

theorem exists_scalar_typeOfText (text : String) : ∃ own, typeOfText text = .scalar own := by
  unfold typeOfText
  split
  · exact ⟨_, rfl⟩
  · exact ⟨_, rfl⟩

/-- The constituents of an object type are the types of its members, and that of other keys. -/
theorem forall₂_entries {members : List (Member × Schema)} {additional : Option Schema}
    {declared others : List (String × TypeExpr)}
    (written : List.Forall₂ (fun m e => m.2.type = .ok e.2 ∧ memberText m.1 e.2 = .ok e.1)
      members declared)
    (free : List.Forall₂ (fun s e => ∃ t, s.type = .ok t ∧ e = ("[key: string]: " ++ t.text, t))
      additional.toList others) :
    List.Forall₂ (fun s t => s.type = .ok t) (members.map Prod.snd ++ additional.toList)
      ((declared ++ others).map Prod.snd) := by
  rw [List.map_append]
  refine List.rel_append ?_ ?_
  · rw [List.forall₂_map_left_iff, List.forall₂_map_right_iff]
    exact written.imp fun _ _ both => both.1
  · rw [List.forall₂_map_right_iff]
    refine free.imp ?_
    rintro s _ ⟨t, typed, rfl⟩
    exact typed

end ClientGen.Schema
