import ClientGen.Proofs.PrintedTypes
import ClientGen.Proofs.TypeTree

/-!
# The parts of a schema

What holds of a schema if it holds of one whose parts it holds of, holds of all schemas
(`Schema.induction_on_parts`). In this way a schema has a type if everything in it is regular
(`Schema.exists_type`): it is no overriding type, joins one part at least, and has texts, integers
and texts where references, lengths and names of members belong.
-/
namespace ClientGen.Schema

/-- The schemas that stand in a schema. The last place of a tuple is that of what is missing. -/
def parts : Schema → List Schema
  | .nullable _ inner => [inner]
  | .union _ _ variants => variants
  | .intersection _ branches => branches
  | .array _ items => [items]
  | .tuple o items _ _ additional => items ++ [additional.getD (.any o none)]
  | .record _ members _ additional => members.map Prod.snd ++ additional.toList
  | .null _ | .ref _ _ | .override _ _ | .primitive _ _ _ _ | .file _ | .any _ _ => []

theorem sizeOf_lt_of_mem_parts {s part : Schema} (member : part ∈ s.parts) :
    sizeOf part < sizeOf s := by
  cases s with
  | nullable o inner =>
    rw [List.mem_singleton.mp member, nullable.sizeOf_spec]
    omega
  | union o keyword variants =>
    have within := List.sizeOf_lt_of_mem member
    rw [parts] at within
    rw [union.sizeOf_spec]
    omega
  | intersection o branches =>
    have within := List.sizeOf_lt_of_mem member
    rw [parts] at within
    rw [intersection.sizeOf_spec]
    omega
  | array o items =>
    rw [List.mem_singleton.mp member, array.sizeOf_spec]
    omega
  | tuple o items minItems maxItems additional =>
    rw [tuple.sizeOf_spec]
    rcases List.mem_append.mp member with listed | last
    · have within := List.sizeOf_lt_of_mem listed
      omega
    · rw [List.mem_singleton.mp last]
      cases additional with
      | none =>
        have present : 0 < sizeOf items := by
          cases items with
          | nil => decide
          | cons s rest =>
            rw [List.cons.sizeOf_spec]
            omega
        simp only [Option.getD_none, any.sizeOf_spec, Option.none.sizeOf_spec]
        omega
      | some s =>
        simp only [Option.getD_some, Option.some.sizeOf_spec]
        omega
  | record o members required additional =>
    rw [record.sizeOf_spec]
    rcases List.mem_append.mp member with listed | last
    · obtain ⟨⟨m, s⟩, among, rfl⟩ := List.mem_map.mp listed
      have within := List.sizeOf_lt_of_mem among
      simp only [Prod.mk.sizeOf_spec] at within ⊢
      omega
    · rw [Option.mem_toList] at last
      cases last
      rw [Option.some.sizeOf_spec]
      omega
  | _ => cases member

/-- What holds of a schema whenever it holds of its parts holds of every schema. -/
theorem induction_on_parts {p : Schema → Prop}
    (step : ∀ s : Schema, (∀ part ∈ s.parts, p part) → p s) (s : Schema) : p s :=
  step s fun part _ => induction_on_parts step part
termination_by sizeOf s
decreasing_by
  rename_i member
  exact sizeOf_lt_of_mem_parts member

/-- A part whose type is written inside that of a schema is one of its parts. -/
theorem mem_parts_of_prints {s part : Schema} (prints : s.Prints part) : part ∈ s.parts := by
  cases prints with
  | inner => exact List.mem_singleton_self _
  | variant member => exact member
  | branch member => exact member
  | items => exact List.mem_singleton_self _
  | @place o items _ _ additional _ _ length _ _ _ _ _ _ member =>
    have first : ∀ (count : Int) (places : List Schema), firstItems count places ⊆ places := by
      intro count places
      cases count <;> exact List.take_subset _ places
    exact first length _ member
  | member member => exact List.mem_append_left _ (List.mem_map.mpr ⟨_, member, rfl⟩)
  | additional => exact List.mem_append_right _ (by simp)

def Everywhere (p : Schema → Prop) : Schema → Prop := Throughout parts p

theorem everywhere_iff {p : Schema → Prop} {s : Schema} :
    s.Everywhere p ↔ p s ∧ ∀ part ∈ s.parts, part.Everywhere p :=
  throughout_iff

/-- A schema has a reference, lengths and names of members of the kinds that these have, joins at
least one part, and is no overriding type. The bounds of a tuple are not negative, and the lower
one is not above the upper one. -/
def Regular : Schema → Prop
  | .override _ _ => False
  | .ref _ target => ∃ ref, target = .text ref
  | .union _ _ variants => variants ≠ []
  | .intersection _ branches => branches ≠ []
  | .tuple _ _ minItems maxItems _ =>
    maxItems = .null ∨ ∃ least most, leastLength minItems = .ok least ∧ bound maxItems = .ok most ∧
      0 ≤ least ∧ least ≤ most
  | .record _ members _ _ => ∀ m ∈ members, ∃ name, m.1.name = .text name
  | _ => True

theorem exists_types {schemas : List Schema} (each : ∀ s ∈ schemas, ∃ t, s.type = .ok t) :
    ∃ ts, types schemas = .ok ts := by
  induction schemas with
  | nil => exact ⟨[], rfl⟩
  | cons s rest ih =>
    obtain ⟨first, later⟩ := List.forall_mem_cons.mp each
    rw [types]
    exact exists_bind_eq_ok first fun t => exists_bind_eq_ok (ih later) fun ts => ⟨_, rfl⟩

theorem exists_memberTypes {members : List (Member × Schema)}
    (named : ∀ m ∈ members, ∃ name, m.1.name = .text name)
    (each : ∀ m ∈ members, ∃ t, m.2.type = .ok t) : ∃ typed, memberTypes members = .ok typed := by
  induction members with
  | nil => exact ⟨[], rfl⟩
  | cons entry rest ih =>
    obtain ⟨m, s⟩ := entry
    obtain ⟨⟨name, own⟩, laterNamed⟩ := List.forall_mem_cons.mp named
    obtain ⟨first, later⟩ := List.forall_mem_cons.mp each
    have written : ∀ t, ∃ text, memberText m t = .ok text := by
      intro t
      rw [memberText, own]
      exact ⟨_, rfl⟩
    rw [memberTypes]
    refine exists_bind_eq_ok first fun t => exists_bind_eq_ok (written t) fun text => ?_
    exact exists_bind_eq_ok (ih laterNamed later) fun typed => ⟨_, rfl⟩

theorem exists_additionalType {additional : Option Schema}
    (each : ∀ s ∈ additional, ∃ t, s.type = .ok t) :
    ∃ rest, additionalType additional = .ok rest := by
  cases additional with
  | none => exact ⟨none, rfl⟩
  | some s =>
    rw [additionalType]
    exact exists_bind_eq_ok (each s rfl) fun t => ⟨some t, rfl⟩

theorem exists_tupleType {places : List TypeExpr} {minItems maxItems : Value} {least most : Int}
    (smallest : leastLength minItems = .ok least) (greatest : bound maxItems = .ok most) :
    ∃ t, tupleType places minItems maxItems = .ok t := by
  unfold tupleType
  refine exists_bind_eq_ok ⟨most, greatest⟩ fun most => ?_
  unfold leastLength at smallest
  split at smallest
  · rename_i given
    simp only [given, if_true]
    exact exists_bind_eq_ok ⟨least, smallest⟩ fun least => ⟨_, rfl⟩
  · rename_i missing
    simp only [missing]
    exact ⟨_, rfl⟩

theorem exists_classOfRef? (ref : String) : ∃ name, Naming.classOfRef? (.text ref) = .ok name := by
  unfold Naming.classOfRef?
  split <;> exact ⟨_, rfl⟩

/-- The parts whose types the type of a schema is put together from: all, but none of a tuple
without a greatest length. -/
def neededParts : Schema → List Schema
  | .tuple o items _ maxItems additional =>
    if maxItems.isSet then items ++ [additional.getD (.any o none)] else []
  | s => s.parts

theorem neededParts_subset_parts (s : Schema) : s.neededParts ⊆ s.parts := by
  cases s with
  | tuple o items minItems maxItems additional =>
    rw [neededParts]
    split
    · exact List.Subset.refl _
    · exact List.nil_subset _
  | _ => exact List.Subset.refl _

/-- A schema says enough for a type: its reference can be read, its lengths are integers, and its
members have names. -/
def SaysEnough : Schema → Prop
  | .ref _ target => ∃ name, Naming.classOfRef? target = .ok name
  | .tuple _ _ minItems maxItems _ => maxItems.isSet = true →
    ∃ least most, leastLength minItems = .ok least ∧ bound maxItems = .ok most
  | .record _ members _ _ => ∀ m ∈ members, ∃ name, m.1.name = .text name
  | _ => True

theorem name_of_memberText {m : Member} {t : TypeExpr} {text : String}
    (written : memberText m t = .ok text) : ∃ name, m.name = .text name := by
  obtain ⟨key, read, -⟩ := bind_eq_ok.mp written
  cases named : m.name with
  | text name => exact ⟨name, rfl⟩
  | _ =>
    rw [named] at read
    cases read

theorem HasType.saysEnough {s : Schema} {t : TypeExpr} (built : s.HasType t) : s.SaysEnough := by
  cases built with
  | ref read => exact ⟨_, read⟩
  | bounded _ smallest greatest => exact fun _ => ⟨_, _, smallest, greatest⟩
  | unbounded missing =>
    intro given
    rw [missing] at given
    cases given
  | record written =>
    intro m member
    obtain ⟨e, -, -, text⟩ := exists_of_forall₂ written member
    exact name_of_memberText text
  | _ => exact trivial

theorem HasType.exists_type_of_needed {s part : Schema} {t : TypeExpr} (built : s.HasType t)
    (member : part ∈ s.neededParts) : ∃ u, part.type = .ok u := by
  have among : ∀ {schemas ts}, List.Forall₂ (fun s t => s.type = .ok t) schemas ts →
      part ∈ schemas → ∃ u, part.type = .ok u := by
    intro schemas ts typed member
    obtain ⟨u, -, own⟩ := exists_of_forall₂ typed member
    exact ⟨u, own⟩
  cases built with
  | nullable typed => exact among (.cons typed .nil) member
  | array typed => exact among (.cons typed .nil) member
  | union typed => exact among typed member
  | intersection typed => exact among typed member
  | bounded given _ _ typed =>
    rw [neededParts, if_pos given] at member
    exact among typed member
  | unbounded missing =>
    rw [neededParts, missing] at member
    cases member
  | record written free => exact among (forall₂_entries written free) member
  | _ => cases member

theorem exists_type_of_needed {s : Schema} (enough : s.SaysEnough)
    (each : ∀ part ∈ s.neededParts, ∃ t, part.type = .ok t) : ∃ t, s.type = .ok t := by
  cases s with
  | null | override | primitive | file | any =>
    rw [type]
    exact ⟨_, rfl⟩
  | ref o target =>
    rw [type]
    exact exists_bind_eq_ok enough fun name => ⟨_, rfl⟩
  | nullable o inner =>
    rw [type]
    exact exists_bind_eq_ok (each inner (List.mem_singleton_self inner)) fun t => ⟨_, rfl⟩
  | union o keyword variants =>
    rw [type]
    exact exists_bind_eq_ok (exists_types each) fun ts => ⟨_, rfl⟩
  | intersection o branches =>
    rw [type]
    exact exists_bind_eq_ok (exists_types each) fun ts => ⟨_, rfl⟩
  | array o items =>
    rw [type]
    exact exists_bind_eq_ok (each items (List.mem_singleton_self items)) fun t => ⟨_, rfl⟩
  | tuple o items minItems maxItems additional =>
    rw [type]
    split
    · rename_i given
      rw [neededParts, if_pos given] at each
      obtain ⟨least, most, smallest, greatest⟩ := enough given
      refine exists_bind_eq_ok (exists_types fun s member => ?_) fun places => ?_
      · exact each s (List.mem_append_left _ member)
      · refine exists_bind_eq_ok (exists_additionalType fun s member => ?_) fun rest => ?_
        · cases member
          exact each s (List.mem_append_right _ (List.mem_singleton_self s))
        · exact exists_tupleType smallest greatest
    · exact ⟨_, rfl⟩
  | record o members required additional =>
    rw [type]
    refine exists_bind_eq_ok (exists_memberTypes enough fun m member => ?_) fun declared => ?_
    · exact each m.2 (List.mem_append_left _ (List.mem_map_of_mem member))
    · refine exists_bind_eq_ok (exists_additionalType fun s member => ?_) fun rest => ⟨_, rfl⟩
      exact each s (List.mem_append_right _ (Option.mem_toList.mpr member))

/-- A schema has a type exactly if it says enough for one and what it needs has types. -/
theorem exists_type_iff_needed {s : Schema} : (∃ t, s.type = .ok t) ↔
    s.SaysEnough ∧ ∀ part ∈ s.neededParts, ∃ t, part.type = .ok t := by
  constructor
  · rintro ⟨t, typed⟩
    have built := hasType_of_type typed
    exact ⟨built.saysEnough, fun part => built.exists_type_of_needed⟩
  · rintro ⟨enough, each⟩
    exact exists_type_of_needed enough each

theorem Regular.saysEnough {s : Schema} (regular : s.Regular) : s.SaysEnough := by
  cases s with
  | ref o target =>
    obtain ⟨ref, rfl⟩ := regular
    exact exists_classOfRef? ref
  | tuple o items minItems maxItems additional =>
    intro given
    rcases regular with rfl | ⟨least, most, smallest, greatest, -, -⟩
    · cases given
    · exact ⟨least, most, smallest, greatest⟩
  | record o members required additional => exact regular
  | _ => exact trivial

/-- A schema in which everything is regular has a type. -/
theorem exists_type (s : Schema) (regular : s.Everywhere Regular) : ∃ t, s.type = .ok t := by
  induction s using induction_on_parts with
  | step s ih =>
    obtain ⟨own, inside⟩ := everywhere_iff.mp regular
    refine exists_type_of_needed own.saysEnough fun part member => ?_
    have within := s.neededParts_subset_parts member
    exact ih part within (inside part within)

end ClientGen.Schema
