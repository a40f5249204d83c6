import ClientGen.Proofs.FileStems
import ClientGen.Proofs.TagNames
import ClientGen.Proofs.TrimmedLines
import ClientGen.TagFilter

/-!
# Tags in settings

The tags of a setting are trimmed before they give names, those of operations are not. Both give
the same names: blanks are no letters or digits, and a name starts as if a gap stood before it, so
what is trimmed does not count (`Naming.tagName_trim`). Tags that are given as a list and tags that
are given between commas come to the same, and a filter for the tag of an operation is about the
service of that operation (`normalizeTags_alike`).
-/
namespace ClientGen

namespace Naming

variable {c : Char} {s front back : List Char}

/-- A blank is no letter and no digit. -/
theorem isAlnum_of_isBlank (blank : Text.isBlank c = true) : isAlnum c = false := by
  rw [Bool.eq_false_iff, Ne, isAlnum_iff]
  simp only [Text.isBlank, Bool.or_eq_true, Bool.and_eq_true, decide_eq_true_eq, beq_iff_eq]
    at blank
  omega

/-- What has no letters and digits does not count at the start of a name. -/
theorem nameChars_append_left (none : ∀ c ∈ front, isAlnum c = false) (s : List Char) :
    nameChars (front ++ s) = nameChars s := by
  induction front with
  | nil => rfl
  | cons c rest ih =>
    obtain ⟨first, others⟩ := List.forall_mem_cons.mp none
    rw [List.cons_append, nameChars_of_not_isAlnum first, ih others]

/-- Nor does it count at the end. -/
theorem nameChars_append_right (none : ∀ c ∈ back, isAlnum c = false) (s : List Char) :
    nameChars (s ++ back) = nameChars s := by
  have nothing (gap : Bool) : camelCase isAlnum gap (back.map fun c => [c]) = [] := by
    induction back generalizing gap with
    | nil => rfl
    | cons c rest ih =>
      obtain ⟨first, others⟩ := List.forall_mem_cons.mp none
      rw [camelCase_of_not_isAlnum first, ih others]
  obtain ⟨after, split⟩ :=
    camelCase_append isAlnum true (s.map fun c => [c]) (back.map fun c => [c])
  rw [nameChars, List.map_append, split, nothing, List.append_nil, nameChars]

/-- A text that is there does not need the fallback. -/
theorem tagName_text {t : String} (present : t ≠ "") (fallback other : String) :
    tagName (.text t) fallback = tagName (.text t) other := by
  rw [tagName_eq, tagName_eq, tagText_text present, tagText_text present]

/-- A tag gives the same name with and without the blanks around it. -/
theorem tagName_trim {t : String} (present : ¬Text.IsBlank t) (fallback : String) :
    tagName (.text (Text.trim t)) fallback = tagName (.text t) fallback := by
  have trimmed : Text.trim t ≠ "" := Text.trim_eq_empty_iff.not.mpr present
  have whole : t ≠ "" := Text.ne_empty_of_present present
  obtain ⟨front, back, parts, ofFront, ofBack⟩ := Text.exists_trimBy Text.isBlank t.toList
  rw [tagName_eq, tagName_eq, tagText_text trimmed, tagText_text whole, parts,
    nameChars_append_right fun c member => isAlnum_of_isBlank (ofBack c member),
    nameChars_append_left fun c member => isAlnum_of_isBlank (ofFront c member), Text.trim,
    String.toList_ofList]

end Naming

section

variable {tags : List String} {fallback : String}

/-- The names that a list of texts stands for are those of the texts that are not blank. -/
theorem tagNames_list (tags : List String) (fallback : String) :
    tagNames (.list (tags.map .text)) fallback =
      TypeExpr.distinct ((tags.filter fun t => ¬Text.IsBlank t).map fun t =>
        Naming.tagName (.text t) fallback) := by
  have trimmed : (tags.map Value.text).filterMap
      (fun v => if v = .null then none else some (Text.trim v.display)) = tags.map Text.trim := by
    rw [List.filterMap_map, ← List.filterMap_eq_map]
    rfl
  have named : ((tags.map Text.trim).filter (· != "")).map
      (fun name => Naming.tagName (.text name) fallback) =
        (tags.filter fun t => ¬Text.IsBlank t).map fun t => Naming.tagName (.text t) fallback := by
    have kept : tags.filter ((· != "") ∘ Text.trim) = tags.filter fun t => ¬Text.IsBlank t :=
      List.filter_congr fun t _ => by
        rw [Function.comp_apply, bne, Bool.beq_eq_decide_eq, ← decide_not]
        exact decide_eq_decide.mpr Text.trim_eq_empty_iff.not
    rw [List.filter_map, List.map_map, kept]
    refine List.map_congr_left fun t member => ?_
    have present : ¬Text.IsBlank t := of_decide_eq_true (List.mem_filter.mp member).2
    rw [Function.comp_apply, Naming.tagName_trim present]
  rw [tagNames, tagValues, trimmed, named]

/-- Tags between commas are a list of texts. -/
theorem tagNames_text (s fallback : String) :
    tagNames (.text s) fallback =
      tagNames (.list (((Text.splitOn ',' s.toList).map String.ofList).map .text)) fallback := by
  rw [tagNames, tagNames, tagValues, tagValues, List.map_map]
  rfl

/-- Tags without commas may be given as a list or between commas. -/
theorem tagNames_joined (plain : ∀ t ∈ tags, ',' ∉ t.toList) :
    tagNames (.text (",".intercalate tags)) fallback =
      tagNames (.list (tags.map .text)) fallback := by
  cases tags with
  | nil => rfl
  | cons t rest =>
    have pieces : Text.splitOn ',' (",".intercalate (t :: rest)).toList =
        (t :: rest).map String.toList := by
      rw [String.toList_intercalate]
      exact Text.splitOn_intercalate (by simp) (by simpa using plain)
    have same : ((t :: rest).map String.toList).map String.ofList = t :: rest := by
      simp [Function.comp_def]
    rw [tagNames_text, pieces, same]

theorem normalizeTags_eq_none {v : Value} :
    normalizeTags v fallback = none ↔ tagNames v fallback = [] := by
  unfold normalizeTags
  split <;> simp_all

theorem normalizeTags_eq_some {v : Value} {names : List String}
    (given : normalizeTags v fallback = some names) : tagNames v fallback = names := by
  unfold normalizeTags at given
  split at given
  · cases given
  · exact Option.some.inj given

theorem mem_tagNames_list {name : String} :
    name ∈ tagNames (.list (tags.map .text)) fallback ↔
      ∃ t ∈ tags, ¬Text.IsBlank t ∧ Naming.tagName (.text t) fallback = name := by
  rw [tagNames_list, TypeExpr.mem_distinct, List.mem_map]
  simp only [List.mem_filter, decide_eq_true_eq, and_assoc]

theorem tagNames_list_eq_nil :
    tagNames (.list (tags.map .text)) fallback = [] ↔ ∀ t ∈ tags, Text.IsBlank t := by
  rw [List.eq_nil_iff_forall_not_mem]
  simp only [mem_tagNames_list, not_exists, not_and]
  constructor
  · intro none t member
    by_contra present
    exact none _ t member present rfl
  · intro blank name t member present
    exact absurd (blank t member) present

/-- A tag that is not blank is a setting by itself, whatever the fallback. -/
theorem normalizeTags_singleton {t : String} (present : ¬Text.IsBlank t)
    (fallback other : String) :
    normalizeTags (.list [.text t]) fallback = some [Naming.tagName (.text t) other] := by
  have names : tagNames (.list [.text t]) fallback = _ := tagNames_list [t] fallback
  rw [List.filter_singleton, decide_eq_true present, cond_true] at names
  rw [normalizeTags, names, Naming.tagName_text (Text.ne_empty_of_present present) other fallback]
  rfl

end

namespace Services

/-- An operation of the document stands in the service of its first tag. -/
theorem exists_operation_of_ofDocument {config : Config} {models : Table Model} {document : Value}
    {services : Table Service}
    (success : (ofDocument config models document).outcome = .ok services)
    {e : Endpoint} (entry : e ∈ pathEntries document) {method : String} {definition : Fields}
    (operates : e.Operates method definition) {tag : Value}
    (first : firstTag (definition.get "tags") = .ok tag) :
    ∃ s, services.get? (Naming.tagName tag config.defaultTag) = some s ∧
      ∃ o ∈ s.operations, Declared.Gives config models document
        ⟨Naming.tagName tag config.defaultTag, ⟨e.url, method, e.item⟩, definition⟩ o := by
  obtain ⟨drafts, gathered, -, sameOperations⟩ := gathered_of_ofDocument success
  have named := (mem_keys_ofDocument success).mpr
    ⟨tag, ⟨e, entry, method, definition, operates, first⟩, rfl⟩
  obtain ⟨⟨name, s⟩, member, same⟩ := List.mem_map.mp named
  dsimp only at same
  subst same
  have there : services.get? _ = some s := Table.get?_eq_some.mpr member
  obtain ⟨o, running, gives⟩ := exists_of_forall₂
    (gathered.operations (Naming.tagName tag config.defaultTag))
    (List.mem_filter.mpr ⟨mem_declaredOperations entry operates first, by simp only [decide_true]⟩)
  exact ⟨s, there, o, sameOperations _ s there ▸ running, gives⟩

end Services

namespace TagFilter

/-- A filter that is to keep the tag `t` keeps the service `name` of a table, and a filter that is
to drop the tag drops it. -/
structure Selects (table : Table Service) (t name : String) (s : Service) : Prop where
  present : table.get? name = some s
  kept : ∀ dropUnused fallback,
    ((ofTags (.list [.text t]) .null dropUnused fallback).services table).get? name = some s
  dropped : ∀ dropUnused fallback,
    ((ofTags .null (.list [.text t]) dropUnused fallback).services table).get? name = none

theorem includes_of_kept {t : String} (present : ¬Text.IsBlank t) (dropUnused : Bool)
    (fallback other : String) :
    (ofTags (.list [.text t]) .null dropUnused fallback).includes
      (Naming.tagName (.text t) other) = true := by
  have excluded : normalizeTags .null fallback = none := rfl
  rw [includes, ofTags]
  simp [normalizeTags_singleton present fallback other, excluded]

theorem not_includes_of_dropped {t : String} (present : ¬Text.IsBlank t) (dropUnused : Bool)
    (fallback other : String) :
    ¬(ofTags .null (.list [.text t]) dropUnused fallback).includes
      (Naming.tagName (.text t) other) = true := by
  rw [includes, ofTags]
  simp [normalizeTags_singleton present fallback other]

theorem selects_of_present {table : Table Service} {t : String} {s : Service}
    (present : ¬Text.IsBlank t) (fallback : String)
    (there : table.get? (Naming.tagName (.text t) fallback) = some s) :
    Selects table t (Naming.tagName (.text t) fallback) s := by
  refine ⟨there, ?_, ?_⟩
  · intro dropUnused other
    rw [services, Table.get?_filter_key, if_pos (includes_of_kept present dropUnused other _),
      there]
  · intro dropUnused other
    rw [services, Table.get?_filter_key,
      if_neg (not_includes_of_dropped present dropUnused other _)]

/-- Tags in settings give the names that tags of operations give. A list of tags without commas is
as good as the tags between commas, it stands for nothing exactly if all its tags are blank, and
else for the names of those that are not. So an operation whose first tag is not blank stands in a
service that a filter for this very tag is about. -/
theorem normalizeTags_alike (tags : List String) (fallback : String) :
    ((∀ t ∈ tags, ',' ∉ t.toList) → normalizeTags (.text (",".intercalate tags)) fallback =
      normalizeTags (.list (tags.map .text)) fallback) ∧
    (normalizeTags (.list (tags.map .text)) fallback = none ↔ ∀ t ∈ tags, Text.IsBlank t) ∧
    (∀ names, normalizeTags (.list (tags.map .text)) fallback = some names →
      names.Nodup ∧ ∀ name, name ∈ names ↔
        ∃ t ∈ tags, ¬Text.IsBlank t ∧ Naming.tagName (.text t) fallback = name) ∧
    ∀ (config : Config) (models : Table Model) (document : Value) (services : Table Service),
      (Services.ofDocument config models document).outcome = .ok services →
      ∀ e ∈ Services.pathEntries document, ∀ method definition t, e.Operates method definition →
        Services.firstTag (definition.get "tags") = .ok (.text t) → ¬Text.IsBlank t →
        ∃ s, Selects services t (Naming.tagName (.text t) config.defaultTag) s ∧
          ∃ o ∈ s.operations, Services.Declared.Gives config models document
            ⟨Naming.tagName (.text t) config.defaultTag, ⟨e.url, method, e.item⟩, definition⟩
            o := by
  refine ⟨?_, ?_, ?_, ?_⟩
  · intro plain
    rw [normalizeTags, normalizeTags, tagNames_joined plain]
  · rw [normalizeTags_eq_none, tagNames_list_eq_nil]
  · intro names given
    rw [← normalizeTags_eq_some given]
    refine ⟨?_, fun name => mem_tagNames_list⟩
    rw [tagNames_list]
    exact TypeExpr.nodup_distinct _
  · intro config models document services success e entry method definition t operates first present
    obtain ⟨s, there, o, running, gives⟩ :=
      Services.exists_operation_of_ofDocument success entry operates first
    exact ⟨s, selects_of_present present _ there, o, running, gives⟩

open Services (Endpoint ofDocument pathEntries shopDocument shop_built taggedOperation)

/-- Two spellings of a tag and a blank stand for one name, under which a shop has a service. -/
theorem normalizeTags_alike_shop :
    normalizeTags (.text " our-pets,Our pets ,  ") "Api" =
      normalizeTags (.list [.text " our-pets", .text "Our pets ", .text "  "]) "Api" ∧
    (∀ name, name ∈ ["OurPets"] ↔ ∃ t ∈ [" our-pets", "Our pets ", "  "], ¬Text.IsBlank t ∧
      Naming.tagName (.text t) "Api" = name) ∧
    ∃ models services s, (ofDocument {} models shopDocument).outcome = .ok services ∧
      Selects services "our-pets" "OurPets" s ∧ ∃ o ∈ s.operations, o.path = .text "/pets" := by
  obtain ⟨models, services, -, built, -⟩ := shop_built
  obtain ⟨alike, -, members, selects⟩ :=
    normalizeTags_alike [" our-pets", "Our pets ", "  "] "Api"
  have names : normalizeTags (.list [.text " our-pets", .text "Our pets ", .text "  "]) "Api" =
      some ["OurPets"] := by
    cbv
  have entry : (⟨.text "/pets", .text "get", taggedOperation "getPets" ["our-pets", "shop"],
      _⟩ : Endpoint) ∈ pathEntries shopDocument := .tail _ (.head _)
  obtain ⟨s, selected, o, running, gives⟩ := selects {} models shopDocument services built _ entry
    "get" _ "our-pets" ⟨rfl, rfl, by decide⟩ rfl (by decide)
  have named : Naming.tagName (.text "our-pets") "Api" = "OurPets" := by cbv
  exact ⟨alike (by decide), (members _ names).2, models, services, s, built, named ▸ selected, o,
    running, gives.path⟩

end TagFilter

end ClientGen
