import Mathlib.Data.List.Infix
import ClientGen.Client.Globals
import ClientGen.Proofs.LetterCase
import ClientGen.Proofs.Runs

/-!
# The stems of files

The stem of the file of a class is its name in lower case with dashes put in. A class name has no
dash, so that the stem tells the name up to case (`key_eq_of_fileStem`): models, which are filed by
that, never share a stem. The files that all services share have endings that tell them apart.
-/
namespace ClientGen

namespace Naming

/-- A name in lower case with dashes put in is left without them. -/
theorem filter_dashed (after : Bool) {s : List Char} (words : ∀ c ∈ s, isWord c = true) :
    (dashed after (s.map fun c => [c])).filter (· ≠ '-') = s.flatMap Text.lowerChar := by
  induction s generalizing after with
  | nil => rfl
  | cons c rest ih =>
    have word : isWord c = true := words c List.mem_cons_self
    have dashless : (Text.lowerChar c).filter (· ≠ '-') = Text.lowerChar c := by
      obtain ⟨d, lower, stays, -⟩ := exists_lowerChar word
      rw [lower, List.filter_eq_self]
      intro e member
      rw [List.mem_singleton] at member
      subst member
      rw [decide_eq_true_eq]
      rintro rfl
      exact absurd stays (by decide)
    rw [List.map_cons, dashed, List.filter_append, List.filter_append, lowerChars_singleton word,
      dashless, ih _ fun d later => words d (List.mem_cons_of_mem c later), List.flatMap_cons]
    split
    · rfl
    · rfl

/-- A name of word characters is in lower case one by one. -/
theorem toList_key {name : String} (words : ∀ c ∈ name.toList, isWord c = true) :
    (key name).toList = name.toList.flatMap Text.lowerChar := by
  rw [key, Text.lower, String.toList_ofList, Text.lowerChars, lowerAfter_of_isWord words]

def undashed (stem : String) : String := String.ofList (stem.toList.filter (· ≠ '-'))

/-- The stem of a class tells the key of the class. -/
theorem undashed_fileStem (name : String) :
    undashed (fileStem (className name)) = key (className name) := by
  have words : ∀ c ∈ (className name).toList, isWord c = true := fun _ => isWord_of_mem_className
  rw [← String.toList_inj, toList_key words, undashed, String.toList_ofList, fileStem, fileStemOf,
    String.toList_ofList, pieces, filter_dashed false words]

/-- Class names with the same stem are the same up to case. -/
theorem key_eq_of_fileStem {name other : String}
    (same : fileStem (className name) = fileStem (className other)) :
    key (className name) = key (className other) := by
  rw [← undashed_fileStem name, same, undashed_fileStem]

/-- A stem is made of word characters and dashes. -/
theorem mem_fileStem {name : String} {c : Char}
    (member : c ∈ (fileStem (className name)).toList) : isWord c = true ∨ c = '-' := by
  by_cases dash : c = '-'
  · exact Or.inr dash
  · left
    have words : ∀ d ∈ (className name).toList, isWord d = true := fun _ => isWord_of_mem_className
    have among : c ∈ (className name).toList.flatMap Text.lowerChar := by
      rw [← filter_dashed false words, List.mem_filter]
      rw [fileStem, fileStemOf, String.toList_ofList] at member
      exact ⟨member, by simpa using dash⟩
    obtain ⟨d, inside, lower⟩ := List.mem_flatMap.mp among
    obtain ⟨e, single, stays, -⟩ := exists_lowerChar (words d inside)
    rw [single, List.mem_singleton] at lower
    exact lower ▸ stays

/-- The stem of a class has no slash. -/
theorem slash_not_mem_fileStem (name : String) : '/' ∉ (fileStem (className name)).toList := by
  intro member
  rcases mem_fileStem member with word | dash
  · exact absurd word (by decide)
  · exact absurd dash (by decide)

theorem camelCase_append (keep : Char → Bool) (gap : Bool) (s t : List Piece) :
    ∃ after, camelCase keep gap (s ++ t) = camelCase keep gap s ++ camelCase keep after t := by
  induction s generalizing gap with
  | nil => exact ⟨gap, rfl⟩
  | cons piece rest ih =>
    rw [List.cons_append, camelCase, camelCase]
    split
    · obtain ⟨after, later⟩ := ih false
      exact ⟨after, by rw [later, List.append_assoc]⟩
    · exact ih true

theorem dashed_append (afterLower : Bool) (s t : List Piece) :
    ∃ after, dashed afterLower (s ++ t) = dashed afterLower s ++ dashed after t := by
  induction s generalizing afterLower with
  | nil => exact ⟨afterLower, rfl⟩
  | cons piece rest ih =>
    obtain ⟨after, later⟩ := ih (isLower piece)
    refine ⟨after, ?_⟩
    rw [List.cons_append, dashed, later, dashed]
    simp only [List.append_assoc]

/-- The stem of a class ends with the last word of its name, whatever stands before it. -/
theorem suffix_fileStem {word : String} {stem : List Char} (front : String)
    (kept : ∀ gap, camelCase isWord gap (pieces word) = word.toList)
    (ending : ∀ after, stem <:+ dashed after (pieces word)) :
    stem <:+ (fileStem (className (front ++ word))).toList := by
  obtain ⟨gap, split⟩ := camelCase_append isWord true (pieces front) (pieces word)
  have name : ∃ before, (className (front ++ word)).toList = before ++ word.toList := by
    have whole : pieces (front ++ word) = pieces front ++ pieces word := by
      rw [pieces, String.toList_append, List.map_append, pieces, pieces]
    rw [className, classNameOf, String.toList_ofList, whole, split, kept, escapeDigit]
    split
    · exact ⟨_, List.cons_append.symm⟩
    · exact ⟨_, rfl⟩
  obtain ⟨before, name⟩ := name
  obtain ⟨after, dashes⟩ := dashed_append false (before.map fun c => [c]) (pieces word)
  rw [fileStem, fileStemOf, String.toList_ofList, pieces, name, List.map_append, ← pieces, dashes]
  exact (ending after).trans (List.suffix_append _ _)

end Naming

namespace Client

open Naming

/-- What the names of the files that are not about one model or one service end with. -/
def sharedEndings : List String :=
  ["models", "services", "module", "configuration", "strict-http-response", "base-service"]

/-- The stems of the files that are not about one model or one service. -/
def sharedStems (g : Globals) : List String :=
  ["models", "services", moduleStem g.config, g.configurationStem, "strict-http-response",
    "base-service"]

theorem suffix_moduleStem (config : Config) :
    "module".toList <:+ (moduleStem config).toList := by
  have whole : "module".toList <:+ (fileStem (className (config.classPrefix ++ "Module"))).toList :=
    suffix_fileStem config.classPrefix (by decide) (by decide)
  unfold moduleStem
  dsimp only
  split
  · rw [String.toList_append]
    exact (show "module".toList <:+ ".module".toList by decide).trans (List.suffix_append _ _)
  · rwa [String.ofList_toList]

theorem suffix_configurationStem (g : Globals) :
    "configuration".toList <:+ g.configurationStem.toList :=
  suffix_fileStem g.config.classPrefix (by decide) (by decide)

/-- The stem of the module has no slash. -/
theorem slash_not_mem_moduleStem (config : Config) : '/' ∉ (moduleStem config).toList := by
  have whole := slash_not_mem_fileStem (config.classPrefix ++ "Module")
  unfold moduleStem
  dsimp only
  split
  · rw [String.toList_append, String.toList_ofList, List.mem_append]
    rintro (front | ending)
    · exact whole (List.mem_of_mem_take front)
    · exact absurd ending (by decide)
  · rwa [String.ofList_toList]

/-- None of the shared files is in a directory. -/
theorem slash_not_mem_sharedStems (g : Globals) :
    ∀ stem ∈ sharedStems g, '/' ∉ stem.toList := by
  have configuration : '/' ∉ g.configurationStem.toList := slash_not_mem_fileStem _
  simp only [sharedStems, List.forall_mem_cons]
  exact ⟨by decide, by decide, slash_not_mem_moduleStem g.config, configuration, by decide,
    by decide, by simp⟩

/-- The shared files have different names, as no ending is the end of another one. -/
theorem nodup_sharedStems (g : Globals) : (sharedStems g).Nodup := by
  have endings : List.Forall₂ (fun e s : String => e.toList <:+ s.toList) sharedEndings
      (sharedStems g) :=
    .cons List.suffix_rfl (.cons List.suffix_rfl (.cons (suffix_moduleStem g.config)
      (.cons (suffix_configurationStem g) (.cons List.suffix_rfl
        (.cons List.suffix_rfl .nil)))))
  have apart : sharedEndings.Pairwise fun e f =>
      ¬e.toList <:+ f.toList ∧ ¬f.toList <:+ e.toList := by
    decide
  -- Along the pairing: a stem that comes again would have two endings, one inside the other.
  generalize sharedEndings = es at endings apart
  generalize sharedStems g = stems at endings
  induction endings with
  | nil => exact List.nodup_nil
  | @cons e s es stems ending others ih =>
    obtain ⟨fromFirst, rest⟩ := List.pairwise_cons.mp apart
    refine List.nodup_cons.mpr ⟨?_, ih rest⟩
    intro again
    obtain ⟨f, among, sameEnd⟩ := exists_of_forall₂ others.flip again
    rcases List.suffix_or_suffix_of_suffix ending sameEnd with inside | outside
    · exact (fromFirst f among).1 inside
    · exact (fromFirst f among).2 outside

end Client

end ClientGen
