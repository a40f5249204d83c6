import Mathlib.Data.List.DropRight
import ClientGen.Client.Layout

/-!
# Texts without blanks at the ends of lines

The last step of a file drops the blanks at the ends of its lines. `Text.trimmed` does so in one
pass over the characters (`Client.toList_trimLines`). A character that is not blank keeps what
stands before it apart from what follows (`Text.trimmed_append_cons`): the text before it loses only
the blanks before its line feeds, and keeps its last character.
-/
namespace ClientGen

namespace Text

/-- There are only blanks in the text, if anything. -/
def IsBlank (s : String) : Prop := ∀ c ∈ s.toList, isBlank c = true

instance (s : String) : Decidable (IsBlank s) :=
  List.decidableBAll (fun c => isBlank c = true) s.toList

/-- What is trimmed stands at the ends. -/
theorem exists_trimBy (p : Char → Bool) (s : List Char) :
    ∃ front back, s = front ++ trimBy p s ++ back ∧ (∀ c ∈ front, p c = true) ∧
      ∀ c ∈ back, p c = true := by
  have within : ∀ (t : List Char), ∀ c ∈ t.takeWhile p, p c = true :=
    fun t c member => List.mem_takeWhile_imp member
  let rest := s.dropWhile p
  have ends : rest = trimBy p s ++ (rest.reverse.takeWhile p).reverse := by
    rw [trimBy, trimEndBy, ← List.reverse_append, List.takeWhile_append_dropWhile,
      List.reverse_reverse]
  refine ⟨s.takeWhile p, (rest.reverse.takeWhile p).reverse, ?_, within s, ?_⟩
  · rw [List.append_assoc, ← ends, List.takeWhile_append_dropWhile]
  · intro c member
    exact within _ c (List.mem_reverse.mp member)

/-- A text that is all blank is trimmed away, and no other. -/
theorem trim_eq_empty_iff {s : String} : trim s = "" ↔ IsBlank s := by
  obtain ⟨front, back, parts, ofFront, ofBack⟩ := exists_trimBy isBlank s.toList
  rw [trim, String.ofList_eq_empty_iff]
  constructor
  · intro empty c member
    rw [parts, empty, List.append_nil] at member
    exact (List.mem_append.mp member).elim (ofFront c) (ofBack c)
  · intro blank
    have front : s.toList.dropWhile isBlank = [] := List.dropWhile_eq_nil_iff.mpr blank
    rw [trimBy, front]
    rfl

theorem ne_empty_of_present {s : String} (present : ¬IsBlank s) : s ≠ "" := by
  rintro rfl
  exact present (by simp [IsBlank])

/-- Whether only blanks are left of a line; `atEnd` tells whether the line ends where the text
does. -/
def endsLine (atEnd : Bool) : List Char → Bool
  | [] => atEnd
  | c :: rest => c == '\n' || (isBlank c && endsLine atEnd rest)

/-- A text without the blanks at the ends of its lines. -/
def trimmed (atEnd : Bool) : List Char → List Char
  | [] => []
  | c :: rest =>
    if c ≠ '\n' ∧ isBlank c = true ∧ endsLine atEnd rest = true then trimmed atEnd rest
    else c :: trimmed atEnd rest

variable {atEnd : Bool} {c : Char} {s : List Char}

theorem trimEndBy_eq_nil {p : Char → Bool} : trimEndBy p s = [] ↔ ∀ c ∈ s, p c = true :=
  List.rdropWhile_eq_nil_iff

theorem trimEndBy_cons (p : Char → Bool) (c : Char) (s : List Char) :
    trimEndBy p (c :: s) =
      if p c = true ∧ trimEndBy p s = [] then [] else c :: trimEndBy p s := by
  unfold trimEndBy
  rw [List.reverse_cons, List.dropWhile_append]
  by_cases empty : List.dropWhile p s.reverse = []
  · by_cases dropped : p c = true <;> simp [empty, dropped]
  · simp [empty]

theorem splitOn_cons_sep (sep : Char) (s : List Char) :
    splitOn sep (sep :: s) = [] :: splitOn sep s := by
  simp [splitOn]

/-- Another character belongs to the first of the parts. -/
theorem splitOn_cons_of_ne {sep : Char} {part : List Char} {parts : List (List Char)}
    (other : c ≠ sep) (cut : splitOn sep s = part :: parts) :
    splitOn sep (c :: s) = (c :: part) :: parts := by
  rw [splitOn, if_neg other, cut]

/-- A line ends where the first of the lines is blank. -/
theorem endsLine_iff {part : List Char} {parts : List (List Char)}
    (cut : splitOn '\n' s = part :: parts) :
    endsLine true s = true ↔ trimEndBy isBlank part = [] := by
  induction s generalizing part parts with
  | nil =>
    cases cut
    simp [endsLine, trimEndBy]
  | cons c s ih =>
    by_cases feed : c = '\n'
    · subst feed
      rw [splitOn_cons_sep] at cut
      cases cut
      simp [endsLine, trimEndBy]
    · obtain ⟨first, others, below⟩ := List.exists_cons_of_ne_nil (splitOn_ne_nil '\n' s)
      rw [splitOn_cons_of_ne feed below] at cut
      cases cut
      rw [trimEndBy_eq_nil, List.forall_mem_cons, ← trimEndBy_eq_nil, ← ih below]
      simp [endsLine, feed]

/-- The lines without their blanks, put together, are the text without the blanks of its lines. -/
theorem intercalate_trimEndBy (s : List Char) :
    ['\n'].intercalate ((splitOn '\n' s).map (trimEndBy isBlank)) = trimmed true s := by
  induction s with
  | nil => rfl
  | cons c s ih =>
    obtain ⟨first, others, below⟩ := List.exists_cons_of_ne_nil (splitOn_ne_nil '\n' s)
    rw [below] at ih
    by_cases feed : c = '\n'
    · subst feed
      rw [splitOn_cons_sep, below, trimmed, if_neg (by simp), ← ih, List.map_cons, List.map_cons,
        List.intercalate_cons_cons]
      rfl
    · have ends := endsLine_iff below
      rw [splitOn_cons_of_ne feed below, List.map_cons, trimEndBy_cons, trimmed]
      by_cases dropped : isBlank c = true ∧ trimEndBy isBlank first = []
      · rw [if_pos dropped, if_pos ⟨feed, dropped.1, ends.mpr dropped.2⟩, ← ih, List.map_cons,
          dropped.2]
      · rw [if_neg dropped, if_neg fun all => dropped ⟨all.2.1, ends.mp all.2.2⟩, ← ih]
        cases others <;> simp

theorem endsLine_append_cons (atEnd : Bool) (notBlank : isBlank c = false)
    (s rest : List Char) : endsLine atEnd (s ++ c :: rest) = endsLine false s := by
  induction s with
  | nil =>
    have notFeed : c ≠ '\n' := by
      rintro rfl
      cases notBlank
    simp [endsLine, notBlank, notFeed]
  | cons d s ih => rw [List.cons_append, endsLine, endsLine, ih]

/-- A character that is not blank is kept, and no line ends just before it. -/
theorem trimmed_append_cons (atEnd : Bool) (notBlank : isBlank c = false) (s rest : List Char) :
    trimmed atEnd (s ++ c :: rest) = trimmed false s ++ c :: trimmed atEnd rest := by
  induction s with
  | nil => simp [trimmed, notBlank]
  | cons d s ih =>
    rw [List.cons_append, trimmed, trimmed, endsLine_append_cons atEnd notBlank, ih]
    split <;> rfl

theorem trimmed_cons_feed (atEnd : Bool) (s : List Char) :
    trimmed atEnd ('\n' :: s) = '\n' :: trimmed atEnd s := by
  simp [trimmed]

theorem trimmed_sublist (atEnd : Bool) (s : List Char) : (trimmed atEnd s).Sublist s := by
  induction s with
  | nil => exact .slnil
  | cons c s ih =>
    rw [trimmed]
    split
    · exact ih.cons c
    · exact ih.cons_cons c

/-- No line feed is dropped. -/
theorem mem_trimmed_feed : '\n' ∈ trimmed atEnd s ↔ '\n' ∈ s := by
  induction s with
  | nil => rfl
  | cons c s ih =>
    rw [trimmed]
    split
    · rename_i dropped
      rw [ih, List.mem_cons, or_iff_right dropped.1.symm]
    · rw [List.mem_cons, List.mem_cons, ih]

theorem endsLine_of_absent (absent : '\n' ∉ s) : endsLine false s = false := by
  induction s with
  | nil => rfl
  | cons c s ih =>
    obtain ⟨other, later⟩ := not_or.mp (List.mem_cons.not.mp absent)
    simp [endsLine, ih later, Ne.symm other]

/-- Within a line nothing is dropped. -/
theorem trimmed_of_absent (absent : '\n' ∉ s) : trimmed false s = s := by
  induction s with
  | nil => rfl
  | cons c s ih =>
    have later : '\n' ∉ s := List.not_mem_of_not_mem_cons absent
    rw [trimmed, endsLine_of_absent later, if_neg (by simp), ih later]

/-- A text that goes on keeps its last character. -/
theorem getLast?_trimmed (s : List Char) : (trimmed false s).getLast? = s.getLast? := by
  induction s with
  | nil => rfl
  | cons c s ih =>
    rw [trimmed]
    split
    · rename_i dropped
      -- the line feed that ends the line is still to come
      have more : s ≠ [] := by
        rintro rfl
        cases dropped.2.2
      rw [ih, List.getLast?_cons_of_ne_nil more]
    · rw [List.getLast?_cons, List.getLast?_cons, ih]

end Text

namespace Client

theorem mem_indentation {level : Nat} {c : Char} (member : c ∈ (indentation level).toList) :
    c = ' ' := by
  rw [indentation, String.toList_ofList] at member
  exact List.eq_of_mem_replicate member

theorem toList_trimLines (text : String) :
    (trimLines text).toList = Text.trimmed true text.toList := by
  have lines : (Text.lines text).map (String.toList ∘ Text.trimEnd) =
      (Text.splitOn '\n' text.toList).map (Text.trimEndBy Text.isBlank) := by
    rw [Text.lines, List.map_map]
    exact List.map_congr_left fun line _ => by simp [Text.trimEnd]
  rw [trimLines, String.toList_intercalate, List.map_map, lines]
  exact Text.intercalate_trimEndBy text.toList

/-- A character that is not blank cuts a text into two parts that are trimmed on their own. -/
theorem trimLines_append {front : String} {c : Char} (notBlank : Text.isBlank c = false)
    (ends : front.toList.getLast? = some c) (back : String) :
    trimLines (front ++ back) = trimLines front ++ trimLines back := by
  obtain ⟨before, same⟩ := List.getLast?_eq_some_iff.mp ends
  rw [← String.toList_inj]
  simp only [String.toList_append, toList_trimLines, same, List.append_assoc, List.cons_append,
    List.nil_append]
  rw [Text.trimmed_append_cons true notBlank, Text.trimmed_append_cons true notBlank]
  simp [Text.trimmed]

end Client

end ClientGen
