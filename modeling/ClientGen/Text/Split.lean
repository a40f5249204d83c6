/-!
# Splitting and replacing

Cutting a text at a separator, taking what stands after the last separator, and replacing
every occurrence of a pattern. The parts of a text, joined by the separator, give it back
(`join_splitOn`).
-/
namespace ClientGen.Text

/-- The parts of a text between the occurrences of a separator; there is always at least one. -/
def splitOn (sep : Char) : List Char → List (List Char)
  | [] => [[]]
  | c :: rest =>
    if c = sep then [] :: splitOn sep rest
    else match splitOn sep rest with
      | [] => [[c]]
      | part :: parts => (c :: part) :: parts

/-- The parts put together again, with a separator between each two. -/
def join (sep : List Char) : List (List Char) → List Char
  | [] => []
  | [part] => part
  | part :: next :: parts => part ++ sep ++ join sep (next :: parts)

theorem splitOn_ne_nil (sep : Char) (s : List Char) : splitOn sep s ≠ [] := by
  cases s with
  | nil => simp [splitOn]
  | cons c rest =>
    simp only [splitOn]
    split
    · simp
    · split <;> simp

theorem join_splitOn (sep : Char) (s : List Char) : join [sep] (splitOn sep s) = s := by
  induction s with
  | nil => rfl
  | cons c rest ih =>
    cases hparts : splitOn sep rest with
    | nil => exact absurd hparts (splitOn_ne_nil sep rest)
    | cons part parts =>
      rw [hparts] at ih
      by_cases h : c = sep
      · simp [splitOn, h, hparts, join, ih]
      · cases parts with
        | nil => simp_all [splitOn, join]
        | cons next parts => simp_all [splitOn, join]

/-- What stands after the last separator, or the whole text when there is none. -/
def afterLast (sep : Char) (s : List Char) : List Char :=
  ((splitOn sep s).getLast?).getD []

/-- Replaces every occurrence of `old`, from left to right and without looking at what was put
in; the first argument counts the characters of an occurrence that are still to be skipped. -/
def replaceFrom (old new : List Char) : Nat → List Char → List Char
  | _, [] => []
  | skip + 1, _ :: rest => replaceFrom old new skip rest
  | 0, c :: rest =>
    if old.isPrefixOf (c :: rest) then new ++ replaceFrom old new (old.length - 1) rest
    else c :: replaceFrom old new 0 rest

/-- Replaces every occurrence of the non-empty text `old`. -/
def replaceAll (old new : String) (s : String) : String :=
  String.ofList (replaceFrom old.toList new.toList 0 s.toList)

/-- The lines of a text, cut at line feeds. -/
def lines (s : String) : List String :=
  (splitOn '\n' s.toList).map String.ofList

def containsChars (part : List Char) : List Char → Bool
  | [] => part.isEmpty
  | c :: rest => part.isPrefixOf (c :: rest) || containsChars part rest

def contains (part s : String) : Bool :=
  containsChars part.toList s.toList

end ClientGen.Text
