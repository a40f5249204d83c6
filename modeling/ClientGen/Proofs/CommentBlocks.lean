import Mathlib
import ClientGen.Proofs.ClassNames
import ClientGen.Proofs.PrintedTypes
import ClientGen.Proofs.TrimmedLines

/-!
# Descriptions in comment blocks

A description is written as a comment, each of its lines behind a star (`lines_commentBlock`), and
the lines can be read back from the block. The end of a comment is no longer than a line, and the
frame around the lines does not make one: the block has an end of a comment before its own exactly
if one stands in the text (`isOneComment_commentBlock_iff`).
-/
namespace ClientGen

namespace Text

variable {p s front back : List Char} {sep : Char}

/-- What has no character with the end of a list in common stands before it. -/
theorem infix_append_right_iff (apart : ∀ c ∈ back, c ∉ p) : p <:+: s ++ back ↔ p <:+: s := by
  cases back with
  | nil => rw [List.append_nil]
  | cons c rest =>
    obtain ⟨first, others⟩ := List.forall_mem_cons.mp apart
    rw [infix_append_cons_iff first, or_iff_left_iff_imp]
    intro later
    have empty : p = [] :=
      List.eq_nil_iff_forall_not_mem.mpr fun c member => others c (later.subset member) member
    rw [empty]
    exact List.nil_infix

/-- What has no character with the start of a list in common stands behind it. -/
theorem infix_append_left_iff (apart : ∀ c ∈ front, c ∉ p) : p <:+: front ++ s ↔ p <:+: s := by
  rw [← List.reverse_infix, List.reverse_append, ← @List.reverse_infix _ p s]
  exact infix_append_right_iff (by simpa using apart)

/-- What lacks the separator stands in one of the parts. -/
theorem infix_iff_splitOn (present : p ≠ []) (absent : sep ∉ p) :
    p <:+: s ↔ ∃ part ∈ splitOn sep s, p <:+: part := by
  conv_lhs => rw [← join_splitOn sep s]
  induction splitOn sep s with
  | nil => simpa [join] using present
  | cons part parts ih =>
    cases parts with
    | nil => simp [join]
    | cons next parts =>
      rw [join, List.append_assoc, List.singleton_append, infix_append_cons_iff absent, ih]
      simp only [List.mem_cons, exists_eq_or_imp]

/-- What has no line feed stands in one of the lines. -/
theorem infix_iff_lines (present : p ≠ []) (absent : '\n' ∉ p) (text : String) :
    p <:+: text.toList ↔ ∃ line ∈ lines text, p <:+: line.toList := by
  rw [infix_iff_splitOn present absent, lines]
  simp only [List.mem_map, exists_exists_and_eq_and, String.toList_ofList]

/-- What has no blanks stands in a text exactly if it stands in the trimmed text. -/
theorem infix_trim_iff {part : String} (solid : ∀ c ∈ part.toList, isBlank c = false) (s : String) :
    part.toList <:+: (trim s).toList ↔ part.toList <:+: s.toList := by
  have apart (blanks : List Char) (blank : ∀ c ∈ blanks, isBlank c = true) :
      ∀ c ∈ blanks, c ∉ part.toList := fun c member among => by
    simpa [blank c member] using solid c among
  obtain ⟨before, after, parts, ofBefore, ofAfter⟩ := exists_trimBy isBlank s.toList
  rw [parts, infix_append_right_iff (apart after ofAfter),
    infix_append_left_iff (apart before ofBefore), trim, String.toList_ofList]

/-- The lines of two texts, one below the other. -/
theorem lines_append_feed (front back : String) :
    lines (front ++ "\n" ++ back) = lines front ++ lines back := by
  have chars : (front ++ "\n" ++ back).toList = front.toList ++ '\n' :: back.toList := by simp
  rw [lines, chars, splitOn_append_cons, List.map_append, lines, lines]

theorem lines_of_absent {line : String} (absent : '\n' ∉ line.toList) : lines line = [line] := by
  rw [lines, splitOn_of_absent absent, List.map_singleton, String.ofList_toList]

theorem not_mem_of_mem_splitOn {part : List Char} (member : part ∈ splitOn sep s) : sep ∉ part := by
  induction s generalizing part with
  | nil =>
    rw [List.mem_singleton.mp member]
    exact List.not_mem_nil
  | cons c s ih =>
    obtain ⟨first, others, cut⟩ := List.exists_cons_of_ne_nil (splitOn_ne_nil sep s)
    rw [cut] at ih
    by_cases same : c = sep
    · rw [same, splitOn_cons_sep, cut] at member
      rcases List.mem_cons.mp member with rfl | later
      · exact List.not_mem_nil
      · exact ih later
    · rw [splitOn_cons_of_ne same cut] at member
      rcases List.mem_cons.mp member with rfl | later
      · exact List.not_mem_cons_of_ne_of_not_mem (Ne.symm same) (ih List.mem_cons_self)
      · exact ih (List.mem_cons_of_mem _ later)

theorem feed_not_mem_of_mem_lines {line text : String} (member : line ∈ lines text) :
    '\n' ∉ line.toList := by
  obtain ⟨part, among, rfl⟩ := List.mem_map.mp member
  rw [String.toList_ofList]
  exact not_mem_of_mem_splitOn among

end Text

namespace Client

/-- What follows the first end of a comment, if there is one. -/
def behindComment? : List Char → Option (List Char)
  | '*' :: '/' :: rest => some rest
  | _ :: rest => behindComment? rest
  | [] => none

/-- The text is a comment on lines of its own, with the indentation of the line after it: what
`/**` opens is closed at the end of the text and not before. -/
def IsOneComment (level : Nat) (block : String) : Prop :=
  ∃ inside, block.toList = '\n' :: (indentation level).toList ++ "/**".toList ++ inside ∧
    behindComment? inside = some ('\n' :: (indentation level).toList)

theorem behindComment?_eq_some {s rest : List Char} :
    behindComment? s = some rest ↔
      ∃ front, s = front ++ '*' :: '/' :: rest ∧ ¬['*', '/'] <:+: front ++ ['*'] := by
  fun_induction behindComment? s with
  | case1 after =>
    constructor
    · intro same
      cases same
      exact ⟨[], rfl, by simp [List.infix_cons_iff]⟩
    · rintro ⟨front, same, first⟩
      match front with
      | [] => simpa using same
      | [_] => simp at same
      | _ :: d :: front =>
        obtain ⟨rfl, rfl, -⟩ := by simpa using same
        exact absurd ⟨[], front ++ ['*'], by simp⟩ first
  | case2 c s other ih =>
    rw [ih]
    constructor
    · rintro ⟨front, rfl, first⟩
      refine ⟨c :: front, rfl, ?_⟩
      rw [List.cons_append, List.infix_cons_iff, not_or]
      refine ⟨?_, first⟩
      intro starts
      -- the star and the slash after it would have been found here
      match front with
      | [] => simp at starts
      | d :: front =>
        obtain ⟨rfl, rfl⟩ : '*' = c ∧ '/' = d := by simpa using starts
        exact other _ rfl rfl
    · rintro ⟨front, same, first⟩
      match front with
      | [] =>
        obtain ⟨rfl, rfl⟩ := by simpa using same
        exact absurd rfl (other rest rfl)
      | _ :: front =>
        obtain ⟨rfl, rfl⟩ := by simpa using same
        exact ⟨front, rfl, fun within => first (List.infix_cons within)⟩
  | case3 => simp

/-- A line of a description behind its star; of an empty line the star is left. -/
def framed (indent line : String) : String :=
  indent ++ " *" ++ if line = "" then "" else " " ++ line

/-- What a line of a comment block says: what stands behind the indentation, the star and a blank.
A star alone says nothing. -/
def lineText? (level : Nat) (line : String) : Option String :=
  match line.toList.dropPrefix? ((indentation level).toList ++ [' ', '*']) with
  | some [] => some ""
  | some (' ' :: said) => some (String.ofList said)
  | _ => none

section

variable {level : Nat} {text line : String} {p : List Char}

theorem commentLine_eq (indent line : String) :
    commentLine indent line = framed indent line ++ "\n" :=
  rfl

theorem feed_not_mem_framed (oneLine : '\n' ∉ line.toList) :
    '\n' ∉ (framed (indentation level) line).toList := by
  have indent : '\n' ∉ (indentation level).toList := fun member => by
    cases mem_indentation member
  rw [framed]
  split <;> simp [indent, oneLine]

theorem lineText?_framed (level : Nat) (line : String) :
    lineText? level (framed (indentation level) line) = some line := by
  have stripped (said : List Char) :
      ((indentation level).toList ++ [' ', '*'] ++ said).dropPrefix?
        ((indentation level).toList ++ [' ', '*']) = some said :=
    List.dropPrefix?_eq_some_iff.mpr ⟨_, rfl, by simp⟩
  unfold lineText? framed
  by_cases empty : line = ""
  · have chars : (indentation level ++ " *" ++ if line = "" then "" else " " ++ line).toList =
        (indentation level).toList ++ [' ', '*'] ++ [] := by simp [empty]
    rw [chars, stripped, empty]
  · have chars : (indentation level ++ " *" ++ if line = "" then "" else " " ++ line).toList =
        (indentation level).toList ++ [' ', '*'] ++ ' ' :: line.toList := by simp [empty]
    simp only [chars, stripped, String.ofList_toList]

/-- The lines of a description come back as the lines of the block, each behind its star. -/
theorem lines_join_commentLine {lines : List String} (oneLine : ∀ line ∈ lines, '\n' ∉ line.toList)
    (rest : String) :
    Text.lines (String.join (lines.map (commentLine (indentation level))) ++ rest) =
      lines.map (framed (indentation level)) ++ Text.lines rest := by
  induction lines with
  | nil => simp
  | cons line lines ih =>
    obtain ⟨first, others⟩ := List.forall_mem_cons.mp oneLine
    rw [List.map_cons, String.join_cons, commentLine_eq, String.append_assoc,
      Text.lines_append_feed, Text.lines_of_absent (feed_not_mem_framed first), ih others]
    rfl

/-- The lines of a block are those of its text between a first and a last part of the frame. -/
theorem lines_commentBlock (text : String) (level : Nat) :
    Text.lines (commentBlock text level) =
      ["", indentation level ++ "/**"] ++
        (Text.lines (Text.trim text)).map (framed (indentation level)) ++
        [indentation level ++ " */", indentation level] := by
  have indent : '\n' ∉ (indentation level).toList := fun member => by
    cases mem_indentation member
  have opening : Text.lines (indentation level ++ "/**") = [indentation level ++ "/**"] :=
    Text.lines_of_absent (by simp [indent])
  have closing : Text.lines (indentation level ++ " */") = [indentation level ++ " */"] :=
    Text.lines_of_absent (by simp [indent])
  have nothing : Text.lines "" = [""] := Text.lines_of_absent (by simp)
  have block : commentBlock text level = "" ++ "\n" ++ (indentation level ++ "/**" ++ "\n" ++
      (String.join ((Text.lines (Text.trim text)).map (commentLine (indentation level))) ++
        (indentation level ++ " */" ++ "\n" ++ indentation level))) := by
    rw [← String.toList_inj]
    simp [commentBlock]
  rw [block, Text.lines_append_feed, Text.lines_append_feed, opening,
    lines_join_commentLine fun line => Text.feed_not_mem_of_mem_lines, Text.lines_append_feed,
    closing, nothing, Text.lines_of_absent indent]
  simp only [List.cons_append, List.nil_append]

theorem not_infix_indentation : ¬['*', '/'] <:+: (indentation level).toList :=
  fun within => by cases mem_indentation (within.subset List.mem_cons_self)

/-- The frame of a line does not make an end of a comment. -/
theorem infix_framed_iff :
    ['*', '/'] <:+: (framed (indentation level) line).toList ↔ ['*', '/'] <:+: line.toList := by
  have star : ¬['*', '/'] <:+: (indentation level).toList ++ ' ' :: ['*'] := by
    rw [Text.infix_append_cons_iff (by decide), not_or]
    exact ⟨not_infix_indentation, by decide⟩
  by_cases empty : line = ""
  · have chars : (framed (indentation level) line).toList =
        (indentation level).toList ++ ' ' :: ['*'] := by simp [framed, empty]
    rw [chars, empty]
    exact iff_of_false star (by decide)
  · have chars : (framed (indentation level) line).toList =
        ((indentation level).toList ++ ' ' :: ['*']) ++ ' ' :: line.toList := by
      simp [framed, empty]
    rw [chars, Text.infix_append_cons_iff (by decide), or_iff_right star]

theorem infix_join_commentLine_iff {lines : List String} :
    ['*', '/'] <:+: (String.join (lines.map (commentLine (indentation level)))).toList ↔
      ∃ line ∈ lines, ['*', '/'] <:+: line.toList := by
  induction lines with
  | nil => simp
  | cons line lines ih =>
    have chars : (String.join ((line :: lines).map (commentLine (indentation level)))).toList =
        (framed (indentation level) line).toList ++
          '\n' :: (String.join (lines.map (commentLine (indentation level)))).toList := by
      simp [commentLine_eq]
    rw [chars, Text.infix_append_cons_iff (by decide), infix_framed_iff, ih]
    simp only [List.mem_cons, exists_eq_or_imp]

/-- The comment of a text ends where the block does, unless the text holds an end of a comment. -/
theorem isOneComment_commentBlock_iff (text : String) (level : Nat) :
    IsOneComment level (commentBlock text level) ↔ Text.contains "*/" text = false := by
  let indent := (indentation level).toList
  let said := (String.join ((Text.lines (Text.trim text)).map
    (commentLine (indentation level)))).toList
  have block : (commentBlock text level).toList = '\n' :: indent ++ "/**".toList ++
      (['\n'] ++ (said ++ indent) ++ [' '] ++ '*' :: '/' :: '\n' :: indent) := by
    simp [commentBlock, indent, said]
  have within : ['*', '/'] <:+: said ↔ ['*', '/'] <:+: text.toList := by
    have trimmed : ['*', '/'] <:+: (Text.trim text).toList ↔ ['*', '/'] <:+: text.toList :=
      @Text.infix_trim_iff "*/" (by simp [Text.isBlank]) text
    rw [infix_join_commentLine_iff, ← Text.infix_iff_lines (by decide) (by decide), trimmed]
  have before : ['*', '/'] <:+: (['\n'] ++ (said ++ indent)) ++ ' ' :: ['*'] ↔
      ['*', '/'] <:+: text.toList := by
    have feed : ∀ c ∈ ['\n'], c ∉ ['*', '/'] := by simp
    have blank : ∀ c ∈ indent, c ∉ ['*', '/'] := fun c member => by
      rw [mem_indentation member]
      decide
    rw [Text.infix_append_cons_iff (by decide), or_iff_left (by decide),
      Text.infix_append_left_iff feed, Text.infix_append_right_iff blank, within]
  have closes : IsOneComment level (commentBlock text level) ↔
      ¬['*', '/'] <:+: (['\n'] ++ (said ++ indent)) ++ ' ' :: ['*'] := by
    rw [List.append_cons]
    constructor
    · rintro ⟨inside, same, closed⟩
      rw [block, List.append_cancel_left_eq] at same
      obtain ⟨front, parts, first⟩ := behindComment?_eq_some.mp (same ▸ closed)
      rwa [List.append_cancel_right parts]
    · intro first
      exact ⟨_, block, behindComment?_eq_some.mpr ⟨_, rfl, first⟩⟩
  rw [closes, before, Bool.eq_false_iff, Ne, Text.contains_iff]
  rfl

/-- A description that is set is written as a block from which its lines can be read back, those of
the trimmed text, and which is one comment exactly if the text does not hold an end of a comment. -/
theorem comment_block_iff (text : String) (level : Nat) (set : text ≠ "") :
    ∃ block, comment (.text text) level = .ok block ∧
      (∃ said, Text.lines block = ["", indentation level ++ "/**"] ++ said ++
          [indentation level ++ " */", indentation level] ∧
        said.map (lineText? level) = (Text.lines (Text.trim text)).map some) ∧
      (IsOneComment level block ↔ Text.contains "*/" text = false) := by
  have isSet : (Value.text text).isSet = true := bne_iff_ne.mpr set
  have written : comment (.text text) level = .ok (commentBlock text level) := by
    rw [comment, if_pos isSet]
    rfl
  refine ⟨_, written, ⟨_, lines_commentBlock text level, ?_⟩,
    isOneComment_commentBlock_iff text level⟩
  rw [List.map_map]
  exact List.map_congr_left fun line _ => lineText?_framed level line

/-- A description of two paragraphs is one comment. -/
theorem comment_block_paragraphs :
    comment (.text "Line one\n\nLine two") 1 =
      .ok "\n  /**\n   * Line one\n   *\n   * Line two\n   */\n  " ∧
    IsOneComment 1 "\n  /**\n   * Line one\n   *\n   * Line two\n   */\n  " := by
  obtain ⟨block, written, -, once⟩ := comment_block_iff "Line one\n\nLine two" 1 (by decide)
  have same : comment (.text "Line one\n\nLine two") 1 =
      .ok "\n  /**\n   * Line one\n   *\n   * Line two\n   */\n  " := by cbv
  obtain rfl := Except.ok.inj (written.symm.trans same)
  exact ⟨same, once.mpr (by decide)⟩

/-- A description that holds the end of a comment ends its comment: what stands behind it is left to
the code. -/
theorem comment_block_cut_short :
    comment (.text "a */ b") 0 = .ok "\n/**\n * a */ b\n */\n" ∧
    behindComment? "\n * a */ b\n */\n".toList = some " b\n */\n".toList ∧
    ¬IsOneComment 0 "\n/**\n * a */ b\n */\n" := by
  have block : commentBlock "a */ b" 0 = "\n/**\n * a */ b\n */\n" := by cbv
  refine ⟨by cbv, by cbv, ?_⟩
  rw [← block, isOneComment_commentBlock_iff]
  decide

end

end Client

end ClientGen
