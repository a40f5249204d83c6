import ClientGen.Failure
import ClientGen.Yaml.Folding

/-!
# Scalars of a YAML text

Reading a scalar off the characters of a text: quoted, plain, or a block of lines. Each reader
starts at a place of the text and gives the place behind the scalar.
-/
namespace ClientGen.Yaml

/-- The text makes no sense here. -/
def refused {α : Type} (fault : TextFault) : Outcome α :=
  .error (.malformedText fault)

/-- The rest of a text, and where it starts. -/
structure Place where
  rest : List Char
  line : Nat
  column : Nat
  deriving Repr

/-- Whether a text goes on with a blank or a line break, or ends. -/
def isOver : List Char → Bool
  | [] => true
  | c :: _ => c == ' ' || c == '\t' || isBreak c

def isDocumentMark : List Char → Bool
  | '-' :: '-' :: '-' :: rest => isOver rest
  | '.' :: '.' :: '.' :: rest => isOver rest
  | _ => false

/-- The characters that end a scalar, or a part of one, inside brackets. -/
def isFlowMark (c : Char) : Bool :=
  c == ',' || c == '[' || c == ']' || c == '\x7b' || c == '\x7d'

/-! ## Quoted scalars -/

/-- The character that a backslash and one more character stand for. -/
def escape? (c : Char) : Option Char :=
  match c with
  | '0' => some '\x00'
  | 'a' => some '\x07'
  | 'b' => some '\x08'
  | 't' => some '\t'
  | '\t' => some '\t'
  | 'n' => some '\n'
  | 'v' => some '\x0b'
  | 'f' => some '\x0c'
  | 'r' => some '\r'
  | 'e' => some '\x1b'
  | ' ' => some ' '
  | '"' => some '"'
  | '\\' => some '\\'
  | '/' => some '/'
  | 'N' => some '\u0085'
  | '_' => some '\u00a0'
  | 'L' => some '\u2028'
  | 'P' => some '\u2029'
  | _ => none

/-- How many hexadecimal digits an escape has that names a character by its number. -/
def escapeDigits? (c : Char) : Option Nat :=
  match c with
  | 'x' => some 2
  | 'u' => some 4
  | 'U' => some 8
  | _ => none

def hexValue? (c : Char) : Option Nat :=
  if '0' ≤ c && c ≤ '9' then some (c.toNat - '0'.toNat)
  else if 'a' ≤ c && c ≤ 'f' then some (c.toNat - 'a'.toNat + 10)
  else if 'A' ≤ c && c ≤ 'F' then some (c.toNat - 'A'.toNat + 10)
  else none

/-- The greatest number that is looked up among the characters. -/
def greatestCode : Nat := Nat.pow 2 31 - 1

/-- The character of a number, if the number is within the range of characters; a number that is
kept free there gives the replacement character. -/
def charOf (n : Nat) : Outcome Char :=
  if n.isValidChar then .ok (Char.ofNat n)
  else if n < 0x110000 then .ok '\uFFFD'
  else .error (.misuse (if n ≤ greatestCode then .unreadable else .outOfRange))

inductive InQuotes where
  | text
  | escape
  /-- So many digits of an escape are to come, after those that make up a number. -/
  | digits (left number : Nat)
  deriving DecidableEq, Repr

/-- Reads a scalar in double quotes from after the opening quote. -/
def doubleQuoted (state : InQuotes) (line column : Nat) :
    List Char → Outcome (List Mark × Place)
  | [] => refused .yamlToken
  | c :: rest =>
    let go (marks : List Mark) (state : InQuotes) := do
      let (more, place) ← doubleQuoted state line (column + 1) rest
      return (marks ++ more, place)
    let goBelow (mark : Mark) :=
      if isDocumentMark rest then refused .yamlToken
      else do
        let (more, place) ← doubleQuoted .text (line + 1) 0 rest
        return (mark :: more, place)
    match state with
    | .text =>
      if c = '"' then .ok ([], ⟨rest, line, column + 1⟩)
      else if c = '\\' then go [] .escape
      else if c = ' ' || c = '\t' then go [.blank c] .text
      else if isBreak c then goBelow (.lineBreak c)
      else go [.char c] .text
    | .escape =>
      if isBreak c then goBelow .joinedBreak
      else match escapeDigits? c with
        | some n => go [] (.digits n 0)
        | none =>
          match escape? c with
          | some e => go [.char e] .text
          | none => refused .yamlToken
    | .digits left number =>
      match hexValue? c with
      | some d =>
        if left ≤ 1 then do go [.char (← charOf (number * 16 + d))] .text
        else go [] (.digits (left - 1) (number * 16 + d))
      | none => refused .yamlToken

/-- Reads a scalar in single quotes from after the opening quote; a quote written twice is one
quote, and `afterQuote` tells that one has just been read. -/
def singleQuoted (afterQuote : Bool) (line column : Nat) :
    List Char → Outcome (List Mark × Place)
  | [] => if afterQuote then .ok ([], ⟨[], line, column⟩) else refused .yamlToken
  | c :: rest =>
    if c = '\'' then
      if afterQuote then do
        let (more, place) ← singleQuoted false line (column + 1) rest
        return (.char c :: more, place)
      else singleQuoted true line (column + 1) rest
    else if afterQuote then .ok ([], ⟨c :: rest, line, column⟩)
    else if isBreak c then
      if isDocumentMark rest then refused .yamlToken
      else do
        let (more, place) ← singleQuoted false (line + 1) 0 rest
        return (.lineBreak c :: more, place)
    else do
      let (more, place) ← singleQuoted false line (column + 1) rest
      return ((if c = ' ' || c = '\t' then .blank c else .char c) :: more, place)

/-! ## Plain scalars -/

/-- The characters that no plain scalar starts with. -/
def isIndicator (c : Char) : Bool :=
  c ∈ ['-', '?', ':', ',', '[', ']', '\x7b', '\x7d', '#', '&', '*', '!', '|', '>', '\'', '"', '%',
    '@', '\x60']

/-- Whether a plain scalar starts here: with no indicator, or with one of the weaker ones and
something right behind it. -/
def startsPlain (inFlow : Bool) : List Char → Bool
  | [] => false
  | c :: rest =>
    if isIndicator c then
      !isOver rest && (c == '-' || (!inFlow && (c == '?' || c == ':')))
    else !isOver (c :: rest)

def endsPlain (inFlow : Bool) (c : Char) (rest : List Char) : Bool :=
  c == '\t' ||
    (c == ':' && (isOver rest || (inFlow && (rest.head?.map isFlowMark).getD false))) ||
    (inFlow && (isFlowMark c || c == '?'))

/-- Reads a plain scalar, and tells what stands between its last character and the place behind it;
outside brackets its further lines have to reach the column `floor`. The place behind it is that of
the next token, or of a comment. -/
def plainScalar (inFlow : Bool) (floor : Nat) (between : Between) (line column : Nat) :
    List Char → List Char × Between × Place
  | [] => ([], between, ⟨[], line, column⟩)
  | c :: rest =>
    let isNew := !between.isNothing
    if c = ' ' then plainScalar inFlow floor (between.blank c) line (column + 1) rest
    else if isBreak c then
      if isDocumentMark rest then ([], between.lineBreak c, ⟨rest, line + 1, 0⟩)
      else plainScalar inFlow floor (between.lineBreak c) (line + 1) 0 rest
    else if endsPlain inFlow c rest || (isNew && (c == '#' || (!inFlow && column < floor))) then
      ([], between, ⟨c :: rest, line, column⟩)
    else
      let (more, after, place) := plainScalar inFlow floor .nothing line (column + 1) rest
      (between.text ++ c :: more, after, place)

/-! ## Blocks of lines -/

/-- What becomes of the line breaks at the end of a block. -/
inductive Chomping where
  | strip
  | clip
  | keep
  deriving DecidableEq, Repr

structure BlockStyle where
  /-- Whether line breaks between lines are spaces. -/
  folded : Bool
  chomping : Chomping := .clip
  /-- How much deeper than its surroundings the block is, if this is written. -/
  depth : Option Nat := none
  deriving DecidableEq, Repr

/-- Reads the signs after the opening character of a block. -/
def blockStyle (style : BlockStyle) : List Char → Outcome (BlockStyle × List Char)
  | c :: rest =>
    if c = '-' && style.chomping = .clip then blockStyle { style with chomping := .strip } rest
    else if c = '+' && style.chomping = .clip then blockStyle { style with chomping := .keep } rest
    else if '0' ≤ c && c ≤ '9' && style.depth = none then
      if c = '0' then refused .yamlToken
      else blockStyle { style with depth := some (c.toNat - '0'.toNat) } rest
    else .ok (style, c :: rest)
  | [] => .ok (style, [])

/-- The lines of a block, behind the signs: the rest of the line that it starts on has to be blank,
or a comment behind a blank. -/
def blockStart (s : List Char) : Outcome (List Char) :=
  match s, s.dropWhile (· == ' ') with
  | '#' :: _, _ => refused .yamlToken
  | _, [] => .ok []
  | _, c :: rest =>
    if isBreak c then .ok rest
    else if c = '#' then .ok ((rest.dropWhile (!isBreak ·)).drop 1)
    else refused .yamlToken

/-- How deep the first line of a block is that is not blank, or a blank line before it. -/
def blockDepth (column deepest : Nat) : List Char → Nat
  | [] => deepest
  | c :: rest =>
    if c = ' ' then blockDepth (column + 1) (max deepest (column + 1)) rest
    else if isBreak c then blockDepth 0 deepest rest
    else deepest

/-- A line of a block, and the character that ends it, which the last line may lack. -/
structure BlockLine where
  text : List Char
  ending : Option Char
  deriving DecidableEq, Repr

/-- Reads the lines of a block that is so deep; blank lines are empty. -/
def blockLines (depth : Nat) (s : List Char) : List BlockLine × List Char :=
  let margin := (s.takeWhile (· == ' ')).take depth
  match _h : s.drop margin.length with
  | [] => ([], [])
  | c :: rest =>
    if isBreak c then
      let (lines, after) := blockLines depth rest
      (⟨[], some c⟩ :: lines, after)
    else if margin.length < depth then ([], s)
    else
      let text := rest.takeWhile (!isBreak ·)
      match _h' : rest.dropWhile (!isBreak ·) with
      | [] => ([⟨c :: text, none⟩], [])
      | ending :: below =>
        let (lines, after) := blockLines depth below
        (⟨c :: text, some ending⟩ :: lines, after)
termination_by s.length
decreasing_by
  · have hlen := congrArg List.length _h
    simp only [List.length_drop, List.length_cons] at hlen
    omega
  · have hlen := congrArg List.length _h
    have hlen' := congrArg List.length _h'
    have hle := (List.dropWhile_sublist (l := rest) (!isBreak ·)).length_le
    simp only [List.length_drop, List.length_cons] at hlen hlen'
    omega

def startsBlank (text : List Char) : Bool :=
  match text with
  | c :: _ => c == ' ' || c == '\t'
  | [] => false

/-- The text of a block from its lines: `last` is the line before, if there is one, and `empty`
holds the breaks of the blank lines after it, the last one first. -/
def blockText (style : BlockStyle) (last : Option BlockLine) (empty : List Char) :
    List BlockLine → List Char
  | [] =>
    let ended := (last.bind (·.ending)).toList
    match style.chomping with
    | .strip => []
    | .clip => ended
    | .keep => ended ++ empty.reverse
  | line :: rest =>
    if line.text.isEmpty then blockText style last (line.ending.toList ++ empty) rest
    else
      let before := match last with
        | none => empty.reverse
        | some above =>
          if style.folded && above.ending == some '\n' && !startsBlank above.text &&
              !startsBlank line.text then
            if empty.isEmpty then [' '] else empty.reverse
          else above.ending.toList ++ empty.reverse
      before ++ line.text ++ blockText style (some line) [] rest

/-- Reads a block from after its opening character; its lines have to reach the column `floor`. -/
def block (folded : Bool) (floor line : Nat) (s : List Char) :
    Outcome (String × Place) := do
  let (style, s) ← blockStyle ⟨folded, .clip, none⟩ s
  let s ← blockStart s
  let least := max floor 1
  let depth := match style.depth with
    | some n => least + n - 1
    | none => max least (blockDepth 0 0 s)
  let (lines, rest) := blockLines depth s
  return (String.ofList (blockText style none [] lines), ⟨rest, line + lines.length + 1, 0⟩)

end ClientGen.Yaml
