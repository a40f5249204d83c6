/-!
# Folded lines

A scalar may run over several lines. Where it does, the blanks around the break are dropped; a
single break is a space, and of several breaks all but the first are kept. A break can be joined,
and is then no space. Of the characters that break a line the separators of lines and paragraphs
are always kept. Blanks within a line stay, and so do characters that are written as escapes.
-/
namespace ClientGen.Yaml

/-- Whether a character breaks a line: a line feed, or a separator of lines or paragraphs. -/
def isBreak (c : Char) : Bool :=
  c == '\n' || c == '\u2028' || c == '\u2029'

/-- A part of a scalar that runs over lines. -/
inductive Mark where
  | char (c : Char)
  | blank (c : Char)
  | lineBreak (c : Char)
  | joinedBreak
  deriving DecidableEq, Repr

/-- What has been read since the last character. -/
inductive Between where
  /-- Blanks, the last one first. -/
  | blanks (cs : List Char)
  /-- The first break, unless it is joined, and those after it, the last one first. -/
  | breaks (first : Option Char) (more : List Char)
  deriving DecidableEq, Repr

namespace Between

/-- Nothing has been read since the last character. -/
def nothing : Between := .blanks []

/-- Whether nothing has been read since the last character. -/
def isNothing : Between → Bool
  | .blanks cs => cs.isEmpty
  | .breaks _ _ => false

/-- Whether a line has ended since the last character. -/
def endsLine : Between → Bool
  | .blanks _ => false
  | .breaks _ _ => true

/-- One more blank; next to a break it says nothing. -/
def blank (c : Char) : Between → Between
  | .blanks cs => .blanks (c :: cs)
  | b => b

def lineBreak (c : Char) : Between → Between
  | .blanks _ => .breaks (some c) []
  | .breaks first more => .breaks first (c :: more)

/-- The characters that are left of what has been read. -/
def text : Between → List Char
  | .blanks cs => cs.reverse
  | .breaks none more => more.reverse
  | .breaks (some c) more =>
    if c ≠ '\n' then c :: more.reverse
    else if more.isEmpty then [' ']
    else more.reverse

end Between

/-- The characters of a scalar. -/
def fold (between : Between) : List Mark → List Char
  | [] => between.text
  | .char c :: rest => between.text ++ c :: fold .nothing rest
  | .blank c :: rest => fold (between.blank c) rest
  | .lineBreak c :: rest => fold (between.lineBreak c) rest
  | .joinedBreak :: rest => between.text ++ fold (.breaks none []) rest

end ClientGen.Yaml
