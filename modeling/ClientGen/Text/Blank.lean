/-!
# Blank characters and trimming

Texts are trimmed at the characters that the Unicode standard calls white space, to which the
four ASCII separators U+001C to U+001F are added. Trimming works on lists of characters.
-/
namespace ClientGen.Text

def isBlank (c : Char) : Bool :=
  let n := c.toNat
  (0x09 ≤ n && n ≤ 0x0D) || (0x1C ≤ n && n ≤ 0x20) || n == 0x85 || n == 0xA0 || n == 0x1680 ||
    (0x2000 ≤ n && n ≤ 0x200A) || n == 0x2028 || n == 0x2029 || n == 0x202F || n == 0x205F ||
    n == 0x3000

def trimEndBy (p : Char → Bool) (s : List Char) : List Char :=
  (s.reverse.dropWhile p).reverse

/-- Drops the characters at both ends that satisfy `p`. -/
def trimBy (p : Char → Bool) (s : List Char) : List Char :=
  trimEndBy p (s.dropWhile p)

/-- The text without the blanks at its ends. -/
def trim (s : String) : String :=
  String.ofList (trimBy isBlank s.toList)

def trimEnd (s : String) : String :=
  String.ofList (trimEndBy isBlank s.toList)

def trimLineBreaks (s : String) : String :=
  String.ofList (trimBy (· == '\n') s.toList)

end ClientGen.Text
