import ClientGen.Text.CaseTable

/-!
# Upper and lower case

The full case mappings of the Unicode standard, in which one character may become several
(`ß` becomes `SS`). The only rule that looks at more than one character is the one for a capital
sigma, which has a form of its own at the end of a word.
-/
namespace ClientGen.Text

/-- The upper case form of a character. -/
def upperChar (c : Char) : List Char :=
  let n := c.toNat
  if n < 0x80 then [if 0x61 ≤ n && n ≤ 0x7A then Char.ofNat (n - 0x20) else c]
  else match CaseTable.upperExpansions.lookup n with
    | some codes => codes.map Char.ofNat
    | none => [Char.ofNat (shifted CaseTable.upperShifts n)]

/-- The lower case form of a character that stands alone. -/
def lowerChar (c : Char) : List Char :=
  let n := c.toNat
  if n < 0x80 then [if 0x41 ≤ n && n ≤ 0x5A then Char.ofNat (n + 0x20) else c]
  else match CaseTable.lowerExpansions.lookup n with
    | some codes => codes.map Char.ofNat
    | none => [Char.ofNat (shifted CaseTable.lowerShifts n)]

/-- Whether the nearest character that is not looked through is a cased letter. -/
def meetsCased (s : List Char) : Bool :=
  match s.dropWhile (covers CaseTable.caseIgnorable) with
  | [] => false
  | c :: _ => covers CaseTable.cased c

/-- The form of a capital sigma between the characters `before` it (nearest first) and `after`. -/
def lowerSigma (before after : List Char) : Char :=
  if meetsCased before && !meetsCased after then 'ς' else 'σ'

/-- The lower case form of the characters that follow `before` (nearest first). -/
def lowerAfter (before : List Char) : List Char → List Char
  | [] => []
  | c :: rest =>
    (if c = 'Σ' then [lowerSigma before rest] else lowerChar c) ++ lowerAfter (c :: before) rest

def upperChars (s : List Char) : List Char :=
  s.flatMap upperChar

def lowerChars (s : List Char) : List Char :=
  lowerAfter [] s

def upper (s : String) : String :=
  String.ofList (upperChars s.toList)

def lower (s : String) : String :=
  String.ofList (lowerChars s.toList)

def upperFirst (s : String) : String :=
  match s.toList with
  | [] => ""
  | c :: rest => String.ofList (upperChar c ++ rest)

def lowerFirst (s : String) : String :=
  match s.toList with
  | [] => ""
  | c :: rest => String.ofList (lowerChars [c] ++ rest)

end ClientGen.Text
