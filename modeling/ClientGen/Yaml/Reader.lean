import ClientGen.Yaml.Node
import ClientGen.Yaml.Token

/-!
# Reading YAML

A YAML text is read as one node. The tokens tell where the lists and mappings start and end, so that
a node is read by descent; a node that is missing is empty. An alias stands for the node that its
anchor was put before, which has to have ended. Of the faults of a text the one that comes first
counts: a token that makes no sense is no fault before it is looked at. This is the reader that the
program is run with; what is proved of runs holds for any other as well.
-/
namespace ClientGen.Yaml

/-- The tokens that are left, and the anchors before them, with their nodes as far as these have
ended. -/
structure Cursor where
  tokens : List Token
  anchors : List (String × Option Node) := []

abbrev Reading := StateT Cursor (Except Failure)

inductive Position where
  /-- Inside brackets, where all lists and mappings have brackets. -/
  | inBrackets
  /-- Behind a dash, or at the start of the document. -/
  | item
  /-- Behind a key or a colon. A list may stand in the column of the mapping here. -/
  | entry
  deriving DecidableEq, Repr

namespace Reading

/-- The tokens make no sense here. -/
def refuse {α : Type} (fault : TextFault) : Reading α :=
  throw (.malformedText fault)

def peek : Reading Token := do
  match (← get).tokens with
  | [] => return .textEnd
  | .broken failure :: _ => throw failure
  | token :: _ => return token

/-- Goes past a token. -/
def advance : Reading Unit :=
  modify fun c => { c with tokens := c.tokens.tail }

/-- Remembers a new anchor, whose node is to come. -/
def newAnchor (name : String) : Reading Unit := do
  let c ← get
  if (c.anchors.lookup name).isSome then refuse .yamlComposition
  set { c with anchors := (name, none) :: c.anchors }

def anchored (name : String) (node : Node) : Reading Unit :=
  modify fun c => { c with anchors := (name, some node) :: c.anchors }

def aliased (name : String) : Reading Node := do
  match (← get).anchors.lookup name with
  | some (some node) => return node
  | _ => refuse .yamlComposition

/-- Goes to the next item inside brackets, past the comma behind the item before. If there is none,
goes past the closing bracket. -/
def nextItem (isFirst : Bool) (closing : Token) : Reading Bool := do
  if (← peek) = closing then
    advance
    return false
  if isFirst then return true
  if (← peek) ≠ .comma then refuse .yamlStructure
  advance
  if (← peek) = closing then
    advance
    return false
  return true

end Reading

open Reading

mutual

/-- Reads a node. The first argument of this and the following functions bounds how many of them
are nested in one another. -/
def node (fuel : Nat) (position : Position) : Reading Node := do
  match fuel with
  | 0 => refuse .yamlStructure
  | fuel + 1 =>
    match ← peek with
    | .aliasOf name =>
      advance
      aliased name
    | .anchor name =>
      advance
      let _ ← peek
      newAnchor name
      let node := (← content? fuel position).getD .empty
      anchored name node
      return node
    | _ =>
      match ← content? fuel position with
      | some node => return node
      | none => refuse .yamlStructure

/-- Reads a node without an anchor, if one starts here. -/
def content? (fuel : Nat) (position : Position) : Reading (Option Node) := do
  match fuel with
  | 0 => refuse .yamlStructure
  | fuel + 1 =>
    match ← peek with
    | .plain text =>
      advance
      return some (.plain text)
    | .quoted text =>
      advance
      return some (.quoted text)
    | .openList =>
      advance
      return some (.sequence (← flowItems fuel true))
    | .openMapping =>
      advance
      return some (.mapping (← flowEntries fuel true))
    | .listStart =>
      if position = .inBrackets then return none
      advance
      return some (.sequence (← items fuel))
    | .mappingStart =>
      if position = .inBrackets then return none
      advance
      return some (.mapping (← entries fuel))
    | .dash => if position = .entry then return some (.sequence (← bareItems fuel)) else return none
    | _ => return none

def nodeUnless (fuel : Nat) (ends : List Token) (position : Position) : Reading Node := do
  match fuel with
  | 0 => refuse .yamlStructure
  | fuel + 1 => if (← peek) ∈ ends then return .empty else node fuel position

def items (fuel : Nat) : Reading (List Node) := do
  match fuel with
  | 0 => refuse .yamlStructure
  | fuel + 1 =>
    match ← peek with
    | .dash =>
      advance
      let item ← nodeUnless fuel [.dash, .blockEnd] .item
      return item :: (← items fuel)
    | .blockEnd =>
      advance
      return []
    | _ => refuse .yamlStructure

/-- Reads the items of a list in the column of the mapping that it belongs to. -/
def bareItems (fuel : Nat) : Reading (List Node) := do
  match fuel with
  | 0 => refuse .yamlStructure
  | fuel + 1 =>
    match ← peek with
    | .dash =>
      advance
      let item ← nodeUnless fuel [.dash, .key, .colon, .blockEnd] .item
      return item :: (← bareItems fuel)
    | _ => return []

/-- Reads the entries of a mapping, up to its end. -/
def entries (fuel : Nat) : Reading (List (Node × Node)) := do
  match fuel with
  | 0 => refuse .yamlStructure
  | fuel + 1 =>
    match ← peek with
    | .key =>
      advance
      let pair ← entry fuel [.key, .colon, .blockEnd] [.key, .colon, .blockEnd] .entry
      return pair :: (← entries fuel)
    | .blockEnd =>
      advance
      return []
    | _ => refuse .yamlStructure

/-- Reads a key, and its value behind a colon; both may be missing, and so may the colon. -/
def entry (fuel : Nat) (endsKey endsValue : List Token) (position : Position) :
    Reading (Node × Node) := do
  match fuel with
  | 0 => refuse .yamlStructure
  | fuel + 1 =>
    let key ← nodeUnless fuel endsKey position
    if (← peek) = .colon then
      advance
      return (key, ← nodeUnless fuel endsValue position)
    else return (key, .empty)

/-- Reads the items of a list in brackets, up to the closing one. A key with its value is a mapping
by itself. -/
def flowItems (fuel : Nat) (isFirst : Bool) : Reading (List Node) := do
  match fuel with
  | 0 => refuse .yamlStructure
  | fuel + 1 =>
    if (← nextItem isFirst .closeList) then
      let item ←
        if (← peek) = .key then
          advance
          let pair ← entry fuel [.colon, .comma, .closeList] [.comma, .closeList] .inBrackets
          pure (.mapping [pair])
        else node fuel .inBrackets
      return item :: (← flowItems fuel false)
    else return []

/-- Reads the entries of a mapping in braces, up to the closing one. A node that is announced by
nothing is a key without a value. -/
def flowEntries (fuel : Nat) (isFirst : Bool) : Reading (List (Node × Node)) := do
  match fuel with
  | 0 => refuse .yamlStructure
  | fuel + 1 =>
    if (← nextItem isFirst .closeMapping) then
      let pair ←
        if (← peek) = .key then
          advance
          entry fuel [.colon, .comma, .closeMapping] [.comma, .closeMapping] .inBrackets
        else pure (← node fuel .inBrackets, .empty)
      return pair :: (← flowEntries fuel false)
    else return []

end

/-- Reads past the marks that end a document, to the end of the text. -/
def atTextEnd (fuel : Nat) : Reading Unit := do
  match fuel with
  | 0 => refuse .yamlStructure
  | fuel + 1 =>
    match ← peek with
    | .documentEnd =>
      advance
      atTextEnd fuel
    | .textEnd => return ()
    | .documentStart => refuse .yamlComposition
    | _ => refuse .yamlStructure

/-- Reads the document of a text, which is missing if the text is empty. -/
def document (fuel : Nat) : Reading Node := do
  let root ←
    match ← peek with
    | .textEnd => pure .empty
    | .documentStart =>
      advance
      nodeUnless fuel [.documentStart, .documentEnd, .textEnd] .item
    | _ => node fuel .item
  atTextEnd fuel
  return root

/-- The node that tokens stand for. Each of the functions that read it takes a token or is the next
of the few that look at the same one, so that a multiple of the number is fuel enough. -/
def Node.ofTokens (tokens : List Token) : Outcome Node :=
  (document (8 * tokens.length + 8)).run' { tokens }

def isAllowed (c : Char) : Bool :=
  let n := c.toNat
  c == '\t' || c == '\n' || c == '\r' || (0x20 ≤ n && n ≤ 0x7E) || n == 0x85 ||
    (0xA0 ≤ n && n ≤ 0xD7FF) || (0xE000 ≤ n && n ≤ 0xFFFD) || 0x10000 ≤ n

/-- Reads a text with line feeds as a node; the character for the next line is a line feed, too. A
mark of byte order at the start says nothing. -/
def Node.parse (s : List Char) : Outcome Node :=
  if s.all isAllowed then
    let s := if s.head? = some '\uFEFF' then s.drop 1 else s
    Node.ofTokens (Token.ofText (s.map fun c => if c = '\u0085' then '\n' else c))
  else refused .yamlCharacter

end ClientGen.Yaml
