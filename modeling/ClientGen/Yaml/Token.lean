import ClientGen.Yaml.Text

/-!
# Tokens of a YAML text

A YAML text is a sequence of tokens: scalars, anchors and aliases, brackets, and signs. Outside
brackets the columns at which tokens start tell what belongs to what, and there are tokens that say
this: a list or a mapping starts where a token stands deeper than all that has not ended, and ends
before the first token that is less deep. What stands before a colon on its line is a key, but its
first token does not show that: it waits until the colon is found or cannot come any more, and the
tokens behind it wait, too. A text that makes no sense has the tokens that do not wait, and a last
one that tells the fault. Tags and directives are not read.
-/
namespace ClientGen.Yaml

inductive Token where
  | plain (text : String)
  /-- A scalar in quotes, or a block of lines. -/
  | quoted (text : String)
  | anchor (name : String)
  | aliasOf (name : String)
  | openList
  | closeList
  | openMapping
  | closeMapping
  | comma
  /-- The sign before the item of a list outside brackets. -/
  | dash
  /-- A key follows. -/
  | key
  | colon
  /-- A list outside brackets starts. -/
  | listStart
  /-- A mapping outside brackets starts. -/
  | mappingStart
  /-- A list or a mapping outside brackets ends. -/
  | blockEnd
  | documentStart
  | documentEnd
  | textEnd
  /-- The text makes no sense from here on. -/
  | broken (failure : Failure)
  deriving DecidableEq, Repr

structure Waiting where
  /-- How many tokens there are before it. -/
  number : Nat
  /-- Whether it stands in the column of a mapping, where nothing but a key can be. -/
  required : Bool
  line : Nat
  column : Nat
  deriving DecidableEq, Repr

/-- How far behind the start of a key its colon may stand. -/
def keyLimit : Nat := 1024

/-- Whether a token waits in vain: a colon in this column of this line would be too far from it. -/
def Waiting.isOver (w : Waiting) (line column : Nat) : Bool :=
  w.line != line || w.column + keyLimit < column

/-- A place in a text, and what is known about the tokens before it. -/
structure Scan extends Place where
  /-- The columns of the lists and mappings outside brackets that have not ended, the last one
  first. -/
  columns : List Nat := []
  /-- The token that waits at this depth of brackets. -/
  waiting : Option Waiting := none
  /-- The tokens that wait outside each of the brackets that are open, the innermost first. -/
  outside : List (Option Waiting) := []
  /-- Whether a key may start here, and outside brackets a list or a mapping. -/
  opens : Bool := true
  /-- How many tokens there are before those of the queue. -/
  settled : Nat := 0
  /-- The tokens that wait, or stand behind one that waits. -/
  queue : List Token := []

namespace Scan

/-- Whether the place is inside brackets. -/
def inFlow (s : Scan) : Bool := !s.outside.isEmpty

/-- The first column that is deeper than all that has not ended. -/
def floor (s : Scan) : Nat :=
  match s.columns with
  | [] => 0
  | column :: _ => column + 1

/-- How many tokens of the queue do not wait: those before the outermost that waits. -/
def ready (s : Scan) : Nat :=
  match ((s.waiting :: s.outside).filterMap id).getLast? with
  | some w => w.number - s.settled
  | none => s.queue.length

end Scan

/-- Reads a part of a text. -/
abbrev Scanning := StateT Scan (Except Failure)

namespace Scanning

/-- The text makes no sense here. -/
def refuse {α : Type} : Scanning α :=
  throw (.malformedText .yamlToken)

/-- Goes past so many characters of a line. -/
def skip (n : Nat) : Scanning Unit :=
  modify fun s => { s with rest := s.rest.drop n, column := s.column + n }

def put (token : Token) : Scanning Unit :=
  modify fun s => { s with queue := s.queue ++ [token] }

/-- Says whether a key may start at the next token. -/
def setOpens (opens : Bool) : Scanning Unit :=
  modify ({ · with opens })

/-- The place of the next token: behind spaces, line breaks and comments. -/
def afterGap (inComment : Bool) (line column : Nat) : List Char → Place
  | [] => ⟨[], line, column⟩
  | c :: rest =>
    if isBreak c then afterGap false (line + 1) 0 rest
    else if inComment || c = ' ' then afterGap inComment line (column + 1) rest
    else if c = '#' then afterGap true line (column + 1) rest
    else ⟨c :: rest, line, column⟩

/-- Goes to the next token; outside brackets a key may start on a new line. -/
def gap : Scanning Unit :=
  modify fun s =>
    let place := afterGap false s.line s.column s.rest
    { s with toPlace := place, opens := s.opens || (!s.inFlow && place.line != s.line) }

/-! ## Keys -/

/-- No token waits at this depth of brackets any more, since no colon can follow. -/
def giveUp : Scanning Unit := do
  if (← get).waiting.any (·.required) then refuse
  modify ({ · with waiting := none })

/-- The tokens that wait in vain at this place wait no more. -/
def giveUpFar : Scanning Unit := do
  let s ← get
  let isOver (w : Waiting) := w.isOver s.line s.column
  let kept (waiting : Option Waiting) := waiting.filter (!isOver ·)
  if (s.waiting :: s.outside).any (·.any fun w => w.required && isOver w) then refuse
  set { s with waiting := kept s.waiting, outside := s.outside.map kept }

/-- The next token waits, if a key may start here. -/
def await : Scanning Unit := do
  if (← get).opens then
    giveUp
    modify fun s =>
      let required := !s.inFlow && s.columns.head? == some s.column
      { s with waiting := some ⟨s.settled + s.queue.length, required, s.line, s.column⟩ }

/-! ## Columns -/

/-- A list or a mapping starts in a column, if this is deep enough; the token that says so takes a
place in the queue. -/
def enter (start : Token) (column index : Nat) : Scanning Unit :=
  modify fun s =>
    if s.floor ≤ column then
      { s with columns := column :: s.columns, queue := s.queue.insertIdx index start }
    else s

/-- A list or a mapping starts here, if the place is deep enough; this has to be where a key may
start. -/
def enterHere (start : Token) : Scanning Unit := do
  let s ← get
  unless s.inFlow do
    unless s.opens do refuse
    enter start s.column s.queue.length

/-- The lists and mappings end that are deep enough to; inside brackets none does. -/
def leave (ends : Nat → Bool) : Scanning Unit :=
  modify fun s =>
    if s.inFlow then s
    else
      let ended := s.columns.takeWhile ends
      { s with
        columns := s.columns.drop ended.length
        queue := s.queue ++ List.replicate ended.length .blockEnd }

/-! ## Signs -/

def textEnd : Scanning Unit := do
  leave fun _ => true
  giveUp
  modify ({ · with outside := [] })
  put .textEnd

def documentMark (token : Token) : Scanning Unit := do
  leave fun _ => true
  giveUp
  setOpens false
  put token
  skip 3

def openBracket (token : Token) : Scanning Unit := do
  await
  put token
  modify fun s => { s with outside := s.waiting :: s.outside, waiting := none }
  setOpens true
  skip 1

def closeBracket (token : Token) : Scanning Unit := do
  giveUp
  modify fun s => { s with waiting := s.outside.head?.join, outside := s.outside.tail }
  setOpens false
  put token
  skip 1

/-- Reads the comma behind an item inside brackets. -/
def comma : Scanning Unit := do
  giveUp
  setOpens true
  put .comma
  skip 1

def dash : Scanning Unit := do
  enterHere .listStart
  giveUp
  setOpens true
  put .dash
  skip 1

def questionMark : Scanning Unit := do
  enterHere .mappingStart
  giveUp
  setOpens (!(← get).inFlow)
  put .key
  skip 1

/-- Reads the colon behind a key. If a token waits, it turns out to be the start of the key. -/
def colon : Scanning Unit := do
  let s ← get
  match s.waiting with
  | some w =>
    let index := w.number - s.settled
    set { s with waiting := none, opens := false, queue := s.queue.insertIdx index .key }
    unless s.inFlow do enter .mappingStart w.column index
  | none =>
    enterHere .mappingStart
    setOpens (!s.inFlow)
  put .colon
  skip 1

/-! ## Names and scalars -/

def isAnchorChar (c : Char) : Bool :=
  c.isAlphanum || c == '-' || c == '_'

def endsAnchor : List Char → Bool
  | [] => true
  | c :: rest => isOver (c :: rest) || ['?', ':', ',', ']', '\x7d', '%', '@', '\x60'].contains c

/-- Reads an anchor or an alias: a sign and a name. -/
def named (token : String → Token) : Scanning Unit := do
  await
  setOpens false
  skip 1
  let name := (← get).rest.takeWhile isAnchorChar
  skip name.length
  unless !name.isEmpty && endsAnchor (← get).rest do refuse
  put (token (String.ofList name))

def blockOfLines (folded : Bool) : Scanning Unit := do
  giveUp
  setOpens true
  skip 1
  let s ← get
  let (text, place) ← block folded s.floor s.line s.rest
  modify ({ · with toPlace := place })
  put (.quoted text)

def inQuotes (read : (line column : Nat) → List Char → Outcome (List Mark × Place)) :
    Scanning Unit := do
  await
  setOpens false
  skip 1
  let s ← get
  let (marks, place) ← read s.line s.column s.rest
  modify ({ · with toPlace := place })
  put (.quoted (String.ofList (fold .nothing marks)))

/-- Reads a plain scalar; a key may start behind it if its line has ended. -/
def plain : Scanning Unit := do
  await
  let s ← get
  let (text, after, place) := plainScalar s.inFlow s.floor .nothing s.line s.column s.rest
  modify ({ · with toPlace := place })
  setOpens after.endsLine
  put (.plain (String.ofList text))

/-- Reads the token that starts here. -/
def token : Scanning Unit := do
  let s ← get
  match s.rest with
  | [] => textEnd
  | c :: rest =>
    if s.column == 0 && isDocumentMark s.rest then
      documentMark (if c = '-' then .documentStart else .documentEnd)
    else if c = '-' && isOver rest then dash
    else if c = '?' && (s.inFlow || isOver rest) then questionMark
    else if c = ':' && (s.inFlow || isOver rest) then colon
    else if startsPlain s.inFlow s.rest then plain
    else match c with
      | '[' => openBracket .openList
      | '\x7b' => openBracket .openMapping
      | ']' => closeBracket .closeList
      | '\x7d' => closeBracket .closeMapping
      | ',' => comma
      | '&' => named .anchor
      | '*' => named .aliasOf
      | '"' => inQuotes (doubleQuoted .text)
      | '\'' => inQuotes (singleQuoted false)
      | '|' => if s.inFlow then refuse else blockOfLines false
      | '>' => if s.inFlow then refuse else blockOfLines true
      | '!' => throw (.malformedText .yamlValue)
      | _ => refuse

/-- Goes to the next token, ends what ends before it, and reads it. -/
def next : Scanning Unit := do
  gap
  giveUpFar
  let s ← get
  leave (s.column < ·)
  token
  giveUpFar

end Scanning

/-- The tokens from a state on. Each of so many steps reads a token and lets those go that do not
wait. -/
def Scan.tokens (s : Scan) : Nat → List Token
  | 0 => [.broken (.malformedText .yamlToken)]
  | steps + 1 =>
    match Scanning.next.run s with
    | .error failure => [.broken failure]
    | .ok ((), s) =>
      let settled := s.queue.take s.ready
      if settled.getLast? = some .textEnd then settled
      else
        let s := { s with settled := s.settled + settled.length, queue := s.queue.drop s.ready }
        settled ++ s.tokens steps

/-- The tokens of a text. Each but the last one takes a character, at least. -/
def Token.ofText (text : List Char) : List Token :=
  Scan.tokens { rest := text, line := 0, column := 0 } (text.length + 1)

end ClientGen.Yaml
