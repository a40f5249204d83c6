import ClientGen.Client.Template
import ClientGen.Text.LineBreak

/-!
# Placeholders

In a plain template a name between double braces stands for one of the names that all files share.
This is the template engine that the program is run with. What is proved of generated files holds
for any other as well.
-/
namespace ClientGen.Client

inductive Slot where
  | char (c : Char)
  | name (name : String)
  deriving DecidableEq, Repr

/-- The parts of a template; `pending` holds the characters of a name that has been opened. -/
def slots (pending : Option (List Char)) : List Char → List Slot
  | [] => match pending with
    | some name => ['\x7b', '\x7b'].map .char ++ name.reverse.map .char
    | none => []
  | [c] => match pending with
    | some name => ['\x7b', '\x7b'].map .char ++ (c :: name).reverse.map .char
    | none => [.char c]
  | c :: d :: rest => match pending with
    | none =>
      if c = '\x7b' ∧ d = '\x7b' then slots (some []) rest else .char c :: slots none (d :: rest)
    | some name =>
      if c = '\x7d' ∧ d = '\x7d' then
        .name (String.ofList (Text.trimBy Text.isBlank name.reverse)) :: slots none rest
      else slots (some (c :: name)) (d :: rest)

def slotText (bindings : List (String × String)) : Slot → Outcome (List Char)
  | .char c => .ok [c]
  | .name name =>
    match bindings.lookup name with
    | some text => .ok text.toList
    | none => .error (.unknownName name)

/-- The engine that puts texts in the place of names. -/
def TemplateEngine.placeholders : TemplateEngine where
  fill _ g _ template := do
    let parts ← (slots none (Text.unifyLineBreaks template.toList)).mapM (slotText g.bindings)
    return String.ofList parts.flatten

end ClientGen.Client
