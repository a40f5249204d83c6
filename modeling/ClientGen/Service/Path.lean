import ClientGen.Service.Parameter

/-!
# Paths

A path is text with placeholders `\x7bname\x7d`. It is written as a template in which each
placeholder gives way to the encoded parameter of that name, or to the name itself when no
parameter has it.
-/
namespace ClientGen.Path

/-- A part of a path: a character as it is, or a placeholder. -/
inductive Part where
  | char (c : Char)
  | placeholder (name : List Char)
  deriving DecidableEq, Repr

/-- The parts of a path. A placeholder is an opening brace, a name without closing braces that is
not empty, and a closing brace; the leftmost placeholders count. -/
def parts (s : List Char) : List Part :=
  match s with
  | [] => []
  | c :: rest =>
    let name := rest.takeWhile (· != '\x7d')
    match _h : rest.dropWhile (· != '\x7d') with
    | _ :: after =>
      if c = '\x7b' ∧ name ≠ [] then .placeholder name :: parts after
      else .char c :: parts rest
    | [] => .char c :: parts rest
termination_by s.length
decreasing_by
  · have := (@List.dropWhile_sublist _ rest (· != '\x7d')).length_le
    simp only [_h, List.length_cons] at this ⊢
    omega
  · simp
  · simp

def identifierFor (parameters : List Parameter) (name : String) : String :=
  match parameters.reverse.find? (·.name == .text name) with
  | some p => p.identifier
  | none => name

def partText (parameters : List Parameter) (inContainer : Bool) : Part → List Char
  | .char c => [c]
  | .placeholder name =>
    let identifier := identifierFor parameters (String.ofList name)
    ("$\x7bencodeURIComponent(" ++ Parameter.scope inContainer ++ identifier ++ ")\x7d").toList

def template (parameters : List Parameter) (inContainer : Bool) (path : String) : String :=
  String.ofList ((parts path.toList).flatMap (partText parameters inContainer))

/-- Whether a value can be looked up by: lists and objects cannot. -/
def isKey : Value → Bool
  | .scalar _ => true
  | _ => false

/-- The template of a path as the document gives it; a path that is not set is empty. -/
def expression (parameters : List Parameter) (inContainer : Bool) (path : Scalar) :
    Outcome String :=
  if parameters.all (isKey ·.name) then
    match path with
    | .text s => .ok (template parameters inContainer s)
    | s => if (Value.scalar s).isSet then unsuitableKind else .ok ""
  else unsuitableKind

end ClientGen.Path
