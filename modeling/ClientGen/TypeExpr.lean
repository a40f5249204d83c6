import ClientGen.Naming

/-!
# Types of the generated code

A type is kept as the text that is printed for it. A compound type (union, intersection, array,
tuple, inline object) also lists its constituents, without repetition and in order of first use;
they say which models the type depends on and are never printed.
-/
namespace ClientGen

structure TypeExpr where
  text : String
  constituents : Option (List String) := none
  deriving DecidableEq, Repr, Inhabited

namespace TypeExpr

def dropNullMarks (s : List Char) : List Char :=
  if "null|".toList <+: s then dropNullMarks (s.drop 5)
  else if "undefined|".toList <+: s then dropNullMarks (s.drop 10)
  else s
termination_by s.length
decreasing_by
  all_goals
    rename_i h
    have := h.length_le
    simp_all
    omega

/-- Drops `Array<` at the start together with `>` at the end, as often as both are there. -/
def dropArrayMarks (s : List Char) : List Char :=
  if "Array<".toList <+: s ∧ s.getLast? = some '>' then
    dropArrayMarks ((s.drop 6).dropLast)
  else s
termination_by s.length
decreasing_by
  rename_i h
  have := h.1.length_le
  simp_all
  omega

/-- Cuts a text at its first bracket, unless it starts with one. -/
def dropBrackets (s : List Char) : List Char :=
  let head := s.takeWhile (· != '[')
  if head.isEmpty then s else head

def withoutNull (s : List Char) : List Char :=
  dropNullMarks (s.filter (· != ' '))

/-- The characters of a type without blanks, null marks and array marks. -/
def withoutWrappers (s : List Char) : List Char :=
  dropBrackets (dropArrayMarks (withoutNull s))

def stripNull (text : String) : String :=
  String.ofList (withoutNull text.toList)

/-- The text of a type without its null marks and array marks. -/
def strip (text : String) : String :=
  String.ofList (withoutWrappers text.toList)

def scalar (text : String) : TypeExpr := ⟨text, none⟩

def isCompound (t : TypeExpr) : Bool := t.constituents.isSome

/-- The constituents of a type, a scalar being its own. -/
def leaves (t : TypeExpr) : List String :=
  t.constituents.getD [t.text]

/-- A list without its repetitions, each item in its first place. -/
def distinct (names : List String) : List String :=
  names.foldl (fun seen name => if name ∈ seen then seen else seen ++ [name]) []

/-- The constituents of several types together. -/
def merge (types : List TypeExpr) : List String :=
  distinct (types.flatMap leaves)

def compound (text : String) (parts : List TypeExpr) : TypeExpr :=
  ⟨text, some (merge parts)⟩

/-- The texts of several types with a separator between each two. -/
def joined (separator : String) (types : List TypeExpr) : String :=
  separator.intercalate (types.map text)

/-- The compound of several types, printed with a separator between each two. -/
def combine (separator : String) (variants : List TypeExpr) : TypeExpr :=
  compound (joined separator variants) variants

def union (variants : List TypeExpr) : TypeExpr := combine " | " variants

def intersection (variants : List TypeExpr) : TypeExpr := combine " & " variants

def arrayOf (item : TypeExpr) : TypeExpr :=
  compound ("Array<" ++ item.text ++ ">") [item]

def nullable (t : TypeExpr) : TypeExpr :=
  ⟨"null | " ++ t.text, t.constituents⟩

def dependencyNames (t : TypeExpr) : List String :=
  t.constituents.getD [strip t.text]

/-- The name behind a type, read with `read`; a compound of none or several constituents has
none of its own. -/
def nameBy (read : String → String) (t : TypeExpr) : String :=
  match t.constituents with
  | some [name] => read name
  | some _ => "object"
  | none => read t.text

def bareName (t : TypeExpr) : String := t.nameBy strip

/-- The single type name behind a type, arrays being left as they are. -/
def nonNullName (t : TypeExpr) : String := t.nameBy stripNull

def nullType : TypeExpr := scalar "null"

def anyType : TypeExpr := scalar "any"

def blobType : TypeExpr := scalar "Blob"

end TypeExpr

end ClientGen
