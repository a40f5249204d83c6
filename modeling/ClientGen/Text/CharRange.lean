/-!
# Ranges of characters

Character classes and case mappings of the Unicode standard are kept as tables of ranges of
code points. This module says how such a table is read.
-/
namespace ClientGen.Text

/-- Whether a table of inclusive code point ranges covers a character. -/
def covers (table : List (Nat × Nat)) (c : Char) : Bool :=
  table.any fun (first, last) => first ≤ c.toNat && c.toNat ≤ last

/-- Code points `first`, `first + step`, … up to `last`, each mapped `offset` further on. -/
structure Shift where
  first : Nat
  last : Nat
  step : Nat
  offset : Int

def Shift.applies (s : Shift) (code : Nat) : Bool :=
  s.first ≤ code && code ≤ s.last && (code - s.first) % s.step == 0

/-- The code point that a table of shifts gives for `code`, or `code` itself outside the table. -/
def shifted (table : List Shift) (code : Nat) : Nat :=
  match table.find? (·.applies code) with
  | some s => (code + s.offset).toNat
  | none => code

end ClientGen.Text
