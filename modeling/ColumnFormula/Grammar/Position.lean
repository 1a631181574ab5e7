/-!
# Positions

A place in a text, by line and column. Both count from one; columns count characters.
-/

namespace ColumnFormula

structure Position where
  line : Nat
  column : Nat
  deriving DecidableEq, Repr

namespace Position

def start : Position := ⟨1, 1⟩

instance : Inhabited Position := ⟨start⟩

/-- The place after a number of characters on the same line. -/
def right (p : Position) (count : Nat) : Position := ⟨p.line, p.column + count⟩

/-- The place after a line break. -/
def down (p : Position) : Position := ⟨p.line + 1, 1⟩

def toText (p : Position) : String := s!"line {p.line}, column {p.column}"

end Position

end ColumnFormula
