import ColumnFormula.Measurement

/-!
# Kernels

Functions of the measurements in one row. Each takes its origin (name, rank, counts and
error) from its first argument and changes the quantity alone. A wrong number of
arguments, or a text among them, gives nothing.
-/

namespace ColumnFormula

abbrev Kernel := List Measurement → Option Measurement

namespace Kernel

def unary (f : Float → Float) : Kernel
  | [x] => do
    let x ← x.toReal?
    let value ← x.real?
    some (x.withQuantity (.real (f value)))
  | _ => none

def binary (f : Float → Float → Float) : Kernel
  | [x, y] => do
    let x ← x.toReal?
    let value ← x.real?
    let other ← y.real?
    some (x.withQuantity (.real (f value other)))
  | _ => none

/-- The distance from zero, of the same kind: only the least integer has none and gives a
real. -/
def distance : Scalar → Option Scalar
  | .integer i => if i = Int64.minValue then some (.real (widen i).abs) else some (.integer i.abs)
  | .real x => some (.real x.abs)
  | .text _ => none

def abs : Kernel
  | [x] => (distance x.quantity).map x.withQuantity
  | _ => none

end Kernel

end ColumnFormula
