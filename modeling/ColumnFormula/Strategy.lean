import ColumnFormula.EvaluationError
import ColumnFormula.Kernel
import ColumnFormula.Reduction

/-!
# Strategies

How a function makes a column out of the columns of its arguments. The arguments come row
by row, as the lists of their cells. Given a number of arguments that it cannot use, a
strategy leaves every cell absent.
-/

namespace ColumnFormula

inductive Strategy where
  | perRow (kernel : Kernel)
  | aggregate (reduction : Reduction)
  | lookup
  | conditional
  | coalesce

namespace Strategy

def toText : Strategy → String
  | perRow _ => "PerRow"
  | aggregate reduction => "Aggregate(" ++ reduction.name ++ ")"
  | lookup => "Lookup"
  | conditional => "Conditional"
  | coalesce => "Coalesce"

/-- All the cells, if none is absent. -/
def present? : List (Option Measurement) → Option (List Measurement)
  | [] => some []
  | none :: _ => none
  | some m :: cells => (present? cells).map (m :: ·)

def applyKernel (kernel : Kernel) (cells : List (Option Measurement)) : Option Measurement :=
  (present? cells).bind kernel

/-- Whether a row's second and third cells agree. -/
def hits : List (Option Measurement) → Bool
  | [_, some p, some c] => p.quantity.agrees c.quantity
  | _ => false

/-- The first cell of the first row that hits, over the reals. -/
def found? (rows : List (List (Option Measurement))) : Option (Option Measurement) :=
  (rows.find? hits).map fun cells => cells.head?.join.bind Measurement.toReal?

/-- One if both cells are there and agree, zero if they do not agree. -/
def flag : List (Option Measurement) → Option Measurement
  | [some l, some r] =>
    some (l.withReal (if l.quantity.agrees r.quantity then 1.0 else 0.0) (some 0.0))
  | _ => none

/-- The first of two cells that is there. -/
def either : List (Option Measurement) → Option Measurement
  | [some l, _] => some l
  | [none, r] => r
  | _ => none

/-- The column of a formula printed as `formula`, from the cells of its arguments, whose
columns are `names`. -/
def column (s : Strategy) (formula : String) (names : List String)
    (rows : List (List (Option Measurement))) : Except EvaluationError Column :=
  match s, names with
  | perRow kernel, _ => .ok (rows.map (applyKernel kernel))
  | aggregate reduction, [name] =>
    .ok (reduction.spread name (rows.map fun cells => cells.head?.join))
  | lookup, [_, property, value] =>
    match rows, found? rows with
    | [], _ => .ok []
    | _, some cell => .ok (rows.map fun _ => cell)
    | _, none => .error (.noMatchingRow property value formula)
  | conditional, [_, _] => .ok (rows.map flag)
  | coalesce, [_, _] => .ok (rows.map either)
  | _, _ => .ok (rows.map fun _ => none)

end Strategy

end ColumnFormula
