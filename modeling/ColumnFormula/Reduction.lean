import ColumnFormula.Table

/-!
# Reductions

One number out of a column: the mean, or an extreme with its own error. Absent cells and
texts do not count, and without a number to reduce the result is a NaN.
-/

namespace ColumnFormula

inductive Reduction where
  | mean
  | min
  | max
  deriving DecidableEq, Repr

/-- A number with its error. -/
structure Sample where
  value : Float
  error : Option Float
  deriving DecidableEq

namespace Sample

def none : Sample := ⟨Binary64.nan, .none⟩

def ofMeasurement? (m : Measurement) : Option Sample :=
  m.real?.map fun value => ⟨value, m.realError?⟩

/-- The numbers of a column, in the order of the rows. -/
def ofColumn (column : Column) : List Sample :=
  column.filterMap fun cell => cell.bind ofMeasurement?

/-- The mean of a list of numbers, added from the left. -/
def average (xs : List Float) : Float := xs.foldl (· + ·) (-0.0) / Binary64.ofInt xs.length

def mean (samples : List Sample) : Sample :=
  if samples = [] then none
  else
    let errors := samples.filterMap Sample.error
    ⟨average (samples.map Sample.value), if errors = [] then .none else some (average errors)⟩

/-- The first of the samples, NaNs aside, that no other one beats. -/
def best (beats : Float → Float → Bool) (samples : List Sample) : Sample :=
  match samples.filter (!Binary64.isNaN ·.value) with
  | [] => none
  | s :: rest => rest.foldl (fun best s => if beats s.value best.value then s else best) s

end Sample

namespace Reduction

def name : Reduction → String
  | mean => "Mean"
  | min => "Min"
  | max => "Max"

def ofSamples : Reduction → List Sample → Sample
  | mean, samples => Sample.mean samples
  | min, samples => Sample.best Binary64.less samples
  | max, samples => Sample.best (fun x y => Binary64.less y x) samples

def reduce (r : Reduction) (column : Column) : Sample := r.ofSamples (Sample.ofColumn column)

/-- The reduced number in every row. A row with a number of its own keeps where that came
from; another one gets the name of the column. -/
def spread (r : Reduction) (name : String) (column : Column) : Column :=
  let reduced := r.reduce column
  column.map fun cell =>
    let origin := (cell.bind Measurement.toReal?).getD (.bare name .unknown (.real reduced.value))
    some (origin.withReal reduced.value reduced.error)

end Reduction

end ColumnFormula
