import ColumnFormula.Number.Numeral

/-!
# Ranks

Which of the parallel processes a measurement is of: one process by its number, or a
summary over several. Each summary also has a negative number of its own.
-/

namespace ColumnFormula

inductive Rank where
  | process (number : Int64)
  | all
  | any
  | average
  | maximum
  | minimum
  | unknown
  deriving DecidableEq

namespace Rank

def toInt64 : Rank → Int64
  | process number => number
  | all => -1
  | any => -2
  | average => -3
  | maximum => -4
  | minimum => -5
  | unknown => -6

def ofInt64 (i : Int64) : Rank :=
  if 0 ≤ i then process i
  else if i = -1 then all
  else if i = -2 then any
  else if i = -3 then average
  else if i = -4 then maximum
  else if i = -5 then minimum
  else unknown

/-- Single processes stand before all summaries. -/
def place : Rank → Nat
  | process _ => 0
  | all => 1
  | any => 2
  | average => 3
  | maximum => 4
  | minimum => 5
  | unknown => 6

def order (r s : Rank) : Ordering :=
  (compare r.place s.place).then (compare r.toInt64.toInt s.toInt64.toInt)

def sort (rs : List Rank) : List Rank := rs.mergeSort fun r s => (r.order s).isLE

def toText : Rank → String
  | process number => String.ofList (Numeral.ofInt number.toInt)
  | all => "All Ranks"
  | any => "Any Rank"
  | average => "Rank Average"
  | maximum => "Rank Maximum"
  | minimum => "Rank Minimum"
  | unknown => "Unknown"

end Rank

end ColumnFormula
