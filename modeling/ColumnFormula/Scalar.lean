import ColumnFormula.Kind
import ColumnFormula.Number.Numeral

/-!
# Scalars

What a cell of a table holds: a whole number of 64 bits, a real or a text. Two comparisons
differ on purpose. `agrees` is the test of the formula language: numbers agree by
magnitude whatever their kind, and a NaN agrees with nothing. `same` is identity, for
which all NaNs are one value; `order` sorts by it.
-/

namespace ColumnFormula

inductive Scalar where
  | integer (value : Int64)
  | real (value : Float)
  | text (value : String)
  deriving DecidableEq

/-- The real nearest to an integer. -/
def widen (i : Int64) : Float := Binary64.ofInt i.toInt

/-- The real equal to an integer, within the range where every integer is a double. -/
def widenExact? (i : Int64) : Option Float :=
  if i.toInt.natAbs < Binary64.wholes then some (widen i) else none

namespace Scalar

instance : Inhabited Scalar := ⟨integer 0⟩

def kind : Scalar → Kind
  | integer _ => .integer
  | real _ => .real
  | text _ => .text

def toReal? : Scalar → Option Float
  | integer i => some (widen i)
  | real x => some x
  | text _ => none

/-- Agreement by magnitude. An integer that a real could not tell from its neighbours
agrees with no real. -/
def agrees : Scalar → Scalar → Bool
  | integer i, integer j => i == j
  | real x, real y => Binary64.equals x y
  | integer i, real x | real x, integer i =>
    match widenExact? i with
    | some w => Binary64.equals w x
    | none => false
  | text s, text t => s == t
  | _, _ => false

def same : Scalar → Scalar → Bool
  | integer i, integer j => i == j
  | real x, real y => Binary64.same x y
  | text s, text t => s == t
  | _, _ => false

/-- Integers come before reals and reals before texts. -/
def order : Scalar → Scalar → Ordering
  | integer i, integer j => compare i.toInt j.toInt
  | real x, real y => Binary64.order x y
  | text s, text t => compare s t
  | integer _, _ => .lt
  | _, integer _ => .gt
  | real _, text _ => .lt
  | text _, real _ => .gt

/-- The scalars in order, equal ones as they came. -/
def sort (xs : List Scalar) : List Scalar := xs.mergeSort fun a b => (a.order b).isLE

def toText : Scalar → String
  | integer i => String.ofList (Numeral.ofInt i.toInt)
  | real x => String.ofList (Numeral.ofReal x)
  | text s => s

/-- The column that a constant is written to. A text keeps its quotes. -/
def columnName : Scalar → String
  | text s => "\"" ++ s ++ "\""
  | number => number.toText

theorem agrees_comm (a b : Scalar) : a.agrees b = b.agrees a := by
  cases a <;> cases b <;> simp [agrees, Binary64.equals_comm, Bool.beq_comm]

end Scalar

end ColumnFormula
