import ColumnFormula.Rank
import ColumnFormula.Scalar

/-!
# Measurements

A cell of a table: a quantity with its error and where both come from. Arithmetic changes
the quantity and keeps the rest, so a derived measurement still tells its origin.
-/

namespace ColumnFormula

/-- How an error was estimated. -/
inductive ErrorModel where
  | skampi
  | pmtm
  | unspecified
  deriving DecidableEq

structure Measurement where
  name : String
  quantity : Scalar
  error : Option Scalar := none
  errorModel : Option ErrorModel := none
  rank : Rank
  count : Option Nat := none
  pauseCount : Option Nat := none
  deriving DecidableEq

namespace Measurement

/-- A bare quantity. -/
def bare (name : String) (rank : Rank) (quantity : Scalar) : Measurement :=
  { name, quantity, rank }

def kind (m : Measurement) : Kind := m.quantity.kind

def real? (m : Measurement) : Option Float := m.quantity.toReal?

/-- The error as a real, if it is a number. -/
def realError? (m : Measurement) : Option Float := m.error.bind Scalar.toReal?

def withQuantity (m : Measurement) (quantity : Scalar) : Measurement := { m with quantity }

def withReal (m : Measurement) (value : Float) (error : Option Float) : Measurement :=
  { m with quantity := .real value, error := error.map .real }

def renamed (m : Measurement) (name : String) : Measurement := { m with name }

/-- The measurement over the reals. An integer is widened along with its error, and a
real stays as it is; a text has no such form. -/
def toReal? (m : Measurement) : Option Measurement :=
  match m.quantity with
  | .real _ => some m
  | .integer i => some (m.withReal (widen i) m.realError?)
  | .text _ => none

/-- Over the reals a measurement has a real for its quantity. Its error, if it counted as one,
counts as the same real, and all else is kept. -/
theorem exists_of_toReal? {m n : Measurement} (h : m.toReal? = some n) :
    ∃ value error, m.real? = some value ∧ error.bind Scalar.toReal? = m.realError? ∧
      n = { m with quantity := .real value, error } := by
  unfold toReal? at h
  split at h
  · rename_i value hq
    cases h
    exact ⟨value, m.error, by rw [real?, hq]; rfl, rfl, by rw [← hq]⟩
  · rename_i i hq
    cases h
    refine ⟨widen i, m.realError?.map .real, by rw [real?, hq]; rfl, ?_, rfl⟩
    cases m.realError? <;> rfl
  · cases h

/-- Identity: all NaNs are one value. -/
def same (m n : Measurement) : Bool :=
  m.name == n.name && m.quantity.same n.quantity
    && (match m.error, n.error with
      | some e, some f => e.same f
      | none, none => true
      | _, _ => false)
    && m.errorModel == n.errorModel && m.rank == n.rank && m.count == n.count
    && m.pauseCount == n.pauseCount

/-- The quantity and, where there is one, its error. -/
def quantityText (m : Measurement) : String :=
  match m.error with
  | some error => m.quantity.toText ++ " ± " ++ error.toText
  | none => m.quantity.toText

def toText (m : Measurement) : String := m.name ++ ": " ++ m.quantityText

end Measurement

end ColumnFormula
