import ColumnFormula.Kind

/-!
# Signatures

What an operator or a function takes and gives.
-/

namespace ColumnFormula

/-- The form that an argument must have. -/
inductive Shape where
  | any
  | column
  | constant
  deriving DecidableEq, Repr

namespace Shape

def describe : Shape → String
  | any => "any expression"
  | column => "a variable or property"
  | constant => "a constant"

end Shape

/-- The place of an argument. -/
structure Slot where
  kinds : KindSet
  shape : Shape := .any
  deriving DecidableEq, Repr

/-- The kinds of a result: always the same ones, or those of the arguments. -/
inductive Returns where
  | always (kinds : KindSet)
  | arguments
  deriving DecidableEq, Repr

structure Signature where
  slots : List Slot
  returns : Returns := .always (.single .real)
  /-- Whether the first two arguments are compared, as numbers or as texts. -/
  comparable : Bool := false
  deriving DecidableEq, Repr

namespace Signature

def arity (s : Signature) : Nat := s.slots.length

end Signature

end ColumnFormula
