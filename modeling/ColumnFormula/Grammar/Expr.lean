import ColumnFormula.Builtin
import ColumnFormula.Grammar.Position
import ColumnFormula.Operator

/-!
# Expressions

The structure of a formula as written, before its names are looked up. Every part knows
where it stands: an operation at its operator, a call at the name of its function.
-/

namespace ColumnFormula

/-- The operators that stand between two operands. -/
inductive BinaryOperator where
  | add
  | subtract
  | multiply
  | divide
  deriving DecidableEq, Repr

def BinaryOperator.operator : BinaryOperator → Operator
  | add => .add
  | subtract => .subtract
  | multiply => .multiply
  | divide => .divide

inductive Expr where
  | literal (value : Scalar) (position : Position)
  | var (name : String) (position : Position)
  | prop (name : String) (position : Position)
  | negate (operand : Expr) (position : Position)
  | binary (operator : BinaryOperator) (left right : Expr) (position : Position)
  | call (function : Builtin) (arguments : List Expr) (position : Position)

namespace Expr

instance : Inhabited Expr := ⟨literal default .start⟩

def position : Expr → Position
  | literal _ p | var _ p | prop _ p | negate _ p | binary _ _ _ p | call _ _ p => p

end Expr

end ColumnFormula
