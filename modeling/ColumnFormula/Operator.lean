import ColumnFormula.Kernel
import ColumnFormula.Signature

/-!
# Operators

The arithmetic of formulas. All of it is done over the reals.
-/

namespace ColumnFormula

inductive Operator where
  | negate
  | add
  | subtract
  | multiply
  | divide
  deriving DecidableEq, Repr

namespace Operator

def symbol : Operator → String
  | negate | subtract => "-"
  | add => "+"
  | multiply => "*"
  | divide => "/"

def name : Operator → String
  | negate => "Negate"
  | add => "Add"
  | subtract => "Sub"
  | multiply => "Mul"
  | divide => "Div"

def signature : Operator → Signature
  | negate => { slots := [⟨.numeric, .any⟩] }
  | _ => { slots := [⟨.numeric, .any⟩, ⟨.numeric, .any⟩] }

def kernel : Operator → Kernel
  | negate => .unary fun x => -x
  | add => .binary (· + ·)
  | subtract => .binary (· - ·)
  | multiply => .binary (· * ·)
  | divide => .binary (· / ·)

end Operator

end ColumnFormula
