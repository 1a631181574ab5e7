import ColumnFormula.Builtin
import ColumnFormula.Operator
import ColumnFormula.Schema

/-!
# Formulas

A formula is an expression whose names have been looked up. It tells the kinds of its
results (`kinds`) and the column that holds them (`columnName`), which is also the way it
is printed.
-/

namespace ColumnFormula

inductive Formula where
  | constant (value : Scalar)
  | var (name : String) (type : VariableType)
  | prop (identifier column : String)
  | operation (operator : Operator) (operands : List Formula)
  | call (function : Builtin) (arguments : List Formula)

namespace Formula

instance : Inhabited Formula := ⟨constant default⟩

def children : Formula → List Formula
  | constant _ | var .. | prop .. => []
  | operation _ operands => operands
  | call _ arguments => arguments

def isConstant : Formula → Bool
  | constant _ => true
  | _ => false

/-- Whether the formula reads a column that is there already. -/
def isReference : Formula → Bool
  | var .. | prop .. => true
  | _ => false

def isOperation : Formula → Bool
  | operation .. => true
  | _ => false

/-! ## Kinds -/

mutual

def kinds : Formula → KindSet
  | constant value => .single value.kind
  | var _ type => .single type.kind
  | prop .. => .single .text
  | operation operator arguments =>
    match operator.signature.returns with
    | .always kinds => kinds
    | .arguments => kindsOfAll arguments
  | call function arguments =>
    match function.signature.returns with
    | .always kinds => kinds
    | .arguments => kindsOfAll arguments

def kindsOfAll : List Formula → KindSet
  | [] => .empty
  | x :: xs => x.kinds.union (kindsOfAll xs)

end

theorem contains_kindsOfAll {xs : List Formula} {k : Kind} :
    (kindsOfAll xs).contains k = true ↔ ∃ x ∈ xs, x.kinds.contains k = true := by
  induction xs with
  | nil => simp [kindsOfAll]
  | cons x xs ih => simp [kindsOfAll, ih]

theorem kinds_of_always {function : Builtin} {kinds : KindSet}
    (h : function.signature.returns = .always kinds) (arguments : List Formula) :
    (call function arguments).kinds = kinds := by
  rw [Formula.kinds, h]

theorem kinds_of_arguments {function : Builtin} (h : function.signature.returns = .arguments)
    (arguments : List Formula) : (call function arguments).kinds = kindsOfAll arguments := by
  rw [kinds, h]

theorem kinds_operation (operator : Operator) (operands : List Formula) :
    (operation operator operands).kinds = .single .real := by
  cases operator <;> rfl

/-! ## Names -/

def bracketed (name : String) : String := "(" ++ name ++ ")"

mutual

/-- The column of the results. A single operand of an operator is bracketed if it is a
constant or an operation, one of several only if it is an operation. -/
def columnName : Formula → String
  | constant value => value.columnName
  | var name _ => name
  | prop _ column => column
  | operation operator [x] =>
    operator.symbol
      ++ if x.isConstant || x.isOperation then bracketed x.columnName else x.columnName
  | operation operator operands => operator.symbol.intercalate (operandNames operands)
  | call function arguments => function.name ++ bracketed (", ".intercalate (columnNames arguments))

def columnNames : List Formula → List String
  | [] => []
  | x :: xs => x.columnName :: columnNames xs

def operandNames : List Formula → List String
  | [] => []
  | x :: xs => (if x.isOperation then bracketed x.columnName else x.columnName) :: operandNames xs

end

/-! ## Identity -/

mutual

/-- Identity of two formulas, where all NaNs are one value. -/
def same : Formula → Formula → Bool
  | constant v, constant w => v.same w
  | var m t, var n u => m == n && t == u
  | prop i c, prop j d => i == j && c == d
  | operation o xs, operation p ys => o == p && sameAll xs ys
  | call f xs, call g ys => f == g && sameAll xs ys
  | _, _ => false

def sameAll : List Formula → List Formula → Bool
  | [], [] => true
  | x :: xs, y :: ys => x.same y && sameAll xs ys
  | _, _ => false

end

theorem columnNames_eq_map (xs : List Formula) : columnNames xs = xs.map columnName := by
  induction xs with
  | nil => rfl
  | cons x xs ih => simp [columnNames, ih]

end Formula

end ColumnFormula
