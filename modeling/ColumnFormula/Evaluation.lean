import ColumnFormula.Formula
import ColumnFormula.Table

/-!
# Evaluation

A pass evaluates one formula on a table. The results of all its constants, operations and
calls are written to columns of the table, arguments first, and the outcome is the name of
the column with the results of the whole. A column that this pass has written already is
not worked out again, and what was written before a failure stays.
-/

namespace ColumnFormula

/-- A table under evaluation, and the columns written to it in this pass, in order. -/
structure Pass where
  table : Table
  written : List String := []
  deriving DecidableEq

namespace Pass

def write (p : Pass) (name : String) (values : Column) : Pass :=
  ⟨p.table.put name values, p.written ++ [name]⟩

end Pass

/-- The cells of a constant. -/
def constantColumn (value : Scalar) (rows : Nat) : Column :=
  List.replicate rows (some (.bare value.kind.name .unknown value))

namespace Formula

/-- A column that has to be there. -/
def require (p : Pass) (name formula : String) : Except EvaluationError String :=
  if p.table.has name then .ok name else .error (.missingColumn name formula)

/-- The last step of an operation or call, once its arguments are in the columns `names`. -/
def finish (strategy : Strategy) (formula : String) (names : List String) (p : Pass) :
    Except EvaluationError String × Pass :=
  match strategy.column formula names (p.table.select names) with
  | .error e => (.error e, p)
  | .ok values => (.ok formula, p.write formula values)

mutual

def run : Formula → Pass → Except EvaluationError String × Pass
  | constant value, p =>
    let name := value.columnName
    if p.written.contains name then (.ok name, p)
    else (.ok name, p.write name (constantColumn value p.table.size))
  | var name _, p => (require p name name, p)
  | prop _ column, p => (require p column column, p)
  | operation operator operands, p =>
    let name := (operation operator operands).columnName
    if p.written.contains name then (.ok name, p)
    else
      match runAll operands p with
      | (.error e, p) => (.error e, p)
      | (.ok names, p) => finish (.perRow operator.kernel) name names p
  | call function arguments, p =>
    let name := (call function arguments).columnName
    if p.written.contains name then (.ok name, p)
    else
      match runAll arguments p with
      | (.error e, p) => (.error e, p)
      | (.ok names, p) => finish function.strategy name names p

def runAll : List Formula → Pass → Except EvaluationError (List String) × Pass
  | [], p => (.ok [], p)
  | x :: xs, p =>
    match run x p with
    | (.error e, p) => (.error e, p)
    | (.ok name, p) =>
      match runAll xs p with
      | (.error e, p) => (.error e, p)
      | (.ok names, p) => (.ok (name :: names), p)

end

end Formula

namespace Pass

/-- A fresh pass over the table of this one. -/
def evaluate (p : Pass) (x : Formula) : Except EvaluationError String × Pass :=
  x.run { p with written := [] }

end Pass

namespace Formula

/-- The column of the results, and the table with all that was written on the way. -/
def evaluate (x : Formula) (t : Table) : Except EvaluationError String × Table :=
  let (result, p) := Pass.evaluate ⟨t, []⟩ x
  (result, p.table)

end Formula

end ColumnFormula
