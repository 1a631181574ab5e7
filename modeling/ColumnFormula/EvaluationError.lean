/-!
# Failures of an evaluation

Why a well-formed formula gives no column on some table.
-/

namespace ColumnFormula

inductive EvaluationError where
  | missingColumn (column formula : String)
  | noMatchingRow (property value formula : String)
  | columnExists (column : String)
  | unknownDefinition (name : String)
  deriving DecidableEq, Repr

namespace EvaluationError

def message : EvaluationError → String
  | missingColumn column formula =>
    "Error in " ++ formula ++ ": Column '" ++ column ++ "' is missing from the data."
  | noMatchingRow property value formula =>
    "Error in " ++ formula ++ ": No row has " ++ property ++ " equal to " ++ value ++ "."
  | columnExists column =>
    "Error: Column '" ++ column ++ "' already exists and was not derived here."
  | unknownDefinition name => "Error: No derived data named '" ++ name ++ "' is defined."

end EvaluationError

end ColumnFormula
