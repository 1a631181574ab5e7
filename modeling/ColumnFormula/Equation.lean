import ColumnFormula.Evaluation
import ColumnFormula.Formula.Resolve
import ColumnFormula.Grammar.Parse
import ColumnFormula.Grammar.Word

/-!
# Equations

A formula with the text it was read from. Reading takes three steps, each with errors of
its own: words, structure, meaning.
-/

namespace ColumnFormula

/-- All that can go wrong between a text and its column. -/
inductive Fault where
  | form (error : SyntaxError)
  | meaning (error : ResolveError)
  | evaluation (error : EvaluationError)
  deriving DecidableEq

def Fault.message : Fault → String
  | form error => error.message
  | meaning error => error.message
  | evaluation error => error.message

structure Equation where
  text : String
  root : Formula

namespace Equation

def compile (s : Schema) (text : String) : Except Fault Equation :=
  match Lexeme.scan text with
  | .error e => .error (.form e)
  | .ok lexemes =>
    match Expr.parse lexemes with
    | .error e => .error (.form e)
    | .ok expr =>
      match expr.resolve s with
      | .error e => .error (.meaning e)
      | .ok root => .ok ⟨text, root⟩

def columnName (e : Equation) : String := e.root.columnName

def evaluate (e : Equation) (t : Table) : Except EvaluationError String × Table :=
  e.root.evaluate t

def same (e f : Equation) : Bool := e.text == f.text && e.root.same f.root

end Equation

/-- Adds the column of an equation to a table, along with those it needs. -/
def Table.derive (t : Table) (s : Schema) (text : String) : Except Fault String × Table :=
  match Equation.compile s text with
  | .error e => (.error e, t)
  | .ok equation =>
    match equation.evaluate t with
    | (.error e, t) => (.error (.evaluation e), t)
    | (.ok name, t) => (.ok name, t)

end ColumnFormula
