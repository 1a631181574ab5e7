import ColumnFormula.Equation

/-!
# Workbooks

Equations under names of their own. Applying one adds its results to a table as the column
of that name. A column that is there already is replaced only if the workbook has written
one of that name before.
-/

namespace ColumnFormula

structure Workbook where
  equations : Named Equation
  /-- The names of the columns written so far. -/
  applied : List String

namespace Workbook

def empty : Workbook := ⟨.empty, []⟩

instance : Inhabited Workbook := ⟨empty⟩

def get? (w : Workbook) (name : String) : Option Equation := w.equations.get? name

def names (w : Workbook) : List String := w.equations.names

def define (w : Workbook) (s : Schema) (name text : String) : Except Fault Workbook :=
  match Equation.compile s text with
  | .error e => .error e
  | .ok equation => .ok { w with equations := w.equations.insert name equation }

def remove (w : Workbook) (name : String) : Workbook :=
  { w with equations := w.equations.erase name }

/-- A column under another name, in a table and in its cells. -/
def copyColumn (t : Table) (source name : String) : Table :=
  t.put name ((t.column source).map fun cell => cell.map (·.renamed name))

def apply (w : Workbook) (name : String) (t : Table) :
    Except EvaluationError String × Workbook × Table :=
  match w.get? name with
  | none => (.error (.unknownDefinition name), w, t)
  | some equation =>
    if t.has name && !w.applied.contains name then (.error (.columnExists name), w, t)
    else
      match equation.evaluate t with
      | (.error e, t) => (.error e, w, t)
      | (.ok source, t) =>
        (.ok name, { w with applied := w.applied.insert name }, copyColumn t source name)

end Workbook

end ColumnFormula
