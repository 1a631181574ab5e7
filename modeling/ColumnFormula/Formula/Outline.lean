import ColumnFormula.Formula
import ColumnFormula.Text.Outline
import ColumnFormula.Text.Quoted

/-!
# Formulas as outlines

The structure of a formula laid out over lines, with the type of every part.
-/

namespace ColumnFormula

open Text

def Scalar.outline : Scalar → Outline
  | integer i => .wrapped "Integer" (.atom (integer i).toText)
  | real x => .wrapped "Real" (.atom (real x).toText)
  | text s => .wrapped "Text" (.atom (quoted s))

namespace Formula

mutual

def outline : Formula → Outline
  | constant value => .wrapped "Constant" (.record "Constant" [("datum", value.outline)])
  | var name type =>
    .wrapped "Variable" (.record "VariableRef"
      [("name", .atom (quoted name)), ("class", .atom type.cls.name),
        ("kind", .atom type.kind.name)])
  | prop identifier column =>
    .wrapped "Property" (.record "PropertyRef"
      [("identifier", .atom (quoted identifier)), ("column", .atom (quoted column))])
  | operation operator operands =>
    .wrapped "Operator" (.record "OperatorNode"
      [("operator", .atom operator.name), ("operands", .list (outlines operands))])
  | call function arguments =>
    .wrapped "Function" (.record "FunctionNode"
      [("function", .atom function.name.capitalize), ("arguments", .list (outlines arguments))])

def outlines : List Formula → List Outline
  | [] => []
  | x :: xs => x.outline :: outlines xs

end

end Formula

end ColumnFormula
