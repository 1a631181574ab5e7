import ColumnFormula.Formula
import ColumnFormula.Formula.ResolveError
import ColumnFormula.Grammar.Expr

/-!
# Resolution

From an expression to the formula it stands for. Names are looked up in a schema, and
every operation and call is checked against its signature: the number of arguments, then
slot by slot kinds and shape, then whether compared arguments can be compared. Of several
errors the first in the order of evaluation counts.
-/

namespace ColumnFormula

def Shape.fits : Shape → Formula → Bool
  | any, _ => true
  | column, x => x.isReference
  | constant, x => x.isConstant

namespace Signature

/-- Numbers compare with numbers and texts with texts. -/
def canCompare (left right : KindSet) : Bool :=
  (left.within .numeric && right.within .numeric)
    || (left.within (.single .text) && right.within (.single .text))

/-- The first argument that does not fit its slot. Slots are counted from `slot`. -/
def checkSlots (function : String) (p : Position) (slot : Nat) :
    List Slot → List Formula → Option ResolveError
  | s :: slots, x :: xs =>
    if !x.kinds.within s.kinds then some (.argumentKinds function slot s.kinds x.kinds p)
    else if !s.shape.fits x then some (.argumentShape function slot s.shape p)
    else checkSlots function p (slot + 1) slots xs
  | _, _ => none

def checkComparable (function : String) (p : Position) : List Formula → Option ResolveError
  | left :: right :: _ =>
    if canCompare left.kinds right.kinds then none
    else some (.incomparable function left.kinds right.kinds p)
  | _ => none

/-- The error in the arguments of a function, if there is one. -/
def check (sig : Signature) (function : String) (p : Position) (xs : List Formula) :
    Option ResolveError :=
  if xs.length ≠ sig.arity then some (.argumentCount function sig.arity xs.length p)
  else
    match checkSlots function p 1 sig.slots xs with
    | some e => some e
    | none => if sig.comparable then checkComparable function p xs else none

end Signature

namespace Formula

/-- An operation, if its operands allow it. -/
def operation? (operator : Operator) (xs : List Formula) (p : Position) :
    Except ResolveError Formula :=
  match operator.signature.check operator.symbol p xs with
  | some e => .error e
  | none => .ok (operation operator xs)

/-- A call, if its arguments allow it. -/
def call? (function : Builtin) (xs : List Formula) (p : Position) :
    Except ResolveError Formula :=
  match function.signature.check function.name p xs with
  | some e => .error e
  | none => .ok (call function xs)

end Formula

namespace Expr

mutual

def resolve (s : Schema) : Expr → Except ResolveError Formula
  | literal value _ => .ok (.constant value)
  | var name p =>
    match s.variableType? name with
    | some type => .ok (.var name type)
    | none => .error (.unknownVariable name p)
  | prop name p =>
    match s.propertyColumn? name with
    | some column => .ok (.prop name column)
    | none => .error (.unknownProperty name p)
  | negate operand p =>
    match operand.resolve s with
    | .error e => .error e
    | .ok x => Formula.operation? .negate [x] p
  | binary operator left right p =>
    match left.resolve s with
    | .error e => .error e
    | .ok x =>
      match right.resolve s with
      | .error e => .error e
      | .ok y => Formula.operation? operator.operator [x, y] p
  | call function arguments p =>
    match resolveAll s arguments with
    | .error e => .error e
    | .ok xs => Formula.call? function xs p

def resolveAll (s : Schema) : List Expr → Except ResolveError (List Formula)
  | [] => .ok []
  | e :: es =>
    match e.resolve s with
    | .error e => .error e
    | .ok x =>
      match resolveAll s es with
      | .error e => .error e
      | .ok xs => .ok (x :: xs)

end

end Expr

end ColumnFormula
