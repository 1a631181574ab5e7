import ColumnFormula.Grammar.Position
import ColumnFormula.Kind
import ColumnFormula.Signature

/-!
# Errors of meaning

Why an expression of good form stands for no formula, and where.
-/

namespace ColumnFormula

inductive ResolveError where
  | argumentCount (function : String) (expected found : Nat) (position : Position)
  | argumentKinds (function : String) (slot : Nat) (expected found : KindSet) (position : Position)
  | argumentShape (function : String) (slot : Nat) (expected : Shape) (position : Position)
  | incomparable (function : String) (left right : KindSet) (position : Position)
  | unknownVariable (name : String) (position : Position)
  | unknownProperty (name : String) (position : Position)
  deriving DecidableEq

namespace ResolveError

def position : ResolveError → Position
  | argumentCount _ _ _ p | argumentKinds _ _ _ _ p | argumentShape _ _ _ p | incomparable _ _ _ p
  | unknownVariable _ p | unknownProperty _ p => p

/-- What is wrong, without the place. -/
def complaint : ResolveError → String
  | argumentCount function expected found _ =>
    s!"Function {function} expects {expected} arguments, received {found}."
  | argumentKinds function slot expected found _ =>
    s!"Function {function} expects argument number {slot} to be of types " ++ expected.toText
      ++ ", received argument of type " ++ found.toText ++ "."
  | argumentShape function slot expected _ =>
    s!"Argument number {slot} of {function} must be " ++ expected.describe ++ "."
  | incomparable function left right _ =>
    s!"Function {function} cannot compare " ++ left.toText ++ " with " ++ right.toText ++ "."
  | unknownVariable name _ => "Unknown variable '" ++ name ++ "'."
  | unknownProperty name _ => "Unknown property '" ++ name ++ "'."

def message (e : ResolveError) : String :=
  "Error at " ++ e.position.toText ++ ": " ++ e.complaint

end ResolveError

end ColumnFormula
