import ColumnFormula.Grammar.Token

/-!
# Errors of form

Why a text is no formula, and where.
-/

namespace ColumnFormula

inductive SyntaxError where
  | unexpectedCharacter (character : Char) (position : Position)
  | unterminatedText (text : String) (position : Position)
  | unterminatedName (text : String) (position : Position)
  | invalidNumber (numeral : String) (position : Position)
  | unexpectedToken (token : Token) (position : Position)
  | unexpectedEnd (position : Position)
  | unclosedParen (position : Position)
  | unknownFunction (name : String) (position : Position)
  | trailingToken (token : Token) (position : Position)
  | emptyEquation
  deriving DecidableEq

namespace SyntaxError

def position? : SyntaxError → Option Position
  | unexpectedCharacter _ p | unterminatedText _ p | unterminatedName _ p | invalidNumber _ p
  | unexpectedToken _ p | unexpectedEnd p | unclosedParen p | unknownFunction _ p
  | trailingToken _ p => some p
  | emptyEquation => none

/-- What is wrong, without the place. -/
def complaint : SyntaxError → String
  | unexpectedCharacter character _ => "Unexpected character '" ++ character.toString ++ "'."
  | unterminatedText text _ => "Unterminated string literal " ++ text ++ "."
  | unterminatedName text _ => "Unterminated quoted name " ++ text ++ "."
  | invalidNumber numeral _ => "Invalid numeric literal '" ++ numeral ++ "'."
  | unexpectedToken token _ => "Unexpected token: " ++ token.describe ++ "."
  | unexpectedEnd _ => "Unexpected end of input."
  | unclosedParen _ => "Expected closing parenthesis ')' but none found."
  | unknownFunction name _ => "Unknown function '" ++ name ++ "'."
  | trailingToken token _ =>
    "Extra tokens after expression. Check your input: " ++ token.describe
  | emptyEquation => "The equation is empty."

def message (e : SyntaxError) : String :=
  match e.position? with
  | some p => "Error at " ++ p.toText ++ ": " ++ e.complaint
  | none => "Error: " ++ e.complaint

end SyntaxError

end ColumnFormula
