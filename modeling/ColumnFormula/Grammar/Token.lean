import ColumnFormula.Grammar.Position
import ColumnFormula.Number.Numeral

/-!
# Tokens

The words of the formula language with what they stand for. The last kinds are not part
of any formula: words that are read but skipped or refused, and the end of a text.
-/

namespace ColumnFormula

inductive Token where
  | real (value : Float)
  | integer (value : Int64)
  | text (value : String)
  | quotedName (name : String)
  | identifier (name : String)
  | plus
  | minus
  | star
  | slash
  | leftParen
  | rightParen
  | comma
  | unterminatedText
  | unterminatedName
  | malformedNumber
  | lineBreak
  | blank
  | endOfText
  deriving DecidableEq

namespace Token

/-- A token as error messages call it. -/
def describe : Token → String
  | real value => "number " ++ String.ofList (Numeral.ofReal value)
  | integer value => "number " ++ String.ofList (Numeral.ofInt value.toInt)
  | text value => "string \"" ++ value ++ "\""
  | quotedName name => "name '" ++ name ++ "'"
  | identifier name => "identifier " ++ name
  | plus => "'+'"
  | minus => "'-'"
  | star => "'*'"
  | slash => "'/'"
  | leftParen => "'('"
  | rightParen => "')'"
  | comma => "','"
  | unterminatedText | unterminatedName => "unterminated quote"
  | malformedNumber => "malformed number"
  | lineBreak | blank => "whitespace"
  | endOfText => "end of input"

end Token

/-- A token where it stands. -/
structure Lexeme where
  token : Token
  position : Position
  deriving DecidableEq

end ColumnFormula
