import ColumnFormula.Grammar.Pattern
import ColumnFormula.Grammar.SyntaxError

/-!
# Words

The classes of words with their patterns. A text is read from the left, each time taking
the longest word at its front (`longest?`). Quotes that do not close on their line and
numerals that end too early have classes of their own, so they are taken whole and refused.
-/

namespace ColumnFormula

inductive WordClass where
  | real
  | integer
  | text
  | quotedName
  | identifier
  | sign
  | unterminatedText
  | unterminatedName
  | malformedNumber
  | lineBreak
  | blank
  deriving DecidableEq, Repr

namespace WordClass

open Pattern

def all : List WordClass :=
  [real, integer, text, quotedName, identifier, sign, unterminatedText, unterminatedName,
    malformedNumber, lineBreak, blank]

/-! ## Patterns -/

def digit : Pattern := one Char.isDigit

def digits : Pattern := plus digit

def exponentMark : Pattern := seq (oneOf ['e', 'E']) (optional (oneOf ['+', '-']))

def exponent : Pattern := seq exponentMark digits

/-- An opening quote and what follows it on its line. -/
def quote (mark : Char) : Pattern := seq (char mark) (star (noneOf [mark, '\r', '\n']))

def pattern : WordClass → Pattern
  | real =>
    alt (seq digits (seq (char '.') (seq digits (optional exponent))))
      (alt (seq (char '.') (seq digits (optional exponent))) (seq digits exponent))
  | integer => digits
  | text => seq (quote '"') (char '"')
  | quotedName => seq (quote '\'') (char '\'')
  | identifier =>
    seq (one fun c => c.isAlpha || c == '_') (star (one fun c => c.isAlphanum || c == '_'))
  | sign => oneOf ['+', '-', '*', '/', '(', ')', ',']
  | unterminatedText => quote '"'
  | unterminatedName => quote '\''
  | malformedNumber =>
    alt
      (seq (star digit) (seq (char '.') (seq digits
        (seq (char '.') (star (alt digit (char '.')))))))
      (seq digits (seq (optional (seq (char '.') digits)) exponentMark))
  | lineBreak => alt (seq (char '\r') (char '\n')) (oneOf ['\r', '\n'])
  | blank => plus (oneOf [' ', '\t', '\x0c'])

/-! ## The longest word -/

/-- The class of the longest word that `c :: cs` begins with, and how many characters of
`cs` belong to it. -/
def longest? (c : Char) (cs : List Char) : Option (WordClass × Nat) :=
  all.foldl
    (fun best cls =>
      match (cls.pattern.step c).longest? cs, best with
      | some n, some (other, m) => if m < n then some (cls, n) else some (other, m)
      | some n, none => some (cls, n)
      | none, best => best)
    none

/-! ## Meaning -/

def signToken? : List Char → Option Token
  | ['+'] => some .plus
  | ['-'] => some .minus
  | ['*'] => some .star
  | ['/'] => some .slash
  | ['('] => some .leftParen
  | [')'] => some .rightParen
  | [','] => some .comma
  | _ => none

/-- What stands between the quotes. -/
def unquote (word : List Char) : String := String.ofList (word.drop 1).dropLast

/-- The token of a word at a place, none if the word is skipped. Integers end at the
greatest one of 64 bits; reals beyond all doubles are infinite. -/
def token? (cls : WordClass) (word : List Char) (p : Position) :
    Except SyntaxError (Option Token) :=
  match cls with
  | real =>
    match Numeral.decimal? word with
    | some d => .ok (some (.real (Binary64.ofMagnitude false d.magnitude)))
    | none => .error (.invalidNumber (String.ofList word) p)
  | integer =>
    let n := Nat.ofDigitChars 10 word 0
    if n ≤ Int64.maxValue.toInt then .ok (some (.integer (Int64.ofNat n)))
    else .error (.invalidNumber (String.ofList word) p)
  | text => .ok (some (.text (unquote word)))
  | quotedName => .ok (some (.quotedName (unquote word)))
  | identifier => .ok (some (.identifier (String.ofList word)))
  | sign => .ok (signToken? word)
  | unterminatedText => .error (.unterminatedText (String.ofList word) p)
  | unterminatedName => .error (.unterminatedName (String.ofList word) p)
  | malformedNumber => .error (.invalidNumber (String.ofList word) p)
  | lineBreak | blank => .ok none

/-- The place after a word. -/
def after (cls : WordClass) (word : List Char) (p : Position) : Position :=
  match cls with
  | lineBreak => p.down
  | _ => p.right word.length

end WordClass

/-! ## Reading a text -/

namespace Lexeme

def scanFrom (p : Position) : List Char → Except SyntaxError (List Lexeme)
  | [] => .ok [⟨.endOfText, p⟩]
  | c :: cs =>
    match WordClass.longest? c cs with
    | none => .error (.unexpectedCharacter c p)
    | some (cls, n) =>
      let word := c :: cs.take n
      match cls.token? word p with
      | .error e => .error e
      | .ok token =>
        match scanFrom (cls.after word p) (cs.drop n) with
        | .error e => .error e
        | .ok lexemes => .ok ((token.map fun t => ⟨t, p⟩).toList ++ lexemes)
termination_by cs => cs.length
decreasing_by simp only [List.length_cons, List.length_drop]; omega

/-- The lexemes of a text, closed by the end of the text. -/
def scan (text : String) : Except SyntaxError (List Lexeme) := scanFrom .start text.toList

end Lexeme

end ColumnFormula
