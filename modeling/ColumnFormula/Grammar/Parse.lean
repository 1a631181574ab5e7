import ColumnFormula.Grammar.Expr
import ColumnFormula.Grammar.SyntaxError

/-!
# Reading expressions

    expression := term (("+" | "-") term)*
    term       := factor (("*" | "/") factor)*
    factor     := "-" factor | primary
    primary    := number | text | quoted name | identifier
                | identifier "(" [expression ("," expression)*] ")" | "(" expression ")"

Operators of one level group to the left. A minus right before a number belongs to the
number. Lexemes are read from the left, and each function gives what it read together
with the lexemes left over, which are fewer (`Parsed.shorter`).
-/

namespace ColumnFormula

/-- A value read from a list of lexemes of length `bound`, and the lexemes after it. -/
structure Parsed (α : Type) (bound : Nat) where
  value : α
  rest : List Lexeme
  shorter : rest.length < bound

namespace Parsed

variable {α β : Type}

/-- The same, read from a longer list. -/
def weaken {m n : Nat} (x : Parsed α m) (h : m ≤ n) : Parsed α n :=
  ⟨x.value, x.rest, Nat.lt_of_lt_of_le x.shorter h⟩

end Parsed

namespace Expr

/-- The error for a lexeme that cannot stand where it does. -/
def unexpected (l : Lexeme) : SyntaxError :=
  match l.token with
  | .endOfText => .unexpectedEnd l.position
  | token => .unexpectedToken token l.position

/-- The error for what stands where the parenthesis opened at `opening` should close. -/
def unclosed (opening : Position) : List Lexeme → SyntaxError
  | [] => .unclosedParen opening
  | l :: _ =>
    match l.token with
    | .endOfText => .unclosedParen opening
    | token => .unexpectedToken token l.position

/-- What was read, past the parenthesis that closes it. -/
def closed {α : Type} {n : Nat} (opening : Position) (x : Parsed α n) :
    Except SyntaxError (Parsed α n) :=
  match h : x.rest with
  | ⟨.rightParen, _⟩ :: after => .ok ⟨x.value, after, by
      have := x.shorter; simp [h] at this; omega⟩
  | after => .error (unclosed opening after)

mutual

def parseExpression (ls : List Lexeme) : Except SyntaxError (Parsed Expr ls.length) :=
  match parseTerm ls with
  | .error e => .error e
  | .ok first =>
    match parseSum first.value first.rest with
    | .error e => .error e
    | .ok whole => .ok (whole.weaken first.shorter)
termination_by (ls.length, 5)
decreasing_by
  · decreasing_tactic
  · have := first.shorter; decreasing_tactic

/-- The rest of a sum whose first terms are `left`. -/
def parseSum (left : Expr) (ls : List Lexeme) :
    Except SyntaxError (Parsed Expr (ls.length + 1)) :=
  match ls with
  | ⟨.plus, p⟩ :: rest => parseSumTail left .add p rest
  | ⟨.minus, p⟩ :: rest => parseSumTail left .subtract p rest
  | ls => .ok ⟨left, ls, by omega⟩
termination_by (ls.length, 0)

/-- The rest of a sum from the term after an operator on. -/
def parseSumTail (left : Expr) (operator : BinaryOperator) (p : Position) (ls : List Lexeme) :
    Except SyntaxError (Parsed Expr (ls.length + 2)) :=
  match parseTerm ls with
  | .error e => .error e
  | .ok right =>
    match parseSum (.binary operator left right.value p) right.rest with
    | .error e => .error e
    | .ok whole => .ok (whole.weaken (by have := right.shorter; omega))
termination_by (ls.length, 4)
decreasing_by
  · decreasing_tactic
  · have := right.shorter; decreasing_tactic

def parseTerm (ls : List Lexeme) : Except SyntaxError (Parsed Expr ls.length) :=
  match parseFactor ls with
  | .error e => .error e
  | .ok first =>
    match parseProduct first.value first.rest with
    | .error e => .error e
    | .ok whole => .ok (whole.weaken first.shorter)
termination_by (ls.length, 3)
decreasing_by
  · decreasing_tactic
  · have := first.shorter; decreasing_tactic

/-- The rest of a product whose first factors are `left`. -/
def parseProduct (left : Expr) (ls : List Lexeme) :
    Except SyntaxError (Parsed Expr (ls.length + 1)) :=
  match ls with
  | ⟨.star, p⟩ :: rest => parseProductTail left .multiply p rest
  | ⟨.slash, p⟩ :: rest => parseProductTail left .divide p rest
  | ls => .ok ⟨left, ls, by omega⟩
termination_by (ls.length, 0)

/-- The rest of a product from the factor after an operator on. -/
def parseProductTail (left : Expr) (operator : BinaryOperator) (p : Position)
    (ls : List Lexeme) : Except SyntaxError (Parsed Expr (ls.length + 2)) :=
  match parseFactor ls with
  | .error e => .error e
  | .ok right =>
    match parseProduct (.binary operator left right.value p) right.rest with
    | .error e => .error e
    | .ok whole => .ok (whole.weaken (by have := right.shorter; omega))
termination_by (ls.length, 2)
decreasing_by
  · decreasing_tactic
  · have := right.shorter; decreasing_tactic

def parseFactor (ls : List Lexeme) : Except SyntaxError (Parsed Expr ls.length) :=
  match ls with
  | ⟨.minus, p⟩ :: ⟨.integer i, _⟩ :: rest => .ok ⟨.literal (.integer (-i)) p, rest, by
      simp only [List.length_cons]; omega⟩
  | ⟨.minus, p⟩ :: ⟨.real x, _⟩ :: rest => .ok ⟨.literal (.real (-x)) p, rest, by
      simp only [List.length_cons]; omega⟩
  | ⟨.minus, p⟩ :: rest =>
    match parseFactor rest with
    | .error e => .error e
    | .ok operand => .ok ⟨.negate operand.value p, operand.rest, by
        have := operand.shorter; simp only [List.length_cons]; omega⟩
  | ls => parsePrimary ls
termination_by (ls.length, 1)

def parsePrimary (ls : List Lexeme) : Except SyntaxError (Parsed Expr ls.length) :=
  match ls with
  | [] => .error (.unexpectedEnd .start)
  | ⟨.integer i, p⟩ :: rest => .ok ⟨.literal (.integer i) p, rest, by simp⟩
  | ⟨.real x, p⟩ :: rest => .ok ⟨.literal (.real x) p, rest, by simp⟩
  | ⟨.text s, p⟩ :: rest => .ok ⟨.literal (.text s) p, rest, by simp⟩
  | ⟨.quotedName name, p⟩ :: rest => .ok ⟨.var name p, rest, by simp⟩
  | ⟨.identifier name, p⟩ :: ⟨.leftParen, opening⟩ :: rest =>
    match Builtin.ofName? name with
    | none => .error (.unknownFunction name p)
    | some function =>
      match parseArguments opening rest with
      | .error e => .error e
      | .ok arguments => .ok ⟨.call function arguments.value p, arguments.rest, by
          have := arguments.shorter; simp only [List.length_cons]; omega⟩
  | ⟨.identifier name, p⟩ :: rest => .ok ⟨.prop name p, rest, by simp⟩
  | ⟨.leftParen, opening⟩ :: rest =>
    match parseExpression rest with
    | .error e => .error e
    | .ok inner => closed opening (inner.weaken (by simp))
  | l :: _ => .error (unexpected l)
termination_by (ls.length, 0)

/-- The arguments of a call and its closing parenthesis. -/
def parseArguments (opening : Position) (ls : List Lexeme) :
    Except SyntaxError (Parsed (List Expr) ls.length) :=
  match ls with
  | ⟨.rightParen, _⟩ :: rest => .ok ⟨[], rest, by simp⟩
  | ls => parseItems opening ls
termination_by (ls.length, 7)

/-- One argument or more, and the closing parenthesis. -/
def parseItems (opening : Position) (ls : List Lexeme) :
    Except SyntaxError (Parsed (List Expr) ls.length) :=
  match parseExpression ls with
  | .error e => .error e
  | .ok item =>
    match h : item.rest with
    | ⟨.comma, _⟩ :: after =>
      match parseItems opening after with
      | .error e => .error e
      | .ok items => .ok ⟨item.value :: items.value, items.rest, by
          have := item.shorter; have := items.shorter; simp [h] at *; omega⟩
    | _ => closed opening ⟨[item.value], item.rest, item.shorter⟩
termination_by (ls.length, 6)
decreasing_by
  · decreasing_tactic
  · have := item.shorter; simp [h] at this; decreasing_tactic

end

/-- The expression that the lexemes before the end of the text spell. -/
def parse (ls : List Lexeme) : Except SyntaxError Expr :=
  match ls with
  | [] | ⟨.endOfText, _⟩ :: _ => .error .emptyEquation
  | ls =>
    match parseExpression ls with
    | .error e => .error e
    | .ok ⟨value, [], _⟩ => .ok value
    | .ok ⟨value, l :: _, _⟩ =>
      match l.token with
      | .endOfText => .ok value
      | token => .error (.trailingToken token l.position)

end Expr

end ColumnFormula
