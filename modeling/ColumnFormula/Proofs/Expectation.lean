import ColumnFormula.Proofs.Acceptance

/-!
# What may come next

The parser as a machine that reads one lexeme at a time: all it needs to know of what it has
read is what may come next and which parentheses are still open (`Expectation`). It comes to
the parser's own verdict on every list of lexemes (`run_eq_parse`). Each level of the parser
accounts for the same lexemes as the machine, which then goes on with the lexemes left over.
-/

namespace ColumnFormula

/-- What the lexemes read so far leave to come next. -/
inductive Next where
  | operand
  /-- An operand, or the parenthesis that closes an empty list of arguments. -/
  | argument
  | operator
  /-- An operator, or the arguments of a call by this name. -/
  | call (name : String) (position : Position)

/-- A parenthesis that is still open. -/
structure Opened where
  position : Position
  /-- It encloses the arguments of a call. -/
  isCall : Bool

/-- Where a reader stands. The innermost parenthesis comes first. -/
structure Expectation where
  next : Next
  opened : List Opened

namespace Expectation

def start : Expectation := ⟨.operand, []⟩

/-- The reader's next place from where an operand should begin. -/
def atOperand (opened : List Opened) (l : Lexeme) : Except SyntaxError Expectation :=
  match l.token with
  | .real _ | .integer _ | .text _ | .quotedName _ => .ok ⟨.operator, opened⟩
  | .identifier name => .ok ⟨.call name l.position, opened⟩
  | .minus => .ok ⟨.operand, opened⟩
  | .leftParen => .ok ⟨.operand, ⟨l.position, false⟩ :: opened⟩
  | token => .error (.unexpectedToken token l.position)

/-- The reader's next place from behind an operand. A lexeme that cannot stand there is extra
if no parenthesis is open. -/
def atOperator (opened : List Opened) (l : Lexeme) : Except SyntaxError Expectation :=
  match l.token, opened with
  | .plus, _ | .minus, _ | .star, _ | .slash, _ => .ok ⟨.operand, opened⟩
  | .comma, ⟨_, true⟩ :: _ => .ok ⟨.operand, opened⟩
  | .rightParen, _ :: outer => .ok ⟨.operator, outer⟩
  | token, [] => .error (.trailingToken token l.position)
  | token, _ :: _ => .error (.unexpectedToken token l.position)

def step (x : Expectation) (l : Lexeme) : Except SyntaxError Expectation :=
  match x.next, l.token with
  | .operand, _ => atOperand x.opened l
  | .argument, .rightParen => .ok ⟨.operator, x.opened.tail⟩
  | .argument, _ => atOperand x.opened l
  | .call name p, .leftParen =>
    match Builtin.ofName? name with
    | some _ => .ok ⟨.argument, ⟨l.position, true⟩ :: x.opened⟩
    | none => .error (.unknownFunction name p)
  | .call _ _, _ | .operator, _ => atOperator x.opened l

/-- The verdict on a text that ends here. -/
def finish (x : Expectation) (p : Position) : Except SyntaxError Unit :=
  match x.next, x.opened with
  | .operand, _ | .argument, _ => .error (.unexpectedEnd p)
  | .operator, [] | .call _ _, [] => .ok ()
  | .operator, o :: _ | .call _ _, o :: _ => .error (.unclosedParen o.position)

/-- The verdict on the lexemes from here on. -/
def run (x : Expectation) : List Lexeme → Except SyntaxError Unit
  | [] => x.finish .start
  | l :: ls =>
    match l.token with
    | .endOfText => x.finish l.position
    | _ =>
      match x.step l with
      | .error e => .error e
      | .ok y => y.run ls

theorem run_cons {x : Expectation} {l : Lexeme} {ls : List Lexeme} (ht : l.token ≠ .endOfText) :
    x.run (l :: ls) = match x.step l with
      | .error e => .error e
      | .ok y => y.run ls := by
  obtain ⟨token, p⟩ := l
  cases token <;> first | rfl | exact absurd rfl ht

end Expectation

/-- The verdict on what was read and on the lexemes left over. -/
def Parsed.andThen {α : Type} {n : Nat} (r : Except SyntaxError (Parsed α n))
    (verdict : List Lexeme → Except SyntaxError Unit) : Except SyntaxError Unit :=
  match r with
  | .error e => .error e
  | .ok x => verdict x.rest

namespace Expr

variable {left : Expr} {ls : List Lexeme}

/-! ## Where a level of the parser ends -/

mutual

theorem parseProduct_ends {left : Expr} {ls : List Lexeme} {x : Parsed Expr (ls.length + 1)}
    (h : parseProduct left ls = .ok x) : ¬ContinuesProduct x.rest := by
  rw [parseProduct.eq_def] at h
  split at h
  · exact parseProductTail_ends h
  · exact parseProductTail_ends h
  · rename_i star slash
    cases h
    intro continues
    unfold ContinuesProduct at continues
    split at continues
    · exact star _ _ ‹_›
    · exact slash _ _ ‹_›
    · exact continues
termination_by (ls.length, 0)

theorem parseProductTail_ends {left : Expr} {operator : BinaryOperator} {p : Position}
    {ls : List Lexeme} {x : Parsed Expr (ls.length + 2)}
    (h : parseProductTail left operator p ls = .ok x) : ¬ContinuesProduct x.rest := by
  rw [parseProductTail] at h
  split at h
  · cases h
  · rename_i right _
    have shorter := right.shorter
    split at h
    · cases h
    · rename_i whole hw
      cases h
      exact parseProduct_ends hw
termination_by (ls.length, 1)

end

theorem parseTerm_ends {x : Parsed Expr ls.length} (h : parseTerm ls = .ok x) :
    ¬ContinuesProduct x.rest := by
  rw [parseTerm] at h
  split at h
  · cases h
  · split at h
    · cases h
    · rename_i whole hw
      cases h
      exact parseProduct_ends hw

mutual

theorem parseSum_ends {left : Expr} {ls : List Lexeme} {x : Parsed Expr (ls.length + 1)}
    (hp : ¬ContinuesProduct ls) (h : parseSum left ls = .ok x) :
    ¬ContinuesSum x.rest ∧ ¬ContinuesProduct x.rest := by
  rw [parseSum.eq_def] at h
  split at h
  · exact parseSumTail_ends h
  · exact parseSumTail_ends h
  · rename_i plus minus
    cases h
    refine ⟨fun continues => ?_, hp⟩
    unfold ContinuesSum at continues
    split at continues
    · exact plus _ _ ‹_›
    · exact minus _ _ ‹_›
    · exact continues
termination_by (ls.length, 0)

theorem parseSumTail_ends {left : Expr} {operator : BinaryOperator} {p : Position}
    {ls : List Lexeme} {x : Parsed Expr (ls.length + 2)}
    (h : parseSumTail left operator p ls = .ok x) :
    ¬ContinuesSum x.rest ∧ ¬ContinuesProduct x.rest := by
  rw [parseSumTail] at h
  split at h
  · cases h
  · rename_i right hr
    have shorter := right.shorter
    split at h
    · cases h
    · rename_i whole hw
      cases h
      exact parseSum_ends (parseTerm_ends hr) hw
termination_by (ls.length, 1)

end

/-- No operator is left over after an expression. -/
theorem parseExpression_ends {x : Parsed Expr ls.length} (h : parseExpression ls = .ok x) :
    ¬ContinuesSum x.rest ∧ ¬ContinuesProduct x.rest := by
  rw [parseExpression] at h
  split at h
  · cases h
  · rename_i first hf
    split at h
    · cases h
    · rename_i whole hw
      cases h
      exact parseSum_ends (parseTerm_ends hf) hw

end Expr

/-! ## The machine comes to the parser's verdict -/

namespace Expectation

open ColumnFormula.Expr
open Parsed (andThen)

variable {opened : List Opened} {ls : List Lexeme}

/-- After an identifier that no parenthesis follows the reader stands behind an operand. -/
theorem run_call {name : String} {p : Position} (h : ∀ q rest, ls ≠ ⟨.leftParen, q⟩ :: rest) :
    run ⟨.call name p, opened⟩ ls = run ⟨.operator, opened⟩ ls := by
  cases ls with
  | nil => cases opened <;> rfl
  | cons l ls =>
    obtain ⟨token, q⟩ := l
    cases token <;> first | exact absurd rfl (h _ _) | cases opened <;> rfl

/-- Unless it closes, a list of arguments begins with an operand. -/
theorem run_argument (h : ∀ q rest, ls ≠ ⟨.rightParen, q⟩ :: rest) :
    run ⟨.argument, opened⟩ ls = run ⟨.operand, opened⟩ ls := by
  cases ls with
  | nil => rfl
  | cons l ls =>
    obtain ⟨token, q⟩ := l
    cases token <;> first | exact absurd rfl (h _ _) | rfl

/-- What follows an expression closes the innermost parenthesis or is refused. A comma does
neither among the arguments of a call. -/
theorem run_closed {α : Type} {n : Nat} {x : Parsed α n} {o : Opened}
    (hs : ¬ContinuesSum x.rest) (hp : ¬ContinuesProduct x.rest)
    (hc : o.isCall → ∀ p rest, x.rest ≠ ⟨.comma, p⟩ :: rest) :
    run ⟨.operator, o :: opened⟩ x.rest =
      andThen (closed o.position x) (run ⟨.operator, opened⟩) := by
  obtain ⟨value, rest, shorter⟩ := x
  cases rest with
  | nil => rfl
  | cons l rest =>
    obtain ⟨token, p⟩ := l
    obtain ⟨q, isCall⟩ := o
    cases token with
    | plus | minus => exact absurd trivial hs
    | star | slash => exact absurd trivial hp
    | comma =>
      cases isCall with
      | true => exact absurd rfl (hc rfl _ _)
      | false => rfl
    | _ => rfl

mutual

theorem run_expression (opened : List Opened) (ls : List Lexeme) :
    run ⟨.operand, opened⟩ ls = andThen (parseExpression ls) (run ⟨.operator, opened⟩) := by
  rw [run_term, parseExpression]
  cases parseTerm ls with
  | error e => rfl
  | ok first =>
    have shorter := first.shorter
    simp only [andThen]
    rw [run_sum first.value]
    cases parseSum first.value first.rest <;> rfl
termination_by (ls.length, 5)

theorem run_sum (left : Expr) (opened : List Opened) (ls : List Lexeme) :
    run ⟨.operator, opened⟩ ls = andThen (parseSum left ls) (run ⟨.operator, opened⟩) := by
  rw [parseSum.eq_def]
  split
  · exact run_sumTail left .add _ opened _
  · exact run_sumTail left .subtract _ opened _
  · rfl
termination_by (ls.length, 0)

theorem run_sumTail (left : Expr) (operator : BinaryOperator) (p : Position)
    (opened : List Opened) (ls : List Lexeme) : run ⟨.operand, opened⟩ ls =
      andThen (parseSumTail left operator p ls) (run ⟨.operator, opened⟩) := by
  rw [run_term, parseSumTail]
  cases parseTerm ls with
  | error e => rfl
  | ok right =>
    have shorter := right.shorter
    simp only [andThen]
    rw [run_sum (.binary operator left right.value p)]
    cases parseSum (.binary operator left right.value p) right.rest <;> rfl
termination_by (ls.length, 4)

theorem run_term (opened : List Opened) (ls : List Lexeme) :
    run ⟨.operand, opened⟩ ls = andThen (parseTerm ls) (run ⟨.operator, opened⟩) := by
  rw [run_factor, parseTerm]
  cases parseFactor ls with
  | error e => rfl
  | ok first =>
    have shorter := first.shorter
    simp only [andThen]
    rw [run_product first.value]
    cases parseProduct first.value first.rest <;> rfl
termination_by (ls.length, 3)

theorem run_product (left : Expr) (opened : List Opened) (ls : List Lexeme) :
    run ⟨.operator, opened⟩ ls = andThen (parseProduct left ls) (run ⟨.operator, opened⟩) := by
  rw [parseProduct.eq_def]
  split
  · exact run_productTail left .multiply _ opened _
  · exact run_productTail left .divide _ opened _
  · rfl
termination_by (ls.length, 0)

theorem run_productTail (left : Expr) (operator : BinaryOperator) (p : Position)
    (opened : List Opened) (ls : List Lexeme) : run ⟨.operand, opened⟩ ls =
      andThen (parseProductTail left operator p ls) (run ⟨.operator, opened⟩) := by
  rw [run_factor, parseProductTail]
  cases parseFactor ls with
  | error e => rfl
  | ok right =>
    have shorter := right.shorter
    simp only [andThen]
    rw [run_product (.binary operator left right.value p)]
    cases parseProduct (.binary operator left right.value p) right.rest <;> rfl
termination_by (ls.length, 2)

theorem run_factor (opened : List Opened) (ls : List Lexeme) :
    run ⟨.operand, opened⟩ ls = andThen (parseFactor ls) (run ⟨.operator, opened⟩) := by
  rw [parseFactor.eq_def]
  split
  · rfl
  · rfl
  · rename_i p rest _ _
    have operand : run ⟨.operand, opened⟩ (⟨.minus, p⟩ :: rest) = run ⟨.operand, opened⟩ rest := rfl
    rw [operand, run_factor]
    cases parseFactor rest <;> rfl
  · rename_i minus
    exact run_primary opened ls fun p rest h => minus p rest h
termination_by (ls.length, 1)

theorem run_primary (opened : List Opened) (ls : List Lexeme)
    (hm : ∀ p rest, ls ≠ ⟨.minus, p⟩ :: rest) :
    run ⟨.operand, opened⟩ ls = andThen (parsePrimary ls) (run ⟨.operator, opened⟩) := by
  rw [parsePrimary.eq_def]
  split
  · rfl
  · rfl
  · rfl
  · rfl
  · rfl
  · rename_i name p q rest
    split
    · rename_i hf
      simp [run, step, atOperand, hf, andThen]
    · rename_i function hf
      have arguments : run ⟨.operand, opened⟩ (⟨.identifier name, p⟩ :: ⟨.leftParen, q⟩ :: rest) =
          run ⟨.argument, ⟨q, true⟩ :: opened⟩ rest := by
        simp [run, step, atOperand, hf]
      rw [arguments, run_arguments]
      cases parseArguments q rest <;> rfl
  · rename_i paren
    exact run_call paren
  · rename_i q rest
    have group : run ⟨.operand, opened⟩ (⟨.leftParen, q⟩ :: rest) =
        run ⟨.operand, ⟨q, false⟩ :: opened⟩ rest := rfl
    rw [group, run_expression]
    cases hx : parseExpression rest with
    | error e => rfl
    | ok inner =>
      obtain ⟨sum, product⟩ := parseExpression_ends hx
      exact run_closed (x := inner.weaken (Nat.le_succ _)) (o := ⟨q, false⟩) sum product nofun
  · rename_i l rest integer real text quotedName _ identifier leftParen
    obtain ⟨token, p⟩ := l
    cases token with
    | integer i => exact absurd rfl (integer i p)
    | real x => exact absurd rfl (real x p)
    | text s => exact absurd rfl (text s p)
    | quotedName name => exact absurd rfl (quotedName name p)
    | identifier name => exact absurd rfl (identifier name p)
    | leftParen => exact absurd rfl (leftParen p)
    | minus => exact absurd rfl (hm p rest)
    | _ => rfl
termination_by (ls.length, 0)

theorem run_arguments (o : Position) (opened : List Opened) (ls : List Lexeme) :
    run ⟨.argument, ⟨o, true⟩ :: opened⟩ ls =
      andThen (parseArguments o ls) (run ⟨.operator, opened⟩) := by
  rw [parseArguments.eq_def]
  split
  · rfl
  · rename_i other
    rw [run_argument fun q rest h => other q rest h, run_items]
termination_by (ls.length, 7)

theorem run_items (o : Position) (opened : List Opened) (ls : List Lexeme) :
    run ⟨.operand, ⟨o, true⟩ :: opened⟩ ls =
      andThen (parseItems o ls) (run ⟨.operator, opened⟩) := by
  rw [run_expression, parseItems]
  cases hx : parseExpression ls with
  | error e => rfl
  | ok item =>
    have shorter := item.shorter
    obtain ⟨sum, product⟩ := parseExpression_ends hx
    dsimp only
    split
    · rename_i p after comma
      have fewer : after.length < ls.length := by
        rw [comma, List.length_cons] at shorter
        omega
      have more : run ⟨.operator, ⟨o, true⟩ :: opened⟩ item.rest =
          run ⟨.operand, ⟨o, true⟩ :: opened⟩ after := by
        rw [comma]
        rfl
      simp only [andThen]
      rw [more, run_items]
      cases parseItems o after <;> rfl
    · rename_i last
      exact run_closed (x := ⟨[item.value], item.rest, item.shorter⟩) sum product
        fun _ p rest h => last p rest h
termination_by (ls.length, 6)

end

/-- On a text that does not end at once the two come to one verdict. -/
theorem run_eq_parse (hn : ls ≠ []) (he : ∀ p rest, ls ≠ ⟨.endOfText, p⟩ :: rest) :
    run start ls = (parse ls).map fun _ => () := by
  rw [start, run_expression, parse.eq_def]
  split
  · exact absurd rfl hn
  · exact absurd rfl (he _ _)
  · cases hx : parseExpression ls with
    | error e => rfl
    | ok x =>
      obtain ⟨sum, product⟩ := parseExpression_ends hx
      obtain ⟨value, rest, shorter⟩ := x
      cases rest with
      | nil => rfl
      | cons l rest =>
        obtain ⟨token, p⟩ := l
        cases token with
        | plus | minus => exact absurd trivial sum
        | star | slash => exact absurd trivial product
        | _ => rfl

theorem run_eq_ok_iff : run start ls = .ok () ↔ ∃ e, parse ls = .ok e := by
  by_cases hn : ls = []
  · subst hn
    exact ⟨nofun, nofun⟩
  by_cases he : ∃ p rest, ls = ⟨.endOfText, p⟩ :: rest
  · obtain ⟨p, rest, rfl⟩ := he
    exact ⟨nofun, nofun⟩
  · have same := run_eq_parse hn fun p rest h => he ⟨p, rest, h⟩
    rw [same]
    cases parse ls with
    | error e => exact ⟨nofun, nofun⟩
    | ok e => exact ⟨fun _ => ⟨e, rfl⟩, fun _ => rfl⟩

end Expectation

end ColumnFormula
