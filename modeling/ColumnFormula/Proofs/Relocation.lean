import ColumnFormula.Equation
import ColumnFormula.Proofs.Expectation
import ColumnFormula.Proofs.Layout

/-!
# Formulas laid out anew

Neither the structure of a formula nor its meaning depends on where its lexemes stand or on the
case of a function's name. Each step of compilation is shown to commute with forgetting them
(`bare`): the grammar (`Spells.bare`), the reader that finds syntax errors
(`Expectation.run_folded`) and resolution (`Expr.resolve_bare`). So texts that are laid out
differently compile to one formula or fail alike (`Equation.compile_relaid`).
-/

namespace ColumnFormula

/-- Outcomes that are the same up to `f` and `g` are both results or both errors. -/
theorem same_outcome {α β ε δ : Type} {f : α → β} {g : ε → δ} {x y : Except ε α}
    (h : (x.map f).mapError g = (y.map f).mapError g) :
    (∃ a b, x = .ok a ∧ y = .ok b ∧ f a = f b) ∨
      ∃ d e, x = .error d ∧ y = .error e ∧ g d = g e := by
  cases x with
  | error d =>
    cases y with
    | error e => exact .inr ⟨d, e, rfl, rfl, Except.error.inj h⟩
    | ok b => cases h
  | ok a =>
    cases y with
    | error e => cases h
    | ok b => exact .inl ⟨a, b, rfl, rfl, Except.ok.inj h⟩

/-! ## Names of functions -/

theorem lowerCase_lowerCase (name : String) : lowerCase (lowerCase name) = lowerCase name := by
  simp [lowerCase, Function.comp_def]

theorem Builtin.ofName?_lowerCase (name : String) :
    ofName? (lowerCase name) = ofName? name := by
  refine Option.ext fun f => ?_
  rw [ofName?_eq_some_iff, ofName?_eq_some_iff]
  simp [lowerCase, Function.comp_def]

/-! ## Forgetting places -/

/-- The lexemes at the start of a text, with the names of functions in lower case. -/
def Lexeme.bare (ls : List Lexeme) : List Lexeme :=
  (Token.lowerNames (ls.map Lexeme.token)).map (⟨·, .start⟩)

namespace Expr

mutual

def bare : Expr → Expr
  | literal value _ => literal value .start
  | var name _ => var name .start
  | prop name _ => prop name .start
  | negate operand _ => negate operand.bare .start
  | binary operator left right _ => binary operator left.bare right.bare .start
  | call function arguments _ => call function (bareAll arguments) .start

def bareAll : List Expr → List Expr
  | [] => []
  | e :: es => e.bare :: bareAll es

end

end Expr

def Phrase.bare : Phrase → Phrase
  | expression e => expression e.bare
  | term e => term e.bare
  | factor e => factor e.bare
  | primary e => primary e.bare
  | items es => items (Expr.bareAll es)

/-- The error without its place. Identifiers are in lower case. -/
def SyntaxError.bare : SyntaxError → SyntaxError
  | unexpectedCharacter character _ => unexpectedCharacter character .start
  | unterminatedText text _ => unterminatedText text .start
  | unterminatedName text _ => unterminatedName text .start
  | invalidNumber numeral _ => invalidNumber numeral .start
  | unexpectedToken token _ => unexpectedToken token.lowered .start
  | unexpectedEnd _ => unexpectedEnd .start
  | unclosedParen _ => unclosedParen .start
  | unknownFunction name _ => unknownFunction (lowerCase name) .start
  | trailingToken token _ => trailingToken token.lowered .start
  | emptyEquation => emptyEquation

def ResolveError.bare : ResolveError → ResolveError
  | argumentCount function expected found _ => argumentCount function expected found .start
  | argumentKinds function slot expected found _ =>
    argumentKinds function slot expected found .start
  | argumentShape function slot expected _ => argumentShape function slot expected .start
  | incomparable function left right _ => incomparable function left right .start
  | unknownVariable name _ => unknownVariable name .start
  | unknownProperty name _ => unknownProperty name .start

def Fault.bare : Fault → Fault
  | form error => form error.bare
  | meaning error => meaning error.bare
  | evaluation error => evaluation error

/-! ## Structure -/

namespace Lexeme

variable {l : Lexeme} {ls : List Lexeme}

theorem bare_cons : bare (l :: ls) =
    ⟨if (ls.map Lexeme.token).head? = some .leftParen then l.token.lowered else l.token, .start⟩ ::
      bare ls := rfl

/-- Only identifiers are written differently. -/
theorem bare_cons_of_lowered (h : l.token.lowered = l.token) :
    bare (l :: ls) = ⟨l.token, .start⟩ :: bare ls := by
  rw [bare_cons, h, ite_self]

theorem startsWithParen_iff :
    StartsWithParen ls ↔ (ls.map Lexeme.token).head? = some .leftParen := by
  cases ls with
  | nil => exact ⟨nofun, nofun⟩
  | cons l ls =>
    obtain ⟨token, p⟩ := l
    cases token <;> simp [StartsWithParen]

theorem bare_property {name : String} {p : Position} (h : ¬StartsWithParen ls) :
    bare (⟨.identifier name, p⟩ :: ls) = ⟨.identifier name, .start⟩ :: bare ls := by
  rw [bare_cons, if_neg fun paren => h (startsWithParen_iff.2 paren)]

theorem bare_function {name : String} {p q : Position} :
    bare (⟨.identifier name, p⟩ :: ⟨.leftParen, q⟩ :: ls) =
      ⟨.identifier (lowerCase name), .start⟩ :: ⟨.leftParen, .start⟩ :: bare ls := by
  rw [bare_cons, bare_cons_of_lowered rfl]
  rfl

theorem startsWithNumber_bare : StartsWithNumber (bare ls) ↔ StartsWithNumber ls := by
  cases ls with
  | nil => rfl
  | cons l ls =>
    obtain ⟨token, p⟩ := l
    rw [bare_cons]
    cases token <;> (simp only [Token.lowered, ite_self]; try rfl)
    split <;> rfl

theorem map_token_bare : (bare ls).map Lexeme.token = Token.lowerNames (ls.map Lexeme.token) := by
  simp [bare, Function.comp_def]

theorem startsWithParen_bare : StartsWithParen (bare ls) ↔ StartsWithParen ls := by
  rw [startsWithParen_iff, map_token_bare, Token.head?_lowerNames, startsWithParen_iff]

end Lexeme

open Lexeme in
theorem Spells.bare {phrase : Phrase} {ls rest : List Lexeme} (h : Spells phrase ls rest) :
    Spells phrase.bare (bare ls) (bare rest) := by
  induction h with
  | ofTerm _ ih => exact .ofTerm ih
  | @sum _ _ sign operator _ _ _ _ _ ho _ left right =>
    have plain : sign.lowered = sign := by cases sign <;> first | rfl | cases ho
    rw [bare_cons_of_lowered plain] at left
    exact .sum left ho right
  | ofFactor _ ih => exact .ofFactor ih
  | @product _ _ sign operator _ _ _ _ _ ho _ left right =>
    have plain : sign.lowered = sign := by cases sign <;> first | rfl | cases ho
    rw [bare_cons_of_lowered plain] at left
    exact .product left ho right
  | negativeInteger =>
    rw [bare_cons_of_lowered rfl, bare_cons_of_lowered rfl]
    exact .negativeInteger
  | negativeReal =>
    rw [bare_cons_of_lowered rfl, bare_cons_of_lowered rfl]
    exact .negativeReal
  | negate hn _ ih =>
    rw [bare_cons_of_lowered rfl]
    exact .negate (fun number => hn (startsWithNumber_bare.1 number)) ih
  | ofPrimary _ ih => exact .ofPrimary ih
  | integer =>
    rw [bare_cons_of_lowered rfl]
    exact .integer
  | real =>
    rw [bare_cons_of_lowered rfl]
    exact .real
  | text =>
    rw [bare_cons_of_lowered rfl]
    exact .text
  | quotedName =>
    rw [bare_cons_of_lowered rfl]
    exact .quotedName
  | identifier hp =>
    rw [bare_property hp]
    exact .identifier fun paren => hp (startsWithParen_bare.1 paren)
  | emptyCall hf =>
    rw [bare_function, bare_cons_of_lowered rfl]
    exact .emptyCall ((Builtin.ofName?_lowerCase _).trans hf)
  | call hf _ ih =>
    rw [bare_function]
    exact .call ((Builtin.ofName?_lowerCase _).trans hf) ih
  | group _ ih =>
    rw [bare_cons_of_lowered rfl] at ih ⊢
    exact .group ih
  | lastItem _ ih =>
    rw [bare_cons_of_lowered rfl] at ih
    exact .lastItem ih
  | item _ _ first others =>
    rw [bare_cons_of_lowered rfl] at first
    exact .item first others

/-! ## Syntax errors -/

/-- The lexeme at the start of a text, in lower case if it is an identifier. -/
def Lexeme.folded (l : Lexeme) : Lexeme := ⟨l.token.lowered, .start⟩

theorem Token.lowered_lowered (t : Token) : t.lowered.lowered = t.lowered := by
  cases t with
  | identifier name => rw [lowered, lowered, lowerCase_lowerCase]
  | _ => rfl

theorem Token.map_lowered_lowerNames (ts : List Token) :
    (lowerNames ts).map lowered = ts.map lowered := by
  induction ts with
  | nil => rfl
  | cons t ts ih =>
    rw [lowerNames, List.map_cons, List.map_cons, ih]
    split
    · rw [lowered_lowered]
    · rfl

theorem Lexeme.map_folded_bare (ls : List Lexeme) : (bare ls).map folded = ls.map folded := by
  have folds : ∀ ls : List Lexeme,
      ls.map folded = ((ls.map Lexeme.token).map Token.lowered).map (⟨·, .start⟩) := fun ls => by
    simp [Function.comp_def, folded]
  rw [folds, map_token_bare, Token.map_lowered_lowerNames, ← folds]

namespace Expectation

/-- What is known of the lexemes read, apart from their places. -/
def bare (x : Expectation) : Expectation :=
  ⟨match x.next with
    | .call name _ => .call (lowerCase name) .start
    | next => next,
   x.opened.map fun o => ⟨.start, o.isCall⟩⟩

theorem atOperand_folded (opened : List Opened) (l : Lexeme) :
    atOperand (opened.map fun o => ⟨.start, o.isCall⟩) l.folded =
      ((atOperand opened l).map bare).mapError SyntaxError.bare := by
  obtain ⟨token, p⟩ := l
  cases token <;> rfl

theorem atOperator_folded (opened : List Opened) (l : Lexeme) :
    atOperator (opened.map fun o => ⟨.start, o.isCall⟩) l.folded =
      ((atOperator opened l).map bare).mapError SyntaxError.bare := by
  obtain ⟨token, p⟩ := l
  cases opened with
  | nil => cases token <;> rfl
  | cons o outer =>
    obtain ⟨q, isCall⟩ := o
    cases token <;> cases isCall <;> rfl

theorem step_folded (x : Expectation) (l : Lexeme) :
    x.bare.step l.folded = ((x.step l).map bare).mapError SyntaxError.bare := by
  obtain ⟨next, opened⟩ := x
  cases next with
  | operand => exact atOperand_folded opened l
  | operator => exact atOperator_folded opened l
  | argument =>
    have operand := atOperand_folded opened l
    obtain ⟨token, p⟩ := l
    cases token with
    | rightParen => cases opened <;> rfl
    | _ => exact operand
  | call name q =>
    have operator := atOperator_folded opened l
    obtain ⟨token, p⟩ := l
    cases token with
    | leftParen =>
      simp only [step, bare, Lexeme.folded, Token.lowered, Builtin.ofName?_lowerCase]
      cases Builtin.ofName? name <;> rfl
    | _ => exact operator

theorem finish_folded (x : Expectation) (p : Position) :
    x.bare.finish .start = (x.finish p).mapError SyntaxError.bare := by
  obtain ⟨next, opened⟩ := x
  cases next <;> cases opened <;> rfl

theorem run_folded (x : Expectation) (ls : List Lexeme) :
    x.bare.run (ls.map Lexeme.folded) = (x.run ls).mapError SyntaxError.bare := by
  induction ls generalizing x with
  | nil => exact finish_folded x .start
  | cons l ls ih =>
    by_cases ended : l.token = .endOfText
    · obtain ⟨token, p⟩ := l
      obtain rfl : token = .endOfText := ended
      exact finish_folded x p
    · have ended' : l.folded.token ≠ .endOfText := by
        obtain ⟨token, p⟩ := l
        intro h
        cases token <;> first | exact ended rfl | cases h
      rw [List.map_cons, run_cons ended', run_cons ended, step_folded]
      cases x.step l with
      | error e => rfl
      | ok y => exact ih y

end Expectation

/-! ## Meaning -/

namespace Signature

theorem checkSlots_bare (function : String) (p : Position) (slot : Nat) (slots : List Slot)
    (xs : List Formula) : checkSlots function .start slot slots xs =
      (checkSlots function p slot slots xs).map ResolveError.bare := by
  induction slots generalizing slot xs with
  | nil => rfl
  | cons s slots ih =>
    cases xs with
    | nil => rfl
    | cons x xs =>
      unfold checkSlots
      split
      · rfl
      · split
        · rfl
        · exact ih (slot + 1) xs

theorem checkComparable_bare (function : String) (p : Position) (xs : List Formula) :
    checkComparable function .start xs =
      (checkComparable function p xs).map ResolveError.bare := by
  unfold checkComparable
  split
  · split <;> rfl
  · rfl

theorem check_bare (signature : Signature) (function : String) (p : Position)
    (xs : List Formula) : signature.check function .start xs =
      (signature.check function p xs).map ResolveError.bare := by
  unfold check
  split
  · rfl
  · rw [checkSlots_bare function p]
    cases checkSlots function p 1 signature.slots xs with
    | some e => rfl
    | none =>
      simp only [Option.map_none]
      split
      · exact checkComparable_bare function p xs
      · rfl

end Signature

namespace Formula

theorem operation?_bare (operator : Operator) (xs : List Formula) (p : Position) :
    operation? operator xs .start = (operation? operator xs p).mapError ResolveError.bare := by
  unfold operation?
  rw [Signature.check_bare _ _ p]
  cases operator.signature.check operator.symbol p xs <;> rfl

theorem call?_bare (function : Builtin) (xs : List Formula) (p : Position) :
    call? function xs .start = (call? function xs p).mapError ResolveError.bare := by
  unfold call?
  rw [Signature.check_bare _ _ p]
  cases function.signature.check function.name p xs <;> rfl

end Formula

namespace Expr

mutual

theorem resolve_bare (s : Schema) :
    ∀ e : Expr, e.bare.resolve s = (e.resolve s).mapError ResolveError.bare
  | literal value p => rfl
  | var name p => by
    rw [bare, resolve, resolve]
    cases s.variableType? name <;> rfl
  | prop name p => by
    rw [bare, resolve, resolve]
    cases s.propertyColumn? name <;> rfl
  | negate operand p => by
    rw [bare, resolve, resolve, resolve_bare s operand]
    cases operand.resolve s with
    | error e => rfl
    | ok x => exact Formula.operation?_bare .negate [x] p
  | binary operator left right p => by
    rw [bare, resolve, resolve, resolve_bare s left, resolve_bare s right]
    cases left.resolve s with
    | error e => rfl
    | ok x =>
      cases right.resolve s with
      | error e => rfl
      | ok y => exact Formula.operation?_bare operator.operator [x, y] p
  | call function arguments p => by
    rw [bare, resolve, resolve, resolveAll_bare s arguments]
    cases resolveAll s arguments with
    | error e => rfl
    | ok xs => exact Formula.call?_bare function xs p

theorem resolveAll_bare (s : Schema) :
    ∀ es : List Expr, resolveAll s (bareAll es) = (resolveAll s es).mapError ResolveError.bare
  | [] => rfl
  | e :: es => by
    rw [bareAll, resolveAll, resolveAll, resolve_bare s e, resolveAll_bare s es]
    cases e.resolve s with
    | error e => rfl
    | ok x => cases resolveAll s es <;> rfl

end

end Expr

/-! ## Whole texts -/

namespace Expr

variable {ls ls' : List Lexeme}

theorem parse_bare {e : Expr} (h : parse ls = .ok e) : parse (Lexeme.bare ls) = .ok e.bare := by
  obtain ⟨rest, spells, ended⟩ := parse_spells h
  refine parse_of_spells spells.bare ?_
  cases rest with
  | nil => exact nofun
  | cons l rest =>
    have last := ended l rfl
    rw [Lexeme.bare_cons_of_lowered (by rw [last]; rfl)]
    exact fun _ h => Option.some.inj h ▸ last

theorem ended_bare : Ended (Lexeme.bare ls) ↔ Ended ls := by
  cases ls with
  | nil => rfl
  | cons l ls =>
    obtain ⟨token, p⟩ := l
    rw [Lexeme.bare_cons]
    unfold Ended
    split
    · cases token <;> simp [Token.lowered]
    · simp

theorem parse_ended (h : Ended ls) : parse ls = .error .emptyEquation := by
  cases ls with
  | nil => rfl
  | cons l ls =>
    obtain ⟨token, p⟩ := l
    obtain rfl : token = .endOfText := h _ rfl
    rfl

theorem run_of_not_ended (h : ¬Ended ls) :
    Expectation.start.run ls = (parse ls).map fun _ => () := by
  refine Expectation.run_eq_parse ?_ fun p rest same => h ?_
  · rintro rfl
    exact h nofun
  · rw [same]
    exact fun _ h => Option.some.inj h ▸ rfl

/-- Lexemes that differ in their places and in the case of functions' names parse alike. -/
theorem parse_congr (h : Lexeme.bare ls = Lexeme.bare ls') :
    ((parse ls).map bare).mapError SyntaxError.bare =
      ((parse ls').map bare).mapError SyntaxError.bare := by
  by_cases ended : Ended ls
  · have ended' : Ended ls' := ended_bare.1 (h ▸ ended_bare.2 ended)
    rw [parse_ended ended, parse_ended ended']
  · have ended' : ¬Ended ls' := fun e => ended (ended_bare.1 (h ▸ ended_bare.2 e))
    have folded : ls.map Lexeme.folded = ls'.map Lexeme.folded := by
      rw [← Lexeme.map_folded_bare, h, Lexeme.map_folded_bare]
    have verdicts : (Expectation.start.run ls).mapError SyntaxError.bare =
        (Expectation.start.run ls').mapError SyntaxError.bare := by
      rw [← Expectation.run_folded, ← Expectation.run_folded, folded]
    rw [run_of_not_ended ended, run_of_not_ended ended'] at verdicts
    rcases same_outcome verdicts with ⟨e, e', hr, hr', -⟩ | ⟨d, d', hr, hr', same⟩
    · have same := parse_bare hr
      rw [h, parse_bare hr'] at same
      rw [hr, hr']
      exact same.symm
    · rw [hr, hr']
      exact congrArg Except.error same

/-- Expressions that differ in their places only resolve alike. -/
theorem resolve_congr (s : Schema) {e e' : Expr} (h : e.bare = e'.bare) :
    (e.resolve s).mapError ResolveError.bare = (e'.resolve s).mapError ResolveError.bare := by
  rw [← resolve_bare, h, resolve_bare]

end Expr

namespace Equation

open WordClass

theorem map_root_compile (s : Schema) {text : String} {ls : List Lexeme}
    (hs : Lexeme.scan text = .ok ls) : (compile s text).map root =
      match Expr.parse ls with
      | .error e => .error (.form e)
      | .ok e => (e.resolve s).mapError .meaning := by
  unfold compile
  rw [hs]
  dsimp only
  cases Expr.parse ls with
  | error e => rfl
  | ok e => cases h : e.resolve s <;> simp [h, Except.map, Except.mapError]

theorem compile_congr (s : Schema) {text text' : String} {ls ls' : List Lexeme}
    (hs : Lexeme.scan text = .ok ls) (hs' : Lexeme.scan text' = .ok ls')
    (h : Token.lowerNames (ls'.map Lexeme.token) = Token.lowerNames (ls.map Lexeme.token)) :
    ((compile s text).map root).mapError Fault.bare =
      ((compile s text').map root).mapError Fault.bare := by
  have bare : Lexeme.bare ls = Lexeme.bare ls' := by rw [Lexeme.bare, Lexeme.bare, h]
  have parsed := Expr.parse_congr bare
  rw [map_root_compile s hs, map_root_compile s hs']
  rcases same_outcome parsed with ⟨e, e', hr, hr', same⟩ | ⟨d, d', hr, hr', same⟩
  · have resolved := Expr.resolve_congr s same
    have meaning : ∀ r : Except ResolveError Formula,
        (r.mapError Fault.meaning).mapError Fault.bare =
          (r.mapError ResolveError.bare).mapError Fault.meaning := fun r => by cases r <;> rfl
    rw [hr, hr']
    dsimp only
    rw [meaning, meaning, resolved]
  · rw [hr, hr']
    exact congrArg (Except.error ∘ Fault.form) same

/-- The same formula and name of its column, or the same error apart from places and from the
case of identifiers. -/
def Alike : Except Fault Equation → Except Fault Equation → Prop
  | .ok e, .ok e' => e'.root = e.root ∧ e'.columnName = e.columnName
  | .error f, .error f' => f'.bare = f.bare
  | _, _ => False

/-- Layout and the case of functions' names do not matter: a text laid out anew has the same
tokens and compiles to the same formula, or fails with the same error. -/
theorem compile_relaid (s : Schema) {text text' : String} {ls : List Lexeme}
    (hs : Lexeme.scan text = .ok ls) (h : Relaid text.toList text'.toList) :
    (∃ ls', Lexeme.scan text' = .ok ls' ∧
      Token.lowerNames (ls'.map Lexeme.token) = Token.lowerNames (ls.map Lexeme.token)) ∧
    Alike (compile s text) (compile s text') := by
  obtain ⟨ts, p, reads, rfl⟩ := Lexeme.reads_of_scanFrom hs
  obtain ⟨tokens', read', same⟩ := h.tokensOf reads.tokensOf
  obtain ⟨ts', p', reads', rfl⟩ := read'.exists_reads .start
  have hs' : Lexeme.scan text' = .ok (ts' ++ [⟨.endOfText, p'⟩]) := reads'.scanFrom_end
  have names : Token.lowerNames ((ts' ++ [Lexeme.mk .endOfText p']).map Lexeme.token) =
      Token.lowerNames ((ts ++ [Lexeme.mk .endOfText p]).map Lexeme.token) := by
    simp only [List.map_append, List.map_cons, List.map_nil, Token.lowerNames_concat_end, same]
  refine ⟨⟨_, hs', names⟩, ?_⟩
  rcases same_outcome (compile_congr s hs hs' names) with
    ⟨e, e', hc, hc', root⟩ | ⟨f, f', hc, hc', bare⟩
  · rw [hc, hc']
    exact ⟨root.symm, congrArg Formula.columnName root.symm⟩
  · rw [hc, hc']
    exact bare.symm

theorem compile_relaid_shouted :
    Relaid "abs(1)".toList "\tABS\r\n( 1)\n".toList ∧
      (∃ ls', Lexeme.scan "\tABS\r\n( 1)\n" = .ok ls' ∧ Token.lowerNames (ls'.map Lexeme.token) =
        [.identifier "abs", .leftParen, .integer 1, .rightParen, .endOfText]) ∧
      Alike (compile .empty "abs(1)") (compile .empty "\tABS\r\n( 1)\n") := by
  have scanned : Lexeme.scan "abs(1)" = .ok [⟨.identifier "abs", ⟨1, 1⟩⟩, ⟨.leftParen, ⟨1, 4⟩⟩,
      ⟨.integer 1, ⟨1, 5⟩⟩, ⟨.rightParen, ⟨1, 6⟩⟩, ⟨.endOfText, ⟨1, 7⟩⟩] := by cbv
  have white : White ['\t'] ∧ White ['\r', '\n'] ∧ White [' '] ∧ White ['\n'] ∧ White [] := by
    simp [White, whites]
  obtain ⟨tab, crlf, space, feed, none⟩ := white
  have name : Longest identifier ['a', 'b', 's'] ['(', '1', ')'] := longest_of_found rfl
  have opening : Longest sign ['('] ['1', ')'] := longest_of_found rfl
  have one : Longest integer ['1'] [')'] := longest_of_found rfl
  have closing : Longest sign [')'] [] := longest_of_found rfl
  have shouted : Respelled identifier ['(', '1', ')'] ['a', 'b', 's'] ['A', 'B', 'S'] :=
    .inr ⟨rfl, ⟨[], ['1', ')'], none, rfl⟩, rfl⟩
  have relaid := Relaid.word tab name shouted (.word crlf opening (.inl rfl)
    (.word space one (.inl rfl) (.word none closing (.inl rfl) (.done feed))))
  exact ⟨relaid, compile_relaid .empty scanned relaid⟩

end Equation

end ColumnFormula
