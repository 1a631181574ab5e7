import Mathlib
import ColumnFormula.Proofs.Expectation

/-!
# Where a syntax error is reported

A syntax error names the first lexeme that no equation can go on with: what stands before it
begins some equation, what ends with it begins none (`parse_blames`). Where the text ends too
early, the whole of it begins an equation.

Every place that a reader reaches can be completed (`Reaches.completable`), by an operand where
one is due and by closing what is open. A lexeme that the reader refuses is refused whatever
comes after it (`Reaches.not_viable`).
-/

namespace ColumnFormula

/-! ## Beginnings of equations -/

/-- The lexemes are those of an expression. -/
def IsEquation (ls : List Lexeme) : Prop := ∃ e, Spells (.expression e) ls []

/-- The lexemes are the beginning of an equation. -/
def Viable (ls : List Lexeme) : Prop := ∃ more, IsEquation (ls ++ more)

/-- Numbers and closing parentheses make an equation of the lexemes. -/
def Completable (ls : List Lexeme) : Prop :=
  ∃ more, (∀ l ∈ more, l.token = .integer 1 ∨ l.token = .rightParen) ∧ IsEquation (ls ++ more)

/-- The parentheses that are open after a lexeme. -/
def openNext (opened : List Position) (l : Lexeme) : List Position :=
  match l.token with
  | .leftParen => l.position :: opened
  | .rightParen => opened.tail
  | _ => opened

/-- Where the parentheses stand that the lexemes leave open, the innermost first. -/
def openParens (ls : List Lexeme) : List Position := ls.foldl openNext []

/-- What a syntax error says of lexemes `ts` before the end of the text at `p`. -/
def SyntaxError.Blames (ts : List Lexeme) (p : Position) : SyntaxError → Prop
  | unexpectedToken token q | trailingToken token q => ∃ before after,
    ts = before ++ ⟨token, q⟩ :: after ∧ Completable before ∧ ¬Viable (before ++ [⟨token, q⟩])
  | unknownFunction name q => ∃ before r after,
    ts = before ++ ⟨.identifier name, q⟩ :: ⟨.leftParen, r⟩ :: after ∧ Completable before ∧
      ∀ function : Builtin, function.name.toList ≠ name.toList.map Char.toLower
  | unexpectedEnd q => q = p ∧ ¬IsEquation ts ∧ Completable ts
  | unclosedParen q => (openParens ts).head? = some q ∧ ¬IsEquation ts ∧ Completable ts
  | emptyEquation => ts = []
  | unexpectedCharacter _ _ | unterminatedText _ _ | unterminatedName _ _ | invalidNumber _ _ =>
    False

namespace IsEquation

open ColumnFormula.Expr

variable {ls : List Lexeme}

theorem run_eq (h : IsEquation ls) : Expectation.start.run ls = .ok () := by
  obtain ⟨e, spells⟩ := h
  exact Expectation.run_eq_ok_iff.2 ⟨e, parse_of_spells spells nofun⟩

theorem of_run_eq (hls : ∀ l ∈ ls, l.token ≠ .endOfText)
    (h : Expectation.start.run ls = .ok ()) : IsEquation ls := by
  obtain ⟨e, read⟩ := Expectation.run_eq_ok_iff.1 h
  have spells := exists_spells_iff.1 (parse_spells read)
  have whole : beforeEnd (ls ++ []) = ls := beforeEnd_append hls nofun
  rw [List.append_nil] at whole
  exact ⟨e, whole ▸ spells⟩

end IsEquation

namespace Expectation

variable {x y : Expectation} {ls ts : List Lexeme} {l : Lexeme} {e : SyntaxError} {p : Position}

/-! ## One step -/

theorem atOperand_error {opened : List Opened} (h : atOperand opened l = .error e) :
    e = .unexpectedToken l.token l.position := by
  obtain ⟨token, q⟩ := l
  cases token <;> cases h
  all_goals rfl

theorem atOperator_error {opened : List Opened} (h : atOperator opened l = .error e) :
    e = .unexpectedToken l.token l.position ∨ e = .trailingToken l.token l.position := by
  unfold atOperator at h
  split at h <;> cases h
  · exact .inr rfl
  · exact .inl rfl

/-- A step is refused at its lexeme, or at the name of the call that the lexeme opens. -/
theorem step_error (h : x.step l = .error e) :
    e = .unexpectedToken l.token l.position ∨ e = .trailingToken l.token l.position ∨
      ∃ name p, x.next = .call name p ∧ l.token = .leftParen ∧ Builtin.ofName? name = none ∧
        e = .unknownFunction name p := by
  unfold step at h
  split at h
  · exact .inl (atOperand_error h)
  · cases h
  · exact .inl (atOperand_error h)
  · rename_i name q next paren
    split at h
    · cases h
    · rename_i unknown
      cases h
      exact .inr (.inr ⟨name, q, next, paren, unknown, rfl⟩)
  · exact (atOperator_error h).imp_right .inl
  · exact (atOperator_error h).imp_right .inl

/-- What a lexeme makes of the open parentheses, and what a call is awaited after. -/
structure Passes (opened : List Opened) (l : Lexeme) (y : Expectation) : Prop where
  opened : y.opened.map Opened.position = openNext (opened.map Opened.position) l
  called : ∀ name p, y.next = .call name p → l = ⟨.identifier name, p⟩

theorem passes_of_atOperand {opened : List Opened} (h : atOperand opened l = .ok y) :
    Passes opened l y := by
  obtain ⟨token, q⟩ := l
  cases token with
  | identifier name =>
    cases h
    exact ⟨rfl, fun _ _ h => by cases h; rfl⟩
  | _ =>
    cases h
    all_goals exact ⟨rfl, nofun⟩

theorem passes_of_atOperator {opened : List Opened} (h : atOperator opened l = .ok y) :
    Passes opened l y := by
  unfold atOperator at h
  split at h <;> cases h
  all_goals exact ⟨by simp [openNext, *], nofun⟩

theorem passes_of_step (h : x.step l = .ok y) : Passes x.opened l y := by
  unfold step at h
  split at h
  · exact passes_of_atOperand h
  · rename_i paren
    cases h
    exact ⟨by simp [openNext, paren, List.map_tail], nofun⟩
  · exact passes_of_atOperand h
  · rename_i paren
    split at h
    · cases h
      exact ⟨by simp [openNext, paren], nofun⟩
    · cases h
  · exact passes_of_atOperator h
  · exact passes_of_atOperator h

theorem finish_error (h : x.finish p = .error e) :
    e = .unexpectedEnd p ∨ ∃ o outer, x.opened = o :: outer ∧ e = .unclosedParen o.position := by
  unfold finish at h
  split at h <;> cases h
  · exact .inl rfl
  · exact .inl rfl
  · exact .inr ⟨_, _, by assumption, rfl⟩
  · exact .inr ⟨_, _, by assumption, rfl⟩

/-- Where a text may end does not change whether it may. -/
theorem finish_ne_ok {q : Position} (h : x.finish p = .error e) : x.finish q ≠ .ok () := by
  obtain ⟨next, opened⟩ := x
  intro ended
  cases next with
  | operand | argument => cases ended
  | operator | call name q =>
    cases opened with
    | nil => cases h
    | cons o outer => cases ended

/-! ## Reaching a place -/

/-- The reader gets through the lexemes, to `x`. -/
inductive Reaches : List Lexeme → Expectation → Prop where
  | nil : Reaches [] start
  | snoc {ls : List Lexeme} {l : Lexeme} {x y : Expectation} : Reaches ls x →
      l.token ≠ .endOfText → x.step l = .ok y → Reaches (ls ++ [l]) y

namespace Reaches

theorem unended (h : Reaches ls x) : ∀ l ∈ ls, l.token ≠ .endOfText := by
  induction h with
  | nil => exact nofun
  | snoc _ ht _ ih => exact List.forall_mem_append.2 ⟨ih, List.forall_mem_singleton.2 ht⟩

theorem run_append (h : Reaches ls x) (after : List Lexeme) :
    start.run (ls ++ after) = x.run after := by
  induction h generalizing after with
  | nil => rfl
  | snoc _ ht hs ih => rw [List.append_assoc, ih, List.singleton_append, run_cons ht, hs]

theorem opened_eq (h : Reaches ls x) : x.opened.map Opened.position = openParens ls := by
  induction h with
  | nil => rfl
  | snoc _ _ hs ih =>
    rw [(passes_of_step hs).opened, ih, openParens, openParens, List.foldl_append]
    rfl

/-- Behind an identifier, the reader came through what stands before it. -/
theorem before_call {name : String} (h : Reaches ls x) (hx : x.next = .call name p) :
    ∃ before y, ls = before ++ [⟨.identifier name, p⟩] ∧ Reaches before y := by
  cases h with
  | nil => cases hx
  | snoc before _ hs => exact ⟨_, _, by rw [(passes_of_step hs).called _ _ hx], before⟩

/-- What the reader refuses is refused whatever comes after it. -/
theorem not_viable (h : Reaches ls x) (ht : l.token ≠ .endOfText) (hl : x.step l = .error e) :
    ¬Viable (ls ++ [l]) := by
  rintro ⟨more, equation⟩
  have accepted := equation.run_eq
  rw [List.append_assoc, h.run_append, List.singleton_append, run_cons ht, hl] at accepted
  cases accepted

theorem not_isEquation (h : Reaches ls x) (hx : x.finish p = .error e) : ¬IsEquation ls := by
  intro equation
  have accepted := h.run_append []
  rw [List.append_nil, equation.run_eq] at accepted
  exact finish_ne_ok hx accepted.symm

end Reaches

/-! ## Completing what was read -/

/-- A number where an operand is due, and an end to what is open. -/
def completion (x : Expectation) : List Lexeme :=
  let closing := x.opened.map fun _ => ⟨.rightParen, .start⟩
  match x.next with
  | .operand | .argument => ⟨.integer 1, .start⟩ :: closing
  | .operator | .call _ _ => closing

theorem mem_completion (h : l ∈ x.completion) : l.token = .integer 1 ∨ l.token = .rightParen := by
  have closing : l ∈ x.opened.map (fun _ => (⟨.rightParen, .start⟩ : Lexeme)) →
      l.token = .rightParen := by
    rw [List.mem_map]
    rintro ⟨_, _, rfl⟩
    rfl
  unfold completion at h
  split at h
  · exact (List.mem_cons.1 h).imp (congrArg Lexeme.token) closing
  · exact (List.mem_cons.1 h).imp (congrArg Lexeme.token) closing
  · exact .inr (closing h)
  · exact .inr (closing h)

theorem run_closing (opened : List Opened) :
    run ⟨.operator, opened⟩ (opened.map fun _ => ⟨.rightParen, .start⟩) = .ok () := by
  induction opened with
  | nil => rfl
  | cons o outer ih => exact ih

theorem run_completion (x : Expectation) : x.run x.completion = .ok () := by
  obtain ⟨next, opened⟩ := x
  cases next with
  | operand | argument | operator => exact run_closing opened
  | call name p =>
    refine Eq.trans (run_call fun q rest => ?_) (run_closing opened)
    cases opened <;> exact nofun

/-- Whatever the reader gets through can be completed. -/
theorem Reaches.completable (h : Reaches ls x) : Completable ls := by
  refine ⟨x.completion, fun l => mem_completion, ?_⟩
  refine .of_run_eq (List.forall_mem_append.2 ⟨h.unended, fun l hl => ?_⟩) ?_
  · rcases mem_completion hl with ht | ht <;> rw [ht] <;> exact nofun
  · rw [h.run_append, run_completion]

/-! ## Whole texts -/

/-- An error comes from a lexeme that the reader refuses or from the end of the text. -/
theorem Reaches.run_error {before : List Lexeme} (h : Reaches before x)
    (ht : ∀ l ∈ ts, l.token ≠ .endOfText) (he : x.run (ts ++ [⟨.endOfText, p⟩]) = .error e) :
    (∃ read l after y, ts = read ++ l :: after ∧ l.token ≠ .endOfText ∧
      Reaches (before ++ read) y ∧ y.step l = .error e) ∨
    ∃ y, Reaches (before ++ ts) y ∧ y.finish p = .error e := by
  induction ts generalizing before x with
  | nil => exact .inr ⟨x, by rwa [List.append_nil], he⟩
  | cons l ts ih =>
    obtain ⟨hl, hts⟩ := List.forall_mem_cons.1 ht
    rw [List.cons_append, run_cons hl] at he
    cases hs : x.step l with
    | error e' =>
      rw [hs] at he
      cases he
      exact .inl ⟨[], l, ts, x, rfl, hl, by rwa [List.append_nil], hs⟩
    | ok y =>
      rw [hs] at he
      have further := ih (h.snoc hl hs) hts he
      rw [List.append_assoc, List.singleton_append] at further
      rcases further with ⟨read, m, after, z, rfl, hm, reached, refused⟩ | ended
      · exact .inl ⟨l :: read, m, after, z, rfl, hm, by simpa using reached, refused⟩
      · exact .inr ended

end Expectation

namespace Expr

open Expectation

/-- A syntax error names the first lexeme that no equation can go on with, or the end of a text
that some equation goes on from. -/
theorem parse_blames {ts : List Lexeme} (p : Position) (h : ∀ l ∈ ts, l.token ≠ .endOfText)
    {e : SyntaxError} (he : parse (ts ++ [⟨.endOfText, p⟩]) = .error e) : e.Blames ts p := by
  by_cases hts : ts = []
  · subst hts
    cases he
    rfl
  have refused : start.run (ts ++ [⟨.endOfText, p⟩]) = .error e := by
    rw [run_eq_parse (by simp), he]
    · rfl
    · rintro q rest hq
      obtain ⟨l, ts, rfl⟩ := List.exists_cons_of_ne_nil hts
      obtain ⟨rfl, -⟩ := List.cons.inj hq
      exact h _ List.mem_cons_self rfl
  rcases Reaches.nil.run_error h refused with ⟨before, l, after, x, rfl, ht, reached, hx⟩ |
    ⟨x, reached, hx⟩
  · have hopeless := reached.not_viable ht hx
    rcases step_error hx with rfl | rfl | ⟨name, q, next, paren, unknown, rfl⟩
    · exact ⟨before, after, rfl, reached.completable, hopeless⟩
    · exact ⟨before, after, rfl, reached.completable, hopeless⟩
    · obtain ⟨earlier, y, rfl, came⟩ := reached.before_call next
      obtain ⟨token, r⟩ := l
      obtain rfl : token = .leftParen := paren
      refine ⟨earlier, r, after, by simp, came.completable, fun function named => ?_⟩
      rw [Builtin.ofName?_eq_some_iff.2 named] at unknown
      cases unknown
  · have ended := reached.not_isEquation hx
    rcases finish_error hx with rfl | ⟨o, outer, opened, rfl⟩
    · exact ⟨rfl, ended, reached.completable⟩
    · refine ⟨?_, ended, reached.completable⟩
      have innermost := reached.opened_eq
      rw [opened] at innermost
      exact innermost ▸ rfl

/-- The innermost parenthesis that is open is the one around the second argument. -/
theorem parse_blames_nested :
    let ts : List Lexeme := [⟨.identifier "pow", ⟨1, 1⟩⟩, ⟨.leftParen, ⟨1, 4⟩⟩,
      ⟨.integer 2, ⟨1, 5⟩⟩, ⟨.comma, ⟨1, 6⟩⟩, ⟨.leftParen, ⟨1, 8⟩⟩, ⟨.integer 3, ⟨1, 9⟩⟩]
    (∀ l ∈ ts, l.token ≠ .endOfText) ∧
      parse (ts ++ [⟨.endOfText, ⟨1, 10⟩⟩]) = .error (.unclosedParen ⟨1, 8⟩) ∧
      (SyntaxError.unclosedParen ⟨1, 8⟩).Blames ts ⟨1, 10⟩ := by
  intro ts
  have unended : ∀ l ∈ ts, l.token ≠ .endOfText := by simp [ts]
  have refused : parse (ts ++ [⟨.endOfText, ⟨1, 10⟩⟩]) = .error (.unclosedParen ⟨1, 8⟩) := by cbv
  exact ⟨unended, refused, parse_blames ⟨1, 10⟩ unended refused⟩

end Expr

end ColumnFormula
