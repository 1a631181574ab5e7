import ColumnFormula.Grammar.Parse

/-!
# The grammar

`Spells` is the grammar of expressions as a relation: a phrase with what it stands for, the
lexemes from its start on and the lexemes after it. Sums and products group to the left. What
the parser reads is spelled by what it read it from (`parse_spells`), and holds no text that
is not among the lexemes (`Spells.mem_of_texts`).
-/

namespace ColumnFormula

/-- A kind of phrase with what it stands for. -/
inductive Phrase where
  | expression (e : Expr)
  | term (e : Expr)
  | factor (e : Expr)
  | primary (e : Expr)
  | items (es : List Expr)

/-- The operators between terms. -/
def BinaryOperator.isSum : Token → BinaryOperator → Prop
  | .plus, .add | .minus, .subtract => True
  | _, _ => False

/-- The operators between factors. -/
def BinaryOperator.isProduct : Token → BinaryOperator → Prop
  | .star, .multiply | .slash, .divide => True
  | _, _ => False

/-- The lexemes begin with a number. -/
def StartsWithNumber : List Lexeme → Prop
  | ⟨.integer _, _⟩ :: _ | ⟨.real _, _⟩ :: _ => True
  | _ => False

def StartsWithParen : List Lexeme → Prop
  | ⟨.leftParen, _⟩ :: _ => True
  | _ => False

inductive Spells : Phrase → List Lexeme → List Lexeme → Prop where
  | ofTerm {e : Expr} {ls rest : List Lexeme} : Spells (.term e) ls rest →
      Spells (.expression e) ls rest
  | sum {left right : Expr} {sign : Token} {operator : BinaryOperator} {p : Position}
      {ls middle rest : List Lexeme} : Spells (.expression left) ls (⟨sign, p⟩ :: middle) →
      operator.isSum sign → Spells (.term right) middle rest →
      Spells (.expression (.binary operator left right p)) ls rest
  | ofFactor {e : Expr} {ls rest : List Lexeme} : Spells (.factor e) ls rest →
      Spells (.term e) ls rest
  | product {left right : Expr} {sign : Token} {operator : BinaryOperator} {p : Position}
      {ls middle rest : List Lexeme} : Spells (.term left) ls (⟨sign, p⟩ :: middle) →
      operator.isProduct sign → Spells (.factor right) middle rest →
      Spells (.term (.binary operator left right p)) ls rest
  | negativeInteger {i : Int64} {p q : Position} {rest : List Lexeme} :
      Spells (.factor (.literal (.integer (-i)) p)) (⟨.minus, p⟩ :: ⟨.integer i, q⟩ :: rest) rest
  | negativeReal {x : Float} {p q : Position} {rest : List Lexeme} :
      Spells (.factor (.literal (.real (-x)) p)) (⟨.minus, p⟩ :: ⟨.real x, q⟩ :: rest) rest
  | negate {e : Expr} {p : Position} {ls rest : List Lexeme} : ¬StartsWithNumber ls →
      Spells (.factor e) ls rest → Spells (.factor (.negate e p)) (⟨.minus, p⟩ :: ls) rest
  | ofPrimary {e : Expr} {ls rest : List Lexeme} : Spells (.primary e) ls rest →
      Spells (.factor e) ls rest
  | integer {i : Int64} {p : Position} {rest : List Lexeme} :
      Spells (.primary (.literal (.integer i) p)) (⟨.integer i, p⟩ :: rest) rest
  | real {x : Float} {p : Position} {rest : List Lexeme} :
      Spells (.primary (.literal (.real x) p)) (⟨.real x, p⟩ :: rest) rest
  | text {s : String} {p : Position} {rest : List Lexeme} :
      Spells (.primary (.literal (.text s) p)) (⟨.text s, p⟩ :: rest) rest
  | quotedName {name : String} {p : Position} {rest : List Lexeme} :
      Spells (.primary (.var name p)) (⟨.quotedName name, p⟩ :: rest) rest
  | identifier {name : String} {p : Position} {rest : List Lexeme} : ¬StartsWithParen rest →
      Spells (.primary (.prop name p)) (⟨.identifier name, p⟩ :: rest) rest
  | emptyCall {name : String} {function : Builtin} {p q r : Position} {rest : List Lexeme} :
      Builtin.ofName? name = some function →
      Spells (.primary (.call function [] p))
        (⟨.identifier name, p⟩ :: ⟨.leftParen, q⟩ :: ⟨.rightParen, r⟩ :: rest) rest
  | call {name : String} {function : Builtin} {es : List Expr} {p q : Position}
      {ls rest : List Lexeme} : Builtin.ofName? name = some function →
      Spells (.items es) ls rest →
      Spells (.primary (.call function es p))
        (⟨.identifier name, p⟩ :: ⟨.leftParen, q⟩ :: ls) rest
  | group {e : Expr} {p q : Position} {ls rest : List Lexeme} :
      Spells (.expression e) ls (⟨.rightParen, q⟩ :: rest) →
      Spells (.primary e) (⟨.leftParen, p⟩ :: ls) rest
  | lastItem {e : Expr} {q : Position} {ls rest : List Lexeme} :
      Spells (.expression e) ls (⟨.rightParen, q⟩ :: rest) → Spells (.items [e]) ls rest
  | item {e : Expr} {es : List Expr} {q : Position} {ls middle rest : List Lexeme} :
      Spells (.expression e) ls (⟨.comma, q⟩ :: middle) → Spells (.items es) middle rest →
      Spells (.items (e :: es)) ls rest

namespace Expr

/-! ## The parser reads by the grammar -/

theorem closed_eq {α : Type} {n : Nat} {opening : Position} {x y : Parsed α n}
    (h : closed opening x = .ok y) :
    y.value = x.value ∧ ∃ q, x.rest = ⟨.rightParen, q⟩ :: y.rest := by
  unfold closed at h
  split at h
  · rename_i q after hr
    cases h
    exact ⟨rfl, q, hr⟩
  · cases h

mutual

theorem parseExpression_spells {ls : List Lexeme} {x : Parsed Expr ls.length}
    (h : parseExpression ls = .ok x) : Spells (.expression x.value) ls x.rest := by
  rw [parseExpression] at h
  split at h
  · cases h
  · rename_i first hf
    have shorter := first.shorter
    split at h
    · cases h
    · rename_i whole hw
      cases h
      exact parseSum_spells (.ofTerm (parseTerm_spells hf)) hw
termination_by (ls.length, 5)

theorem parseSum_spells {left : Expr} {start ls : List Lexeme}
    {x : Parsed Expr (ls.length + 1)} (hl : Spells (.expression left) start ls)
    (h : parseSum left ls = .ok x) : Spells (.expression x.value) start x.rest := by
  rw [parseSum.eq_def] at h
  split at h
  · have sign : BinaryOperator.isSum .plus .add := trivial
    exact parseSumTail_spells hl sign h
  · have sign : BinaryOperator.isSum .minus .subtract := trivial
    exact parseSumTail_spells hl sign h
  · cases h
    exact hl
termination_by (ls.length, 0)

theorem parseSumTail_spells {left : Expr} {sign : Token} {operator : BinaryOperator}
    {p : Position} {start ls : List Lexeme} {x : Parsed Expr (ls.length + 2)}
    (hl : Spells (.expression left) start (⟨sign, p⟩ :: ls)) (ho : operator.isSum sign)
    (h : parseSumTail left operator p ls = .ok x) :
    Spells (.expression x.value) start x.rest := by
  rw [parseSumTail] at h
  split at h
  · cases h
  · rename_i right hr
    have shorter := right.shorter
    split at h
    · cases h
    · rename_i whole hw
      cases h
      exact parseSum_spells (.sum hl ho (parseTerm_spells hr)) hw
termination_by (ls.length, 4)

theorem parseTerm_spells {ls : List Lexeme} {x : Parsed Expr ls.length}
    (h : parseTerm ls = .ok x) : Spells (.term x.value) ls x.rest := by
  rw [parseTerm] at h
  split at h
  · cases h
  · rename_i first hf
    have shorter := first.shorter
    split at h
    · cases h
    · rename_i whole hw
      cases h
      exact parseProduct_spells (.ofFactor (parseFactor_spells hf)) hw
termination_by (ls.length, 3)

theorem parseProduct_spells {left : Expr} {start ls : List Lexeme}
    {x : Parsed Expr (ls.length + 1)} (hl : Spells (.term left) start ls)
    (h : parseProduct left ls = .ok x) : Spells (.term x.value) start x.rest := by
  rw [parseProduct.eq_def] at h
  split at h
  · have sign : BinaryOperator.isProduct .star .multiply := trivial
    exact parseProductTail_spells hl sign h
  · have sign : BinaryOperator.isProduct .slash .divide := trivial
    exact parseProductTail_spells hl sign h
  · cases h
    exact hl
termination_by (ls.length, 0)

theorem parseProductTail_spells {left : Expr} {sign : Token} {operator : BinaryOperator}
    {p : Position} {start ls : List Lexeme} {x : Parsed Expr (ls.length + 2)}
    (hl : Spells (.term left) start (⟨sign, p⟩ :: ls)) (ho : operator.isProduct sign)
    (h : parseProductTail left operator p ls = .ok x) : Spells (.term x.value) start x.rest := by
  rw [parseProductTail] at h
  split at h
  · cases h
  · rename_i right hr
    have shorter := right.shorter
    split at h
    · cases h
    · rename_i whole hw
      cases h
      exact parseProduct_spells (.product hl ho (parseFactor_spells hr)) hw
termination_by (ls.length, 2)

theorem parseFactor_spells {ls : List Lexeme} {x : Parsed Expr ls.length}
    (h : parseFactor ls = .ok x) : Spells (.factor x.value) ls x.rest := by
  rw [parseFactor.eq_def] at h
  split at h
  · cases h
    exact .negativeInteger
  · cases h
    exact .negativeReal
  · rename_i p rest integer real
    split at h
    · cases h
    · rename_i operand ho
      cases h
      refine .negate (fun number => ?_) (parseFactor_spells ho)
      unfold StartsWithNumber at number
      split at number
      · exact integer _ _ _ rfl
      · exact real _ _ _ rfl
      · exact number
  · exact .ofPrimary (parsePrimary_spells h)
termination_by (ls.length, 1)

theorem parsePrimary_spells {ls : List Lexeme} {x : Parsed Expr ls.length}
    (h : parsePrimary ls = .ok x) : Spells (.primary x.value) ls x.rest := by
  rw [parsePrimary.eq_def] at h
  split at h
  · cases h
  · cases h; exact .integer
  · cases h; exact .real
  · cases h; exact .text
  · cases h; exact .quotedName
  · split at h
    · cases h
    · rename_i function hf
      split at h
      · cases h
      · rename_i arguments ha
        cases h
        rcases parseArguments_spells ha with ⟨value, q, rest⟩ | items
        · simp only [value]
          generalize arguments.rest = after at rest
          subst rest
          exact .emptyCall hf
        · exact .call hf items
  · rename_i name p rest other
    cases h
    refine .identifier fun paren => ?_
    unfold StartsWithParen at paren
    split at paren
    · exact other _ _ rfl
    · exact paren
  · split at h
    · cases h
    · rename_i inner hi
      obtain ⟨value, q, rest⟩ := closed_eq h
      have expression := parseExpression_spells hi
      rw [value]
      exact .group (rest ▸ expression)
  · cases h
termination_by (ls.length, 0)

theorem parseArguments_spells {opening : Position} {ls : List Lexeme}
    {x : Parsed (List Expr) ls.length} (h : parseArguments opening ls = .ok x) :
    (x.value = [] ∧ ∃ q, ls = ⟨.rightParen, q⟩ :: x.rest) ∨ Spells (.items x.value) ls x.rest := by
  rw [parseArguments.eq_def] at h
  split at h
  · rename_i q rest
    cases h
    exact .inl ⟨rfl, q, rfl⟩
  · exact .inr (parseItems_spells h)
termination_by (ls.length, 7)

theorem parseItems_spells {opening : Position} {ls : List Lexeme}
    {x : Parsed (List Expr) ls.length} (h : parseItems opening ls = .ok x) :
    Spells (.items x.value) ls x.rest := by
  rw [parseItems] at h
  split at h
  · cases h
  · rename_i item hi
    have expression := parseExpression_spells hi
    have shorter := item.shorter
    split at h
    · rename_i q after hr
      have fewer : after.length < ls.length := by
        rw [hr, List.length_cons] at shorter
        omega
      rw [hr] at expression
      split at h
      · cases h
      · rename_i items hs
        cases h
        exact .item expression (parseItems_spells hs)
    · obtain ⟨value, q, rest⟩ := closed_eq h
      rw [value]
      exact .lastItem (rest ▸ expression)
termination_by (ls.length, 6)

end

/-- An expression is spelled up to the end of the text. -/
theorem parse_spells {ls : List Lexeme} {e : Expr} (h : parse ls = .ok e) :
    ∃ rest, Spells (.expression e) ls rest ∧ ∀ l ∈ rest.head?, l.token = .endOfText := by
  rw [parse.eq_def] at h
  split at h
  · cases h
  · cases h
  · split at h
    · cases h
    · rename_i value shorter hx
      cases h
      exact ⟨[], parseExpression_spells hx, nofun⟩
    · rename_i value l rest shorter hx
      split at h
      · rename_i ht
        cases h
        exact ⟨l :: rest, parseExpression_spells hx, fun _ hl => Option.some.inj hl ▸ ht⟩
      · cases h

/-! ## Texts -/

mutual

/-- The literal texts of an expression. -/
def texts : Expr → List String
  | literal (.text s) _ => [s]
  | literal _ _ | var _ _ | prop _ _ => []
  | negate operand _ => operand.texts
  | binary _ left right _ => left.texts ++ right.texts
  | call _ arguments _ => textsOfAll arguments

def textsOfAll : List Expr → List String
  | [] => []
  | e :: es => e.texts ++ textsOfAll es

end

end Expr

def Phrase.texts : Phrase → List String
  | expression e | term e | factor e | primary e => e.texts
  | items es => Expr.textsOfAll es

theorem Spells.suffix {phrase : Phrase} {ls rest : List Lexeme} (h : Spells phrase ls rest) :
    rest <:+ ls := by
  induction h with
  | ofTerm _ ih | ofFactor _ ih | ofPrimary _ ih => exact ih
  | sum _ _ _ left right | product _ _ _ left right | item _ _ left right =>
    exact right.trans ((List.suffix_cons ..).trans left)
  | negativeInteger | negativeReal => exact ⟨[_, _], rfl⟩
  | negate _ _ ih => exact ih.trans (List.suffix_cons ..)
  | integer | real | text | quotedName | identifier => exact List.suffix_cons ..
  | emptyCall => exact ⟨[_, _, _], rfl⟩
  | call _ _ ih => exact ih.trans ⟨[_, _], rfl⟩
  | group _ ih => exact ((List.suffix_cons ..).trans ih).trans (List.suffix_cons ..)
  | lastItem _ ih => exact (List.suffix_cons ..).trans ih

/-- A phrase holds no text that is not among its lexemes. -/
theorem Spells.mem_of_texts {phrase : Phrase} {ls rest : List Lexeme} (h : Spells phrase ls rest)
    {s : String} (hs : s ∈ phrase.texts) : ∃ p, ⟨.text s, p⟩ ∈ ls := by
  induction h with
  | ofTerm _ ih | ofFactor _ ih | ofPrimary _ ih => exact ih hs
  | sum left _ _ ihl ihr | product left _ _ ihl ihr =>
    rcases List.mem_append.1 hs with hs | hs
    · exact ihl hs
    · obtain ⟨p, hp⟩ := ihr hs
      exact ⟨p, left.suffix.subset (List.mem_cons_of_mem _ hp)⟩
  | negate _ _ ih =>
    obtain ⟨p, hp⟩ := ih hs
    exact ⟨p, List.mem_cons_of_mem _ hp⟩
  | @text t p rest =>
    obtain rfl := List.mem_singleton.1 hs
    exact ⟨p, List.mem_cons_self⟩
  | negativeInteger | negativeReal | integer | real | quotedName | identifier | emptyCall =>
    cases hs
  | call _ _ ih =>
    obtain ⟨p, hp⟩ := ih hs
    exact ⟨p, List.mem_cons_of_mem _ (List.mem_cons_of_mem _ hp)⟩
  | group _ ih =>
    obtain ⟨p, hp⟩ := ih hs
    exact ⟨p, List.mem_cons_of_mem _ hp⟩
  | lastItem _ ih =>
    rcases List.mem_append.1 hs with hs | hs
    · exact ih hs
    · cases hs
  | item first _ ihf ihr =>
    rcases List.mem_append.1 hs with hs | hs
    · exact ihf hs
    · obtain ⟨p, hp⟩ := ihr hs
      exact ⟨p, first.suffix.subset (List.mem_cons_of_mem _ hp)⟩

end ColumnFormula
