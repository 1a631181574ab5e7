import ColumnFormula.Proofs.Grammar

/-!
# The parser accepts the grammar

An expression is read exactly if the lexemes before the end of the text spell it, and no lexemes
spell two expressions (`parse_eq_ok_iff_spells`). Three facts lead there:

* what is read is spelled (`parse_spells`);
* what is spelled is read (`Spells.isRead`). The loops for sums and products go on as far as
  they can, so a sum that is spelled up to some lexeme is what the loop holds when it gets there;
* a phrase is spelled by its own lexemes (`Phrase.Covers`), whatever comes after them.
-/

namespace ColumnFormula

theorem BinaryOperator.isSum_iff {sign : Token} {operator : BinaryOperator} :
    operator.isSum sign ↔
      sign = .plus ∧ operator = .add ∨ sign = .minus ∧ operator = .subtract := by
  cases sign <;> cases operator <;> simp [isSum]

theorem BinaryOperator.isProduct_iff {sign : Token} {operator : BinaryOperator} :
    operator.isProduct sign ↔
      sign = .star ∧ operator = .multiply ∨ sign = .slash ∧ operator = .divide := by
  cases sign <;> cases operator <;> simp [isProduct]

/-! ## The lexemes of a phrase -/

/-- The lexemes are those of the phrase: they spell it in front of anything but a parenthesis
that opens, and the text does not end among them. -/
structure Phrase.Covers (phrase : Phrase) (used : List Lexeme) : Prop where
  nonempty : used ≠ []
  unended : ∀ l ∈ used, l.token ≠ .endOfText
  spells : ∀ after, ¬StartsWithParen after → Spells phrase (used ++ after) after

theorem startsWithNumber_append {ls after : List Lexeme} (h : ls ≠ []) :
    StartsWithNumber (ls ++ after) ↔ StartsWithNumber ls := by
  cases ls with
  | nil => exact absurd rfl h
  | cons l ls =>
    obtain ⟨token, p⟩ := l
    cases token <;> rfl

namespace Phrase.Covers

variable {phrase whole left right : Phrase} {used first second : List Lexeme} {l : Lexeme}

/-- A phrase that consists of another one alone. -/
theorem of (h : phrase.Covers used)
    (hw : ∀ ls rest, Spells phrase ls rest → Spells whole ls rest) : whole.Covers used :=
  ⟨h.nonempty, h.unended, fun after ha => hw _ _ (h.spells after ha)⟩

/-- Two phrases with a lexeme between them. -/
theorem join (hl : left.Covers first) (hr : right.Covers second) (ht : l.token ≠ .endOfText)
    (hp : l.token ≠ .leftParen)
    (hw : ∀ ls middle rest, Spells left ls (l :: middle) → Spells right middle rest →
      Spells whole ls rest) : whole.Covers (first ++ l :: second) where
  nonempty := List.append_ne_nil_of_left_ne_nil hl.nonempty _
  unended := by
    refine List.forall_mem_append.2 ⟨hl.unended, List.forall_mem_cons.2 ⟨ht, hr.unended⟩⟩
  spells after ha := by
    have opens : ¬StartsWithParen (l :: (second ++ after)) := fun h => by
      obtain ⟨token, p⟩ := l
      cases token <;> first | exact h | exact hp rfl
    rw [List.append_assoc, List.cons_append]
    exact hw _ _ _ (hl.spells _ opens) (hr.spells after ha)

/-- A phrase closed by a parenthesis. -/
theorem close {p : Position} (h : phrase.Covers used)
    (hw : ∀ ls rest, Spells phrase ls (⟨.rightParen, p⟩ :: rest) → Spells whole ls rest) :
    whole.Covers (used ++ [⟨.rightParen, p⟩]) where
  nonempty := List.append_ne_nil_of_left_ne_nil h.nonempty _
  unended := List.forall_mem_append.2 ⟨h.unended, List.forall_mem_singleton.2 nofun⟩
  spells after _ := by
    rw [List.append_assoc]
    exact hw _ _ (h.spells _ id)

/-- A phrase with a lexeme before it. -/
theorem cons (h : phrase.Covers used) (ht : l.token ≠ .endOfText)
    (hw : ∀ after, Spells phrase (used ++ after) after →
      Spells whole (l :: (used ++ after)) after) : whole.Covers (l :: used) where
  nonempty := List.cons_ne_nil l used
  unended := List.forall_mem_cons.2 ⟨ht, h.unended⟩
  spells after ha := hw after (h.spells after ha)

/-- A lexeme that is a phrase of its own. -/
theorem single (ht : l.token ≠ .endOfText)
    (hw : ∀ after, ¬StartsWithParen after → Spells whole (l :: after) after) :
    whole.Covers [l] :=
  ⟨List.cons_ne_nil l [], List.forall_mem_singleton.2 ht, hw⟩

end Phrase.Covers

/-- Whatever spells a phrase begins with lexemes of its own. -/
theorem Spells.covers {phrase : Phrase} {ls rest : List Lexeme} (h : Spells phrase ls rest) :
    ∃ used, ls = used ++ rest ∧ phrase.Covers used := by
  induction h with
  | ofTerm _ ih =>
    obtain ⟨used, rfl, covers⟩ := ih
    exact ⟨used, rfl, covers.of fun _ _ => .ofTerm⟩
  | ofFactor _ ih =>
    obtain ⟨used, rfl, covers⟩ := ih
    exact ⟨used, rfl, covers.of fun _ _ => .ofFactor⟩
  | ofPrimary _ ih =>
    obtain ⟨used, rfl, covers⟩ := ih
    exact ⟨used, rfl, covers.of fun _ _ => .ofPrimary⟩
  | @sum _ _ sign _ p _ _ _ _ hs _ left right =>
    obtain ⟨first, rfl, hl⟩ := left
    obtain ⟨second, rfl, hr⟩ := right
    refine ⟨first ++ ⟨sign, p⟩ :: second, by simp, hl.join hr ?_ ?_ fun _ _ _ l r => .sum l hs r⟩
    all_goals rintro ⟨⟩; exact hs
  | @product _ _ sign _ p _ _ _ _ hs _ left right =>
    obtain ⟨first, rfl, hl⟩ := left
    obtain ⟨second, rfl, hr⟩ := right
    refine ⟨first ++ ⟨sign, p⟩ :: second, by simp,
      hl.join hr ?_ ?_ fun _ _ _ l r => .product l hs r⟩
    all_goals rintro ⟨⟩; exact hs
  | @item _ _ q _ _ _ _ _ left right =>
    obtain ⟨first, rfl, hl⟩ := left
    obtain ⟨second, rfl, hr⟩ := right
    exact ⟨first ++ ⟨.comma, q⟩ :: second, by simp, hl.join hr nofun nofun fun _ _ _ => .item⟩
  | @negativeInteger i p q =>
    exact ⟨[⟨.minus, p⟩, ⟨.integer i, q⟩], rfl, by simp, by simp, fun _ _ => .negativeInteger⟩
  | @negativeReal x p q =>
    exact ⟨[⟨.minus, p⟩, ⟨.real x, q⟩], rfl, by simp, by simp, fun _ _ => .negativeReal⟩
  | @negate _ p _ _ number _ ih =>
    obtain ⟨used, rfl, covers⟩ := ih
    refine ⟨⟨.minus, p⟩ :: used, rfl, covers.cons nofun fun after => .negate ?_⟩
    rwa [startsWithNumber_append covers.nonempty] at number ⊢
  | @integer i p => exact ⟨[⟨.integer i, p⟩], rfl, .single nofun fun _ _ => .integer⟩
  | @real x p => exact ⟨[⟨.real x, p⟩], rfl, .single nofun fun _ _ => .real⟩
  | @text s p => exact ⟨[⟨.text s, p⟩], rfl, .single nofun fun _ _ => .text⟩
  | @quotedName name p => exact ⟨[⟨.quotedName name, p⟩], rfl, .single nofun fun _ _ => .quotedName⟩
  | @identifier name p =>
    exact ⟨[⟨.identifier name, p⟩], rfl, .single nofun fun _ => .identifier⟩
  | @emptyCall name _ p q r _ hf =>
    exact ⟨[⟨.identifier name, p⟩, ⟨.leftParen, q⟩, ⟨.rightParen, r⟩], rfl, by simp, by simp,
      fun _ _ => .emptyCall hf⟩
  | @call name _ _ p q _ _ hf _ ih =>
    obtain ⟨used, rfl, covers⟩ := ih
    refine ⟨⟨.identifier name, p⟩ :: ⟨.leftParen, q⟩ :: used, rfl, by simp, ?_, fun after ha =>
      .call hf (covers.spells after ha)⟩
    simpa using covers.unended
  | @group _ p q _ _ _ ih =>
    obtain ⟨used, rfl, covers⟩ := ih
    refine ⟨⟨.leftParen, p⟩ :: (used ++ [⟨.rightParen, q⟩]), by simp, by simp, ?_,
      fun after _ => ?_⟩
    · simpa [or_imp, forall_and] using covers.unended
    · have inner := covers.spells (⟨.rightParen, q⟩ :: after) id
      simpa using Spells.group (p := p) inner
  | @lastItem _ q _ _ _ ih =>
    obtain ⟨used, rfl, covers⟩ := ih
    exact ⟨used ++ [⟨.rightParen, q⟩], by simp, covers.close fun _ _ => .lastItem⟩

/-- A phrase does not begin where the text ends. -/
theorem Spells.begins {phrase : Phrase} {ls rest : List Lexeme} (h : Spells phrase ls rest) :
    ls ≠ [] ∧ ∀ p after, ls ≠ ⟨.endOfText, p⟩ :: after := by
  obtain ⟨used, rfl, covers⟩ := h.covers
  cases used with
  | nil => exact absurd rfl covers.nonempty
  | cons l used =>
    refine ⟨List.cons_ne_nil _ _, fun p after ends => ?_⟩
    have first : l = ⟨.endOfText, p⟩ := (List.cons.inj ends).1
    exact covers.unended l List.mem_cons_self (by rw [first])

/-! ## What is spelled is read -/

/-- Reading gave `value` and stopped before `rest`. -/
def Parsed.Gives {α : Type} {n : Nat} (r : Except SyntaxError (Parsed α n)) (value : α)
    (rest : List Lexeme) : Prop :=
  ∃ x, r = .ok x ∧ x.value = value ∧ x.rest = rest

/-- The lexemes go on with an operator between terms. -/
def ContinuesSum : List Lexeme → Prop
  | ⟨.plus, _⟩ :: _ | ⟨.minus, _⟩ :: _ => True
  | _ => False

/-- The lexemes go on with an operator between factors. -/
def ContinuesProduct : List Lexeme → Prop
  | ⟨.star, _⟩ :: _ | ⟨.slash, _⟩ :: _ => True
  | _ => False

namespace Expr

open Parsed (Gives)

variable {e left right first : Expr} {es : List Expr} {ls middle rest after : List Lexeme}
  {sign : Token} {operator : BinaryOperator} {p : Position}

theorem parseExpression_gives (ht : Gives (parseTerm ls) first middle)
    (hs : Gives (parseSum first middle) e rest) : Gives (parseExpression ls) e rest := by
  obtain ⟨x, hx, rfl, rfl⟩ := ht
  obtain ⟨y, hy, rfl, rfl⟩ := hs
  exact ⟨y.weaken x.shorter, by simp only [parseExpression, hx, hy], rfl, rfl⟩

theorem parseSum_stops (h : ¬ContinuesSum ls) : Gives (parseSum left ls) left ls := by
  refine ⟨⟨left, ls, by omega⟩, ?_, rfl, rfl⟩
  rw [parseSum.eq_def]
  split
  · exact absurd trivial h
  · exact absurd trivial h
  · rfl

theorem parseSum_goes_on (ho : operator.isSum sign) (ht : Gives (parseTerm ls) right middle)
    (hs : Gives (parseSum (.binary operator left right p) middle) e rest) :
    Gives (parseSum left (⟨sign, p⟩ :: ls)) e rest := by
  obtain ⟨x, hx, rfl, rfl⟩ := ht
  obtain ⟨y, hy, rfl, rfl⟩ := hs
  have shorter := x.shorter
  refine ⟨y.weaken (by simp only [List.length_cons]; omega), ?_, rfl, rfl⟩
  rcases BinaryOperator.isSum_iff.1 ho with ⟨rfl, rfl⟩ | ⟨rfl, rfl⟩ <;>
    simp only [parseSum, parseSumTail, hx, hy]

theorem parseTerm_gives (hf : Gives (parseFactor ls) first middle)
    (hs : Gives (parseProduct first middle) e rest) : Gives (parseTerm ls) e rest := by
  obtain ⟨x, hx, rfl, rfl⟩ := hf
  obtain ⟨y, hy, rfl, rfl⟩ := hs
  exact ⟨y.weaken x.shorter, by simp only [parseTerm, hx, hy], rfl, rfl⟩

theorem parseProduct_stops (h : ¬ContinuesProduct ls) : Gives (parseProduct left ls) left ls := by
  refine ⟨⟨left, ls, by omega⟩, ?_, rfl, rfl⟩
  rw [parseProduct.eq_def]
  split
  · exact absurd trivial h
  · exact absurd trivial h
  · rfl

theorem parseProduct_goes_on (ho : operator.isProduct sign)
    (hf : Gives (parseFactor ls) right middle)
    (hs : Gives (parseProduct (.binary operator left right p) middle) e rest) :
    Gives (parseProduct left (⟨sign, p⟩ :: ls)) e rest := by
  obtain ⟨x, hx, rfl, rfl⟩ := hf
  obtain ⟨y, hy, rfl, rfl⟩ := hs
  have shorter := x.shorter
  refine ⟨y.weaken (by simp only [List.length_cons]; omega), ?_, rfl, rfl⟩
  rcases BinaryOperator.isProduct_iff.1 ho with ⟨rfl, rfl⟩ | ⟨rfl, rfl⟩ <;>
    simp only [parseProduct, parseProductTail, hx, hy]

theorem parseFactor_negate (hn : ¬StartsWithNumber ls) (hf : Gives (parseFactor ls) e rest) :
    Gives (parseFactor (⟨.minus, p⟩ :: ls)) (.negate e p) rest := by
  obtain ⟨x, hx, rfl, rfl⟩ := hf
  have shorter := x.shorter
  refine ⟨⟨.negate x.value p, x.rest, by simp only [List.length_cons]; omega⟩, ?_, rfl, rfl⟩
  rw [parseFactor]
  · simp only [hx]
  · rintro i q rest rfl
    exact hn trivial
  · rintro y q rest rfl
    exact hn trivial

theorem parseFactor_primary (hm : ∀ p rest, ls ≠ ⟨.minus, p⟩ :: rest)
    (h : Gives (parsePrimary ls) e rest) : Gives (parseFactor ls) e rest := by
  obtain ⟨x, hx, rfl, rfl⟩ := h
  refine ⟨x, ?_, rfl, rfl⟩
  rw [parseFactor.eq_def]
  split
  · exact absurd rfl (hm _ _)
  · exact absurd rfl (hm _ _)
  · exact absurd rfl (hm _ _)
  · exact hx

theorem closed_gives {α : Type} {n : Nat} (opening : Position) (x : Parsed α n) {q : Position}
    (h : x.rest = ⟨.rightParen, q⟩ :: rest) : Gives (closed opening x) x.value rest := by
  unfold closed
  split
  · rename_i after hr
    rw [h] at hr
    cases hr
    exact ⟨_, rfl, rfl, rfl⟩
  · rename_i other
    exact absurd h (other _ _)

theorem parsePrimary_group {q : Position}
    (h : Gives (parseExpression ls) e (⟨.rightParen, q⟩ :: rest)) :
    Gives (parsePrimary (⟨.leftParen, p⟩ :: ls)) e rest := by
  obtain ⟨x, hx, rfl, hr⟩ := h
  have gives := closed_gives p (x.weaken (Nat.le_succ _)) hr
  rw [parsePrimary]
  simp only [hx]
  exact gives

theorem parseItems_last {opening q : Position}
    (h : Gives (parseExpression ls) e (⟨.rightParen, q⟩ :: rest)) :
    Gives (parseItems opening ls) [e] rest := by
  obtain ⟨x, hx, rfl, hr⟩ := h
  have gives := closed_gives opening ⟨[x.value], x.rest, x.shorter⟩ hr
  rw [parseItems]
  simp only [hx]
  split
  · rename_i comma
    rw [hr] at comma
    cases comma
  · exact gives

theorem parseItems_more {opening q : Position}
    (h : Gives (parseExpression ls) e (⟨.comma, q⟩ :: middle))
    (hs : Gives (parseItems opening middle) es rest) :
    Gives (parseItems opening ls) (e :: es) rest := by
  obtain ⟨x, hx, rfl, hr⟩ := h
  obtain ⟨y, hy, rfl, rfl⟩ := hs
  have shorter := x.shorter
  have fewer := y.shorter
  rw [hr, List.length_cons] at shorter
  refine ⟨⟨x.value :: y.value, y.rest, by omega⟩, ?_, rfl, rfl⟩
  rw [parseItems]
  simp only [hx]
  split
  · rename_i after comma
    rw [hr] at comma
    cases comma
    simp only [hy]
  · rename_i other
    exact absurd hr (other _ _)

theorem parsePrimary_call {name : String} {function : Builtin} {opening : Position}
    (hf : Builtin.ofName? name = some function)
    (h : Gives (parseArguments opening ls) es rest) :
    Gives (parsePrimary (⟨.identifier name, p⟩ :: ⟨.leftParen, opening⟩ :: ls))
      (.call function es p) rest := by
  obtain ⟨x, hx, rfl, rfl⟩ := h
  have shorter := x.shorter
  refine ⟨⟨.call function x.value p, x.rest, by simp only [List.length_cons]; omega⟩, ?_, rfl, rfl⟩
  rw [parsePrimary]
  simp only [hf, hx]

theorem parseArguments_items {opening : Position} (hp : ∀ p rest, ls ≠ ⟨.rightParen, p⟩ :: rest)
    (h : Gives (parseItems opening ls) es rest) : Gives (parseArguments opening ls) es rest := by
  obtain ⟨x, hx, rfl, rfl⟩ := h
  refine ⟨x, ?_, rfl, rfl⟩
  rw [parseArguments.eq_def]
  split
  · exact absurd rfl (hp _ _)
  · exact hx

end Expr

open ColumnFormula.Expr Parsed in
/-- What reading comes to on lexemes that spell a phrase: an expression or a term is where the
loop of its level stands in front of the rest. -/
def Phrase.IsRead : Phrase → List Lexeme → List Lexeme → Prop
  | expression e, ls, rest => ¬ContinuesProduct rest → ∀ whole after,
    Gives (parseSum e rest) whole after → Gives (parseExpression ls) whole after
  | term e, ls, rest => ∀ whole after,
    Gives (parseProduct e rest) whole after → Gives (parseTerm ls) whole after
  | factor e, ls, rest => Gives (parseFactor ls) e rest
  | primary e, ls, rest => Gives (parsePrimary ls) e rest
  | items es, ls, rest => ∀ opening, Gives (parseItems opening ls) es rest

/-- An expression is read up to where neither level goes on. -/
theorem Phrase.IsRead.stops {e : Expr} {ls rest : List Lexeme}
    (h : (expression e).IsRead ls rest) (hs : ¬ContinuesSum rest) (hp : ¬ContinuesProduct rest) :
    Parsed.Gives (Expr.parseExpression ls) e rest :=
  h hp e rest (Expr.parseSum_stops hs)

namespace Spells

open ColumnFormula.Expr

variable {phrase : Phrase} {ls rest : List Lexeme}

/-- No phrase begins with a parenthesis that closes. -/
theorem ne_rightParen (h : Spells phrase ls rest) (p : Position) (after : List Lexeme) :
    ls ≠ ⟨.rightParen, p⟩ :: after := by
  induction h generalizing p after with
  | ofTerm _ ih | ofFactor _ ih | ofPrimary _ ih | lastItem _ ih => exact ih p after
  | sum _ _ _ ih | product _ _ _ ih | item _ _ ih => exact ih p after
  | _ => exact nofun

theorem isRead (h : Spells phrase ls rest) : phrase.IsRead ls rest := by
  induction h with
  | ofTerm _ ih =>
    intro hp whole after hs
    exact parseExpression_gives (ih _ _ (parseProduct_stops hp)) hs
  | sum _ ho _ left right =>
    intro hp whole after hs
    refine left ?_ whole after (parseSum_goes_on ho (right _ _ (parseProduct_stops hp)) hs)
    rcases BinaryOperator.isSum_iff.1 ho with ⟨rfl, -⟩ | ⟨rfl, -⟩ <;> exact id
  | ofFactor _ ih => exact fun whole after hs => parseTerm_gives ih hs
  | product _ ho _ left right =>
    exact fun whole after hs => left whole after (parseProduct_goes_on ho right hs)
  | negativeInteger | negativeReal =>
    exact ⟨⟨_, _, by simp only [List.length_cons]; omega⟩, by rw [parseFactor], rfl, rfl⟩
  | negate hn _ ih => exact parseFactor_negate hn ih
  | ofPrimary h ih =>
    refine parseFactor_primary (fun p rest minus => ?_) ih
    subst minus
    cases h
  | integer | real | text | quotedName => exact ⟨⟨_, _, by simp⟩, by rw [parsePrimary], rfl, rfl⟩
  | @identifier name p rest hp =>
    refine ⟨⟨_, rest, by simp⟩, ?_, rfl, rfl⟩
    rw [parsePrimary]
    rintro q after rfl
    exact hp trivial
  | emptyCall hf =>
    refine parsePrimary_call hf ⟨⟨[], _, by simp⟩, ?_, rfl, rfl⟩
    rw [parseArguments]
  | call hf h ih => exact parsePrimary_call hf (parseArguments_items h.ne_rightParen (ih _))
  | group _ ih => exact parsePrimary_group (ih.stops id id)
  | lastItem _ ih => exact fun opening => parseItems_last (ih.stops id id)
  | item _ _ first rest => exact fun opening => parseItems_more (first.stops id id) (rest opening)

end Spells

/-! ## Whole texts -/

namespace Expr

/-- The lexemes before the end of the text, or all of them if it does not end. -/
def beforeEnd (ls : List Lexeme) : List Lexeme := ls.takeWhile (·.token ≠ .endOfText)

/-- What stands after a whole text: nothing, or its end and whatever comes after that. -/
def Ended (rest : List Lexeme) : Prop := ∀ l ∈ rest.head?, l.token = .endOfText

theorem beforeEnd_append {used rest : List Lexeme} (hu : ∀ l ∈ used, l.token ≠ .endOfText)
    (hr : Ended rest) : beforeEnd (used ++ rest) = used := by
  rw [beforeEnd, List.takeWhile_append_of_pos (by simpa using hu)]
  cases rest with
  | nil => simp
  | cons l rest => simp [hr l rfl]

theorem ended_dropWhile (ls : List Lexeme) : Ended (ls.dropWhile (·.token ≠ .endOfText)) := by
  intro l hl
  have first := List.head?_dropWhile_not (·.token ≠ .endOfText) ls
  rw [hl] at first
  simpa using first

theorem Ended.not_continues {rest : List Lexeme} (h : Ended rest) :
    ¬ContinuesSum rest ∧ ¬ContinuesProduct rest ∧ ¬StartsWithParen rest := by
  cases rest with
  | nil => exact ⟨id, id, id⟩
  | cons l rest =>
    obtain ⟨token, p⟩ := l
    obtain rfl : token = .endOfText := h _ rfl
    exact ⟨id, id, id⟩

theorem parse_of_spells {ls rest : List Lexeme} {e : Expr} (h : Spells (.expression e) ls rest)
    (hr : Ended rest) : parse ls = .ok e := by
  obtain ⟨sum, product, -⟩ := hr.not_continues
  obtain ⟨x, hx, rfl, rfl⟩ := h.isRead.stops sum product
  have first := h.begins
  rw [parse.eq_def]
  split
  · exact absurd rfl first.1
  · exact absurd rfl (first.2 _ _)
  · rw [hx]
    obtain ⟨value, rest, shorter⟩ := x
    cases rest with
    | nil => rfl
    | cons l rest => simp only [hr l rfl]

/-- Whatever follows the end of a text, it is spelled by what comes before. -/
theorem exists_spells_iff {ls : List Lexeme} {phrase : Phrase} :
    (∃ rest, Spells phrase ls rest ∧ Ended rest) ↔ Spells phrase (beforeEnd ls) [] := by
  constructor
  · rintro ⟨rest, h, hr⟩
    obtain ⟨used, rfl, covers⟩ := h.covers
    rw [beforeEnd_append covers.unended hr]
    simpa using covers.spells [] id
  · intro h
    obtain ⟨used, hu, covers⟩ := h.covers
    have ended := ended_dropWhile ls
    refine ⟨_, ?_, ended⟩
    have spells := covers.spells _ ended.not_continues.2.2
    rwa [← List.append_nil used, ← hu, beforeEnd, List.takeWhile_append_dropWhile] at spells

/-- An expression is read exactly if the lexemes before the end of the text spell it. They spell
one at most, and a call is spelled with the name of its function in any case of the letters. -/
theorem parse_eq_ok_iff_spells (ls : List Lexeme) :
    (∀ e, parse ls = .ok e ↔ Spells (.expression e) (beforeEnd ls) []) ∧
      (∀ e f, Spells (.expression e) (beforeEnd ls) [] →
        Spells (.expression f) (beforeEnd ls) [] → e = f) ∧
      ∀ name function, Builtin.ofName? name = some function ↔
        function.name.toList = name.toList.map Char.toLower := by
  have spelled : ∀ e, parse ls = .ok e ↔ Spells (.expression e) (beforeEnd ls) [] := by
    intro e
    rw [← exists_spells_iff]
    exact ⟨parse_spells, fun ⟨_, h, hr⟩ => parse_of_spells h hr⟩
  refine ⟨spelled, fun e f he hf => ?_, fun _ _ => Builtin.ofName?_eq_some_iff⟩
  have read := (spelled e).2 he
  rw [(spelled f).2 hf] at read
  exact (Except.ok.inj read).symm

/-- One minus is the sign of the number, and nothing after the first end is read. -/
example : parse [⟨.minus, ⟨1, 1⟩⟩, ⟨.minus, ⟨1, 2⟩⟩, ⟨.integer 5, ⟨1, 3⟩⟩, ⟨.endOfText, ⟨1, 4⟩⟩,
      ⟨.comma, ⟨1, 5⟩⟩, ⟨.endOfText, ⟨1, 6⟩⟩] =
    .ok (.negate (.literal (.integer (-5)) ⟨1, 2⟩) ⟨1, 1⟩) := by
  cbv

end Expr

end ColumnFormula
