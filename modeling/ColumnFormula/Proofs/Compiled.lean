import ColumnFormula.Equation
import ColumnFormula.Proofs.Grammar
import ColumnFormula.Proofs.Parts

/-!
# What compilation makes

Every part of a compiled formula is in order (`compile_resolved`): its names are those of the
schema, operations and calls have passed the check of their signature, and a literal text is
one that was written between two quotes, so it holds none.
-/

namespace ColumnFormula

/-! ## Words -/

namespace WordClass

/-- The best word found so far is the longest one of its class. -/
def IsBest (c : Char) (cs : List Char) (best : Option (WordClass × Nat)) : Prop :=
  ∀ cls n, best = some (cls, n) → (cls.pattern.step c).longest? cs = some n

theorem isBest_longest? (c : Char) (cs : List Char) : IsBest c cs (longest? c cs) := by
  unfold longest?
  refine List.foldlRecOn (motive := IsBest c cs) all _ nofun fun best hb cls _ other m hm => ?_
  split at hm
  · rename_i n _ _ hn
    split at hm
    · cases hm; exact hn
    · cases hm; exact hb _ _ rfl
  · rename_i n hn
    cases hm; exact hn
  · exact hb _ _ hm

theorem longest?_matches {c : Char} {cs : List Char} {cls : WordClass} {n : Nat}
    (h : longest? c cs = some (cls, n)) : cls.pattern.Matches (c :: cs.take n) := by
  have longest := Pattern.longest?_eq_some_iff.1 (isBest_longest? c cs cls n h)
  exact Pattern.matches_step.1 longest.2.1

theorem forall_of_matches_star {accepts : Char → Bool} {word : List Char}
    (h : (Pattern.star (.one accepts)).Matches word) : ∀ c ∈ word, accepts c = true := by
  induction word with
  | nil => exact nofun
  | cons c word ih =>
    obtain ⟨u, v, rfl, hu, hv⟩ := Pattern.matches_star_cons.1 h
    cases hu with
    | one hc =>
      rw [List.nil_append] at ih
      exact List.forall_mem_cons.2 ⟨hc, ih hv⟩

/-- Between the quotes of a text there is none. -/
theorem unquote_of_matches {word : List Char} (h : text.pattern.Matches word) :
    '"' ∉ (unquote word).toList := by
  cases h with
  | seq opened closing =>
    cases opened with
    | @seq _ _ _ inside opening body =>
      cases opening with
      | one =>
        cases closing with
        | one =>
          have accepted := forall_of_matches_star body
          have between : ∀ a b : Char, unquote ([a] ++ inside ++ [b]) = String.ofList inside :=
            fun a b => by simp [unquote]
          rw [between, String.toList_ofList]
          intro quote
          have := accepted _ quote
          contradiction

theorem token?_text {cls : WordClass} {word : List Char} {p : Position} {s : String}
    (h : cls.token? word p = .ok (some (.text s))) : cls = text ∧ s = unquote word := by
  cases cls with
  | text => cases h; exact ⟨rfl, rfl⟩
  | real | integer => simp only [token?] at h; split at h <;> cases h
  | sign =>
    simp only [token?, Except.ok.injEq] at h
    unfold signToken? at h
    split at h <;> cases h
  | _ => cases h

end WordClass

theorem Lexeme.scanFrom_text {q : Position} {cs : List Char} {ls : List Lexeme}
    (h : scanFrom q cs = .ok ls) {s : String} {p : Position} (hs : ⟨.text s, p⟩ ∈ ls) :
    '"' ∉ s.toList := by
  fun_induction scanFrom q cs generalizing ls with
  | case1 => cases h; cases hs with | tail _ hs => cases hs
  | case2 | case3 | case4 => cases h
  | case5 q c cs cls n hl word token ht lexemes hr =>
    rename_i ih
    cases h
    rcases List.mem_append.1 hs with hs | hs
    · cases token with
      | none => cases hs
      | some t =>
        obtain ⟨rfl, rfl⟩ := Lexeme.mk.inj (List.mem_singleton.1 hs)
        obtain ⟨rfl, rfl⟩ := WordClass.token?_text ht
        exact WordClass.unquote_of_matches (WordClass.longest?_matches hl)
    · exact ih hr hs

/-! ## Resolution -/

/-- The names that a formula over the schema may read. -/
def Schema.columns (s : Schema) : List String := s.vars.names ++ s.props.entries.map (·.2)

theorem Schema.mem_columns_of_variable {s : Schema} {name : String} {type : VariableType}
    (h : s.variableType? name = some type) : name ∈ s.columns :=
  List.mem_append_left _ (Named.get?_isSome.1 (Option.isSome_of_eq_some h))

theorem Schema.mem_columns_of_property {s : Schema} {identifier column : String}
    (h : s.propertyColumn? identifier = some column) : column ∈ s.columns := by
  refine List.mem_append_right _ (List.mem_map.2 ?_)
  rcases propertyColumn?_eq_some_iff.1 h with known | ⟨-, rfl, _, known⟩ <;>
    exact ⟨_, Named.mem_of_get? known, rfl⟩

namespace Formula

/-- The formula, apart from its parts, is in order: a text is one of those that may occur, a
name stands for what the schema says, and the signature of an operation or a call allows it. -/
def Resolved (s : Schema) (Text : String → Prop) : Formula → Prop
  | constant (.text text) => Text text
  | constant _ => True
  | var name type => s.variableType? name = some type
  | prop identifier column => s.propertyColumn? identifier = some column
  | operation operator operands =>
    ∃ p, operator.signature.check operator.symbol p operands = none
  | call function arguments => ∃ p, function.signature.check function.name p arguments = none

theorem length_of_check {signature : Signature} {name : String} {p : Position}
    {xs : List Formula} (h : signature.check name p xs = none) : xs.length = signature.arity := by
  unfold Signature.check at h
  split at h
  · cases h
  · rename_i length
    exact Decidable.not_not.1 length

theorem operation?_eq {operator : Operator} {xs : List Formula} {p : Position} {x : Formula}
    (h : operation? operator xs p = .ok x) :
    x = operation operator xs ∧ operator.signature.check operator.symbol p xs = none := by
  unfold operation? at h
  split at h
  · cases h
  · rename_i check
    cases h
    exact ⟨rfl, check⟩

theorem call?_eq {function : Builtin} {xs : List Formula} {p : Position} {x : Formula}
    (h : call? function xs p = .ok x) :
    x = call function xs ∧ function.signature.check function.name p xs = none := by
  unfold call? at h
  split at h
  · cases h
  · rename_i check
    cases h
    exact ⟨rfl, check⟩

theorem forall_parts {P : Formula → Prop} {x : Formula} {strategy : Strategy}
    (h : x.strategy? = some strategy) (hx : P x) (hc : ∀ y ∈ x.children, ∀ z ∈ y.parts, P z) :
    ∀ y ∈ x.parts, P y := by
  intro y hy
  rcases (mem_parts_derivation h).1 hy with ⟨z, hz, hy⟩ | rfl
  · exact hc z hz y hy
  · exact hx

end Formula

namespace Expr

variable {s : Schema} {Text : String → Prop}

mutual

theorem resolve_resolved : ∀ {e : Expr} {x : Formula}, e.resolve s = .ok x →
    (∀ text ∈ e.texts, Text text) → ∀ y ∈ x.parts, y.Resolved s Text
  | literal value p, x, h, ht => by
    cases h
    intro y hy
    obtain rfl := List.mem_singleton.1 hy
    cases value with
    | text text => exact ht text List.mem_cons_self
    | integer | real => trivial
  | var name p, x, h, _ => by
    rw [resolve] at h
    split at h
    · rename_i type htype
      cases h
      exact fun y hy => List.mem_singleton.1 hy ▸ htype
    · cases h
  | prop name p, x, h, _ => by
    rw [resolve] at h
    split at h
    · rename_i column hcolumn
      cases h
      exact fun y hy => List.mem_singleton.1 hy ▸ hcolumn
    · cases h
  | negate operand p, x, h, ht => by
    rw [resolve] at h
    split at h
    · cases h
    · rename_i y hy
      obtain ⟨rfl, check⟩ := Formula.operation?_eq h
      have operand := resolve_resolved hy ht
      exact Formula.forall_parts rfl ⟨p, check⟩ fun z hz => List.mem_singleton.1 hz ▸ operand
  | binary operator left right p, x, h, ht => by
    rw [resolve] at h
    split at h
    · cases h
    · rename_i y hy
      split at h
      · cases h
      · rename_i z hz
        obtain ⟨rfl, check⟩ := Formula.operation?_eq h
        have hl := resolve_resolved hy fun t h => ht t (List.mem_append_left _ h)
        have hr := resolve_resolved hz fun t h => ht t (List.mem_append_right _ h)
        exact Formula.forall_parts rfl ⟨p, check⟩
          (List.forall_mem_cons.2 ⟨hl, List.forall_mem_singleton.2 hr⟩)
  | call function arguments p, x, h, ht => by
    rw [resolve] at h
    split at h
    · cases h
    · rename_i xs hxs
      obtain ⟨rfl, check⟩ := Formula.call?_eq h
      exact Formula.forall_parts rfl ⟨p, check⟩ (resolveAll_resolved hxs ht)

theorem resolveAll_resolved : ∀ {es : List Expr} {xs : List Formula}, resolveAll s es = .ok xs →
    (∀ text ∈ textsOfAll es, Text text) → ∀ x ∈ xs, ∀ y ∈ x.parts, y.Resolved s Text
  | [], xs, h, _ => by cases h; exact nofun
  | e :: es, xs, h, ht => by
    rw [resolveAll] at h
    split at h
    · cases h
    · rename_i x hx
      split at h
      · cases h
      · rename_i xs hxs
        cases h
        exact List.forall_mem_cons.2
          ⟨resolve_resolved hx fun t h => ht t (List.mem_append_left _ h),
            resolveAll_resolved hxs fun t h => ht t (List.mem_append_right _ h)⟩

end

end Expr

/-! ## Compilation -/

/-- A text that can be written between quotes. -/
def Quotable (text : String) : Prop := '"' ∉ text.toList

theorem Equation.compile_resolved {s : Schema} {text : String} {e : Equation}
    (h : compile s text = .ok e) : ∀ x ∈ e.root.parts, x.Resolved s Quotable := by
  unfold compile at h
  split at h
  · cases h
  · rename_i lexemes hl
    split at h
    · cases h
    · rename_i expr he
      split at h
      · cases h
      · rename_i root hr
        cases h
        refine Expr.resolve_resolved hr fun t ht => ?_
        obtain ⟨rest, spelled, -⟩ := Expr.parse_spells he
        obtain ⟨p, hp⟩ := spelled.mem_of_texts ht
        exact Lexeme.scanFrom_text hl hp

end ColumnFormula
