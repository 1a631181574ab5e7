import ColumnFormula.Proofs.Arguments

/-!
# Which expressions resolve

An expression stands for a formula of its own structure if all its names are known (`StandsFor`),
and resolution gives that formula exactly if each of its parts is in order (`InOrder`): names are
known, operands are numbers, and a function takes the arguments of a call. The kinds that a part may
give are told by the expression alone (`Gives`). What is wrong with a part that is not in order is
said by `Faulty`, and the error of a resolution is that of the first such part, operands first
(`resolve_iff_inOrder`).
-/

namespace ColumnFormula

/-- The column that a name of a property is for: the one of this identifier or, if there is no such
identifier, the column of this name. -/
inductive Schema.Tells (s : Schema) (name : String) : String → Prop where
  | identifier {column : String} : (name, column) ∈ s.props.entries → Tells s name column
  | column {identifier : String} : (∀ column, (name, column) ∉ s.props.entries) →
      (identifier, name) ∈ s.props.entries → Tells s name name

/-- What stands between two operands: how it is written and what it does to them. -/
inductive BinaryOperator.Means : BinaryOperator → String → Operator → Prop where
  | add : Means add "+" .add
  | subtract : Means subtract "-" .subtract
  | multiply : Means multiply "*" .multiply
  | divide : Means divide "/" .divide

/-- What a function is called in an error. -/
inductive Builtin.Called : Builtin → String → Prop where
  | abs : Called abs "abs"
  | avg : Called avg "avg"
  | cos : Called cos "cos"
  | find : Called find "find"
  | ifeq : Called ifeq "ifeq"
  | log : Called log "log"
  | max : Called max "max"
  | min : Called min "min"
  | or : Called or "or"
  | pow : Called pow "pow"
  | sin : Called sin "sin"
  | tan : Called tan "tan"

namespace Schema

variable {s : Schema} {name column : String} {type : VariableType}

theorem variableType?_eq_some_iff :
    s.variableType? name = some type ↔ (name, type) ∈ s.vars.entries :=
  Named.get?_eq_some_iff

theorem variableType?_eq_none_iff :
    s.variableType? name = none ↔ ∀ type, (name, type) ∉ s.vars.entries :=
  Named.get?_eq_none_iff

theorem tells_iff : s.Tells name column ↔ s.propertyColumn? name = some column := by
  rw [propertyColumn?_eq_some_iff, Named.get?_eq_some_iff, Named.get?_eq_none_iff]
  constructor
  · rintro (known | ⟨unknown, known⟩)
    · exact .inl known
    · exact .inr ⟨unknown, rfl, _, Named.get?_of_mem known⟩
  · rintro (known | ⟨unknown, rfl, identifier, known⟩)
    · exact .identifier known
    · exact .column unknown (Named.mem_of_get? known)

theorem propertyColumn?_eq_none_iff :
    s.propertyColumn? name = none ↔ ∀ column, ¬s.Tells name column := by
  simp only [tells_iff]
  exact Option.eq_none_iff_forall_ne_some

end Schema

namespace BinaryOperator

variable {operator : BinaryOperator} {symbol : String} {does : Operator}

theorem means (operator : BinaryOperator) :
    operator.Means operator.operator.symbol operator.operator := by
  cases operator <;> constructor

theorem Means.symbol_eq (h : operator.Means symbol does) : symbol = operator.operator.symbol := by
  cases h <;> rfl

theorem Means.ne_negate (h : operator.Means symbol does) : does ≠ .negate := by
  cases h <;> nofun

end BinaryOperator

theorem Builtin.called (f : Builtin) : f.Called f.name := by
  cases f <;> constructor

theorem Builtin.Called.name_eq {f : Builtin} {name : String} (h : f.Called name) :
    name = f.name := by
  cases h <;> rfl

namespace Expr

mutual

/-- The expression and all that it is made of, operands first. -/
def parts : Expr → List Expr
  | literal value p => [literal value p]
  | var name p => [var name p]
  | prop name p => [prop name p]
  | negate operand p => operand.parts ++ [negate operand p]
  | binary operator left right p => left.parts ++ right.parts ++ [binary operator left right p]
  | call function arguments p => partsOfAll arguments ++ [call function arguments p]

def partsOfAll : List Expr → List Expr
  | [] => []
  | e :: es => e.parts ++ partsOfAll es

end

/-! ## In order or not -/

variable (s : Schema)

/-- The kinds that an expression may give, none for a variable that is not known. -/
inductive Gives : Expr → Kind → Prop where
  | integer (i : Int64) (p : Position) : Gives (.literal (.integer i) p) .integer
  | real (x : Float) (p : Position) : Gives (.literal (.real x) p) .real
  | text (text : String) (p : Position) : Gives (.literal (.text text) p) .text
  | var {name : String} {type : VariableType} (p : Position) :
      (name, type) ∈ s.vars.entries → Gives (.var name p) type.kind
  | prop (name : String) (p : Position) : Gives (.prop name p) .text
  | negate (operand : Expr) (p : Position) : Gives (.negate operand p) .real
  | binary (operator : BinaryOperator) (left right : Expr) (p : Position) :
      Gives (.binary operator left right p) .real
  | always {f : Builtin} {kinds : KindSet} {k : Kind} (es : List Expr) (p : Position) :
      f.signature.returns = .always kinds → kinds.contains k = true → Gives (.call f es p) k
  | argument {f : Builtin} {es : List Expr} {e : Expr} {k : Kind} (p : Position) :
      f.signature.returns = .arguments → e ∈ es → Gives e k → Gives (.call f es p) k

/-- The expression is written in the form that a shape asks for. -/
inductive Has : Expr → Shape → Prop where
  | any (e : Expr) : Has e .any
  | var (name : String) (p : Position) : Has (.var name p) .column
  | prop (name : String) (p : Position) : Has (.prop name p) .column
  | literal (value : Scalar) (p : Position) : Has (.literal value p) .constant

def argument (e : Expr) : Argument := ⟨Gives s e, Has e⟩

/-- The expression, apart from its parts, is in order. -/
def InOrder : Expr → Prop
  | literal .. => True
  | var name _ => ∃ type, (name, type) ∈ s.vars.entries
  | prop name _ => ∃ column, s.Tells name column
  | negate operand _ => (operand.argument s).Numeric
  | binary _ left right _ => (left.argument s).Numeric ∧ (right.argument s).Numeric
  | call f arguments _ => Takes f (arguments.map (argument s))

/-- What is wrong with an expression whose parts are in order. -/
inductive Faulty : Expr → ResolveError → Prop where
  | var {name : String} {p : Position} : (∀ type, (name, type) ∉ s.vars.entries) →
      Faulty (.var name p) (.unknownVariable name p)
  | prop {name : String} {p : Position} : (∀ column, ¬s.Tells name column) →
      Faulty (.prop name p) (.unknownProperty name p)
  | negate {operand : Expr} {p : Position} {found : KindSet} :
      ¬(operand.argument s).Numeric → (operand.argument s).Found found →
      Faulty (.negate operand p) (.argumentKinds "-" 1 .numeric found p)
  | left {operator : BinaryOperator} {symbol : String} {does : Operator} {left right : Expr}
      {p : Position} {found : KindSet} : operator.Means symbol does →
      ¬(left.argument s).Numeric → (left.argument s).Found found →
      Faulty (.binary operator left right p) (.argumentKinds symbol 1 .numeric found p)
  | right {operator : BinaryOperator} {symbol : String} {does : Operator} {left right : Expr}
      {p : Position} {found : KindSet} : operator.Means symbol does →
      (left.argument s).Numeric → ¬(right.argument s).Numeric → (right.argument s).Found found →
      Faulty (.binary operator left right p) (.argumentKinds symbol 2 .numeric found p)
  | call {f : Builtin} {name : String} {es : List Expr} {p : Position} {error : ResolveError} :
      f.Called name → Misused f name (es.map (argument s)) p error → Faulty (.call f es p) error

/-- Of several expressions, the first that is not in order is at fault. -/
def FirstFault (es : List Expr) (error : ResolveError) : Prop :=
  ∃ before e after, es = before ++ e :: after ∧ (∀ b ∈ before, InOrder s b) ∧ Faulty s e error

/-- The formula has the structure of the expression, with its names looked up. -/
inductive StandsFor : Expr → Formula → Prop where
  | literal (value : Scalar) (p : Position) : StandsFor (.literal value p) (.constant value)
  | var {name : String} {type : VariableType} (p : Position) :
      (name, type) ∈ s.vars.entries → StandsFor (.var name p) (.var name type)
  | prop {name column : String} (p : Position) :
      s.Tells name column → StandsFor (.prop name p) (.prop name column)
  | negate {e : Expr} {x : Formula} (p : Position) :
      StandsFor e x → StandsFor (.negate e p) (.operation .negate [x])
  | binary {operator : BinaryOperator} {symbol : String} {does : Operator} {left right : Expr}
      {x y : Formula} (p : Position) : operator.Means symbol does →
      StandsFor left x → StandsFor right y →
      StandsFor (.binary operator left right p) (.operation does [x, y])
  | call {es : List Expr} {xs : List Formula} (f : Builtin) (p : Position) :
      List.Forall₂ StandsFor es xs → StandsFor (.call f es p) (.call f xs)

variable {s}

/-! ## Formulas and the expressions that they come from -/

section

variable {k : Kind} {p : Position}

theorem gives_literal_iff {value : Scalar} : Gives s (.literal value p) k ↔ value.kind = k := by
  constructor
  · rintro (_ | _ | _) <;> rfl
  · rintro rfl
    cases value <;> constructor

theorem gives_var_iff {name : String} {type : VariableType} (h : (name, type) ∈ s.vars.entries) :
    Gives s (.var name p) k ↔ type.kind = k := by
  constructor
  · intro gives
    cases gives with
    | var _ h' =>
      have same := (Named.get?_of_mem h).symm.trans (Named.get?_of_mem h')
      rw [Option.some.inj same]
  · rintro rfl
    exact .var p h

theorem gives_prop_iff {name : String} : Gives s (.prop name p) k ↔ .text = k :=
  ⟨fun | .prop .. => rfl, fun h => h ▸ .prop name p⟩

theorem gives_negate_iff {operand : Expr} : Gives s (.negate operand p) k ↔ .real = k :=
  ⟨fun | .negate .. => rfl, fun h => h ▸ .negate operand p⟩

theorem gives_binary_iff {operator : BinaryOperator} {left right : Expr} :
    Gives s (.binary operator left right p) k ↔ .real = k :=
  ⟨fun | .binary .. => rfl, fun h => h ▸ .binary operator left right p⟩

theorem gives_call_iff {f : Builtin} {es : List Expr} :
    Gives s (.call f es p) k ↔
      (∃ kinds, f.signature.returns = .always kinds ∧ kinds.contains k = true) ∨
        f.signature.returns = .arguments ∧ ∃ e ∈ es, Gives s e k := by
  constructor
  · intro gives
    cases gives with
    | always _ _ returns member => exact .inl ⟨_, returns, member⟩
    | argument _ returns he gives => exact .inr ⟨returns, _, he, gives⟩
  · rintro (⟨kinds, returns, member⟩ | ⟨returns, e, he, gives⟩)
    · exact .always es p returns member
    · exact .argument p returns he gives

mutual

theorem StandsFor.gives_iff : ∀ {e : Expr} {x : Formula}, StandsFor s e x →
    (x.kinds.contains k = true ↔ Gives s e k)
  | _, _, .literal .. => by
    rw [gives_literal_iff, Formula.kinds, KindSet.contains_single, beq_iff_eq]
  | _, _, .var _ known => by
    rw [gives_var_iff known, Formula.kinds, KindSet.contains_single, beq_iff_eq]
  | _, _, .prop .. => by
    rw [gives_prop_iff, Formula.kinds, KindSet.contains_single, beq_iff_eq]
  | _, _, .negate .. => by
    rw [gives_negate_iff, Formula.kinds_operation, KindSet.contains_single, beq_iff_eq]
  | _, _, .binary .. => by
    rw [gives_binary_iff, Formula.kinds_operation, KindSet.contains_single, beq_iff_eq]
  | _, _, .call f _ stand => by
    rw [gives_call_iff, ← gives_iff_of_all stand]
    cases returns : f.signature.returns with
    | always kinds => simp [Formula.kinds_of_always returns]
    | arguments => simp [Formula.kinds_of_arguments returns]

theorem gives_iff_of_all : ∀ {es : List Expr} {xs : List Formula},
    List.Forall₂ (StandsFor s) es xs →
      ((Formula.kindsOfAll xs).contains k = true ↔ ∃ e ∈ es, Gives s e k)
  | [], _, .nil => by simp [Formula.kindsOfAll]
  | _ :: _, _, .cons first rest => by
    rw [Formula.kindsOfAll, KindSet.contains_union, Bool.or_eq_true, first.gives_iff,
      gives_iff_of_all rest, List.exists_mem_cons_iff]

end

end

variable {e e' : Expr} {es : List Expr} {x : Formula} {xs : List Formula} {p : Position}
  {error error' : ResolveError}

theorem StandsFor.has_iff {shape : Shape} (h : StandsFor s e x) : x.Has shape ↔ Has e shape := by
  cases h <;> constructor <;> intro has <;> cases has <;> constructor

/-- A formula is as good an argument as the expression that it comes from. -/
theorem StandsFor.argument_eq (h : StandsFor s e x) : x.argument = e.argument s :=
  Argument.ext (funext fun _ => propext h.gives_iff) (funext fun _ => propext h.has_iff)

theorem StandsFor.found (h : StandsFor s e x) : (e.argument s).Found x.kinds :=
  h.argument_eq ▸ x.found_kinds

theorem StandsFor.numeric_iff (h : StandsFor s e x) :
    x.kinds.within .numeric = true ↔ (e.argument s).Numeric :=
  h.argument_eq ▸ x.numeric_iff

theorem arguments_eq (h : List.Forall₂ (StandsFor s) es xs) :
    xs.map Formula.argument = es.map (argument s) := by
  induction h with
  | nil => rfl
  | cons first _ ih => rw [List.map_cons, List.map_cons, first.argument_eq, ih]

/-! ## Operations -/

/-- What the check of a negation finds out. -/
theorem negate_outcome (h : StandsFor s e x) :
    match Formula.operation? .negate [x] p with
    | .ok y => y = .operation .negate [x] ∧ (e.argument s).Numeric
    | .error error => Faulty s (.negate e p) error := by
  rw [Formula.operation?, Signature.check_negate]
  by_cases numeric : x.kinds.within .numeric = true
  · rw [if_pos numeric]
    exact ⟨rfl, h.numeric_iff.1 numeric⟩
  · rw [if_neg numeric]
    exact .negate (mt h.numeric_iff.2 numeric) h.found

/-- What the check of an operation between two operands finds out. -/
theorem binary_outcome (operator : BinaryOperator) (p : Position) {left right : Expr} {y : Formula}
    (hl : StandsFor s left x) (hr : StandsFor s right y) :
    match Formula.operation? operator.operator [x, y] p with
    | .ok z => z = .operation operator.operator [x, y] ∧
        (left.argument s).Numeric ∧ (right.argument s).Numeric
    | .error error => Faulty s (.binary operator left right p) error := by
  have means := operator.means
  rw [Formula.operation?, Signature.check_binary means.ne_negate]
  by_cases first : x.kinds.within .numeric = true
  · rw [if_pos first]
    by_cases second : y.kinds.within .numeric = true
    · rw [if_pos second]
      exact ⟨rfl, hl.numeric_iff.1 first, hr.numeric_iff.1 second⟩
    · rw [if_neg second]
      exact .right means (hl.numeric_iff.1 first) (mt hr.numeric_iff.2 second) hr.found
  · rw [if_neg first]
    exact .left means (mt hl.numeric_iff.2 first) hl.found

/-! ## One fault at most -/

theorem Faulty.not_inOrder (h : Faulty s e error) : ¬InOrder s e := by
  cases h with
  | var unknown => exact fun ⟨type, known⟩ => unknown type known
  | prop unknown => exact fun ⟨column, known⟩ => unknown column known
  | negate not => exact not
  | left _ not => exact fun numeric => not numeric.1
  | right _ _ not => exact fun numeric => not numeric.2
  | call _ misused => exact misused.not_takes

theorem Faulty.unique (h : Faulty s e error) (h' : Faulty s e error') : error = error' := by
  cases h with
  | var => cases h' with | var => rfl
  | prop => cases h' with | prop => rfl
  | negate _ found => cases h' with | negate _ found' => rw [found.unique found']
  | left means not found => cases h' with
    | left means' _ found' => rw [means.symbol_eq, means'.symbol_eq, found.unique found']
    | right _ numeric => exact absurd numeric not
  | right means numeric _ found => cases h' with
    | left _ not => exact absurd numeric not
    | right means' _ _ found' => rw [means.symbol_eq, means'.symbol_eq, found.unique found']
  | call called misused => cases h' with
    | call called' misused' =>
      obtain rfl := called.name_eq.trans called'.name_eq.symm
      exact misused.unique misused'

theorem Faulty.position_eq (h : Faulty s e error) : error.position = e.position := by
  cases h with
  | call _ misused => exact misused.position_eq
  | _ => rfl

theorem FirstFault.unique (h : FirstFault s es error) (h' : FirstFault s es error') :
    error = error' := by
  obtain ⟨before, e, after, rfl, order, faulty⟩ := h
  obtain ⟨before', e', after', same, order', faulty'⟩ := h'
  -- The fault that comes first stands among the parts in order before the other.
  rcases List.append_eq_append_iff.1 same with ⟨more, rfl, rest⟩ | ⟨more, rfl, rest⟩
  · cases more with
    | nil => cases rest; exact faulty.unique faulty'
    | cons first more =>
      cases rest
      exact absurd (order' e (by simp)) faulty.not_inOrder
  · cases more with
    | nil => cases rest; exact faulty.unique faulty'
    | cons first more =>
      cases rest
      exact absurd (order e' (by simp)) faulty'.not_inOrder

/-! ## Resolution -/

theorem FirstFault.append (h : FirstFault s es error) (more : List Expr) :
    FirstFault s (es ++ more) error := by
  obtain ⟨before, e, after, rfl, order, faulty⟩ := h
  exact ⟨before, e, after ++ more, by simp, order, faulty⟩

theorem FirstFault.behind {before : List Expr} (h : FirstFault s es error)
    (hb : ∀ b ∈ before, InOrder s b) : FirstFault s (before ++ es) error := by
  obtain ⟨further, e, after, rfl, order, faulty⟩ := h
  exact ⟨before ++ further, e, after, by simp, List.forall_mem_append.2 ⟨hb, order⟩, faulty⟩

theorem Faulty.last (h : Faulty s e error) (hes : ∀ b ∈ es, InOrder s b) :
    FirstFault s (es ++ [e]) error := ⟨es, e, [], rfl, hes, h⟩

theorem Faulty.alone (h : Faulty s e error) : FirstFault s [e] error :=
  ⟨[], e, [], rfl, nofun, h⟩

/-- What resolution comes to, given the parts in the order in which they are looked at. -/
def Comes {α : Type} (s : Schema) (parts : List Expr) (result : α → Prop) :
    Except ResolveError α → Prop
  | .ok x => (∀ e ∈ parts, InOrder s e) ∧ result x
  | .error error => FirstFault s parts error

mutual

theorem resolve_comes : ∀ e : Expr, Comes s e.parts (StandsFor s e) (e.resolve s)
  | literal value p => ⟨List.forall_mem_singleton.2 trivial, .literal value p⟩
  | var name p => by
    rw [resolve]
    split
    · rename_i type h
      have known := Schema.variableType?_eq_some_iff.1 h
      exact ⟨List.forall_mem_singleton.2 ⟨type, known⟩, .var p known⟩
    · rename_i h
      exact (Faulty.var (Schema.variableType?_eq_none_iff.1 h)).alone
  | prop name p => by
    rw [resolve]
    split
    · rename_i column h
      have known := Schema.tells_iff.2 h
      exact ⟨List.forall_mem_singleton.2 ⟨column, known⟩, .prop p known⟩
    · rename_i h
      exact (Faulty.prop (Schema.propertyColumn?_eq_none_iff.1 h)).alone
  | negate operand p => by
    have inner := resolve_comes operand
    rw [resolve, parts]
    split
    · rename_i error h
      rw [h] at inner
      exact FirstFault.append inner _
    · rename_i x h
      rw [h] at inner
      obtain ⟨order, stands⟩ := inner
      have check := negate_outcome (p := p) stands
      split at check
      · rename_i y hy
        obtain ⟨rfl, numeric⟩ := check
        rw [hy]
        exact ⟨List.forall_mem_append.2 ⟨order, List.forall_mem_singleton.2 numeric⟩,
          .negate p stands⟩
      · rename_i hy
        rw [hy]
        exact check.last order
  | binary operator left right p => by
    have first := resolve_comes left
    have second := resolve_comes right
    rw [resolve, parts]
    split
    · rename_i error h
      rw [h] at first
      exact (FirstFault.append first _).append _
    · rename_i x h
      rw [h] at first
      split
      · rename_i error h'
        rw [h'] at second
        exact (FirstFault.behind second first.1).append _
      · rename_i y h'
        rw [h'] at second
        have order := List.forall_mem_append.2 ⟨first.1, second.1⟩
        have check := binary_outcome operator p first.2 second.2
        split at check
        · rename_i z hz
          obtain ⟨rfl, numeric⟩ := check
          rw [hz]
          exact ⟨List.forall_mem_append.2 ⟨order, List.forall_mem_singleton.2 numeric⟩,
            .binary p operator.means first.2 second.2⟩
        · rename_i hz
          rw [hz]
          exact check.last order
  | call f es p => by
    have inner := resolveAll_comes es
    rw [resolve, parts]
    split
    · rename_i error h
      rw [h] at inner
      exact FirstFault.append inner _
    · rename_i xs h
      rw [h] at inner
      obtain ⟨order, stand⟩ := inner
      have check := Signature.check_outcome f p xs
      rw [arguments_eq stand] at check
      unfold Formula.call?
      split
      · rename_i hc
        rw [hc] at check
        exact (Faulty.call f.called check).last order
      · rename_i hc
        rw [hc] at check
        exact ⟨List.forall_mem_append.2 ⟨order, List.forall_mem_singleton.2 check⟩, .call f p stand⟩

theorem resolveAll_comes : ∀ es : List Expr,
    Comes s (partsOfAll es) (List.Forall₂ (StandsFor s) es) (resolveAll s es)
  | [] => ⟨nofun, .nil⟩
  | e :: es => by
    have first := resolve_comes e
    have rest := resolveAll_comes es
    rw [resolveAll, partsOfAll]
    split
    · rename_i error h
      rw [h] at first
      exact FirstFault.append first _
    · rename_i x h
      rw [h] at first
      obtain ⟨order, stands⟩ := first
      split
      · rename_i error h'
        rw [h'] at rest
        exact FirstFault.behind rest order
      · rename_i xs h'
        rw [h'] at rest
        exact ⟨List.forall_mem_append.2 ⟨order, rest.1⟩, .cons stands rest.2⟩

end

/-- An expression resolves exactly if all its parts are in order. It resolves to the formula of its
structure, which gives the same kinds and in which every operator and function takes what it is
applied to. Else the error is that of the first part that is not in order, operands first, and
stands where that part stands. -/
theorem resolve_iff_inOrder (s : Schema) (e : Expr) :
    ((∃ x, e.resolve s = .ok x) ↔ ∀ part ∈ e.parts, InOrder s part) ∧
      (∀ x, e.resolve s = .ok x → StandsFor s e x ∧
        (∀ k, x.kinds.contains k = true ↔ Gives s e k) ∧ ∀ y ∈ x.parts, y.Obeys) ∧
      ∀ error, e.resolve s = .error error ↔
        ∃ before part after, e.parts = before ++ part :: after ∧
          (∀ b ∈ before, InOrder s b) ∧ Faulty s part error ∧ error.position = part.position := by
  have comes := resolve_comes (s := s) e
  refine ⟨⟨?_, fun order => ?_⟩, fun x h => ?_, fun error => ⟨fun h => ?_, ?_⟩⟩
  · rintro ⟨x, h⟩
    rw [h] at comes
    exact comes.1
  · cases h : e.resolve s with
    | ok x => exact ⟨x, rfl⟩
    | error error =>
      rw [h] at comes
      obtain ⟨before, part, after, parts, -, faulty⟩ := comes
      exact absurd (order part (parts ▸ by simp)) faulty.not_inOrder
  · rw [h] at comes
    exact ⟨comes.2, fun _ => comes.2.gives_iff, fun y hy =>
      Formula.obeys_of_resolved (resolve_resolved h (fun _ _ => trivial) y hy)⟩
  · rw [h] at comes
    obtain ⟨before, part, after, parts, order, faulty⟩ := comes
    exact ⟨before, part, after, parts, order, faulty, faulty.position_eq⟩
  · rintro ⟨before, part, after, parts, order, faulty, -⟩
    cases h : e.resolve s with
    | ok x =>
      rw [h] at comes
      exact absurd (comes.1 part (parts ▸ by simp)) faulty.not_inOrder
    | error error' =>
      rw [h] at comes
      exact congrArg _ (comes.unique ⟨before, part, after, parts, order, faulty⟩)

/-- The call on the left is found wrong before the name on the right is looked up. -/
example : (binary .add (call .abs [literal (.text "x") ⟨1, 5⟩] ⟨1, 1⟩) (var "y" ⟨1, 12⟩)
      ⟨1, 10⟩).resolve .empty =
    .error (.argumentKinds "abs" 1 .numeric (.single .text) ⟨1, 1⟩) := rfl

end Expr

end ColumnFormula
