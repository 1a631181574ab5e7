import Mathlib
import ColumnFormula.Proofs.Overwriting
import ColumnFormula.Proofs.Words

/-!
# Names of columns are unambiguous

A name is read from the left. An atom, that is a formula other than an operation, begins with
a word that ends at the next delimiter, and a call goes on with its arguments in brackets; an
operation begins with a minus or with its first operand, and operands that are operations are
bracketed. So a name can be taken apart in one way only, whatever follows it: an operator or a
bracket or a comma after an operand (`Operand`), the latter two after a whole formula
(`Whole`). Formulas over ordinary names with the same name have the same skeleton
(`skeleton_of_columnName`).
-/

namespace ColumnFormula

namespace Formula

/-- The formula, apart from its parts, has a name that can be read. -/
def WellNamed : Formula → Prop
  | constant value => value.Writable
  | var name _ => Ordinary name
  | prop _ column => Ordinary column
  | operation operator operands => operands.length = operator.signature.arity
  | call function arguments => arguments.length = function.signature.arity

def Readable (x : Formula) : Prop := ∀ y ∈ x.parts, y.WellNamed

theorem Readable.self {x : Formula} (h : x.Readable) : x.WellNamed := h x (self_mem_parts x)

theorem Readable.child {x y : Formula} (h : x.Readable) (hy : y ∈ x.children) : y.Readable :=
  fun z hz => h z (parts_trans hz (child_mem_parts hy))

/-! ## The pieces of a name -/

/-- The names of arguments that come after another one. -/
def furtherNames : List Formula → List Char
  | [] => []
  | x :: xs => ',' :: ' ' :: (x.columnName.toList ++ furtherNames xs)

def argumentNames : List Formula → List Char
  | [] => []
  | x :: xs => x.columnName.toList ++ furtherNames xs

/-- The word that an atom begins with. -/
def lead : Formula → List Char
  | constant value => value.columnName.toList
  | var name _ => name.toList
  | prop _ column => column.toList
  | operation .. => []
  | call function _ => function.name.toList

/-- What comes after it. -/
def tail : Formula → List Char
  | call _ arguments => '(' :: (argumentNames arguments ++ [')'])
  | _ => []

/-- Whether a formula is bracketed as an operand, of several or (`single`) alone. -/
def isBracketed (single : Bool) (x : Formula) : Bool := (single && x.isConstant) || x.isOperation

def operandName (single : Bool) (x : Formula) : List Char :=
  if x.isBracketed single then '(' :: (x.columnName.toList ++ [')']) else x.columnName.toList

theorem toList_bracketed (name : String) :
    (bracketed name).toList = '(' :: (name.toList ++ [')']) := by
  simp [bracketed]

theorem toList_intercalate (xs : List Formula) :
    (", ".intercalate (columnNames xs)).toList = argumentNames xs := by
  cases xs with
  | nil => rfl
  | cons x xs =>
    induction xs generalizing x with
    | nil => simp [columnNames, argumentNames, furtherNames]
    | cons y ys ih =>
      have ih := ih y
      rw [columnNames] at ih
      rw [columnNames, columnNames, String.intercalate_cons_cons, argumentNames,
        String.toList_append, String.toList_append, ih]
      simp [argumentNames, furtherNames]

theorem toList_atom {x : Formula} (h : x.isOperation = false) :
    x.columnName.toList = x.lead ++ x.tail := by
  cases x with
  | operation => cases h
  | call function arguments =>
    rw [columnName, String.toList_append, toList_bracketed, toList_intercalate]
    rfl
  | _ => exact (List.append_nil _).symm

/-- A single operand stands behind the operator. -/
theorem toList_single (operator : Operator) (x : Formula) :
    (operation operator [x]).columnName.toList = operator.symbol.toList ++ x.operandName true := by
  rw [columnName, String.toList_append, operandName, isBracketed, Bool.true_and]
  split
  · rw [toList_bracketed]
  · rfl

theorem toList_negation (x : Formula) :
    (operation .negate [x]).columnName.toList = '-' :: x.operandName true :=
  toList_single .negate x

theorem toList_operand (x : Formula) :
    (if x.isOperation then bracketed x.columnName else x.columnName).toList =
      x.operandName false := by
  rw [operandName, isBracketed, Bool.false_and, Bool.false_or]
  split
  · exact toList_bracketed _
  · rfl

theorem toList_binary (operator : Operator) (x y : Formula) :
    (operation operator [x, y]).columnName.toList =
      x.operandName false ++ (operator.symbol.toList ++ y.operandName false) := by
  rw [columnName, operandNames_eq_map, List.map_cons, List.map_cons, List.map_nil,
    String.intercalate_cons_cons, String.intercalate_singleton, String.toList_append,
    String.toList_append, toList_operand, toList_operand, List.append_assoc]
  intro z hz
  cases hz

/-! ## What comes next -/

variable {r s : List Char} {x y : Formula}

/-- After an operand comes an operator, a closing bracket or a comma. -/
def Following (r : List Char) : Prop := Delimited r ∧ '(' ∉ r.head?

/-- After a formula comes a closing bracket or a comma. -/
def Closing (r : List Char) : Prop := ∀ c ∈ r.head?, c = ')' ∨ c = ','

theorem Closing.following (h : Closing r) : Following r := by
  refine ⟨fun c hc => ?_, fun open_ => ?_⟩
  · rcases h c hc with rfl | rfl <;> decide
  · rcases h _ open_ with h | h <;> exact absurd h (by decide)

theorem Following.ne_bracket (h : Following r) : r ≠ '(' :: s := by
  rintro rfl
  exact h.2 rfl

theorem closing_bracket (r : List Char) : Closing (')' :: r) := by
  intro c hc
  cases hc
  exact .inl rfl

theorem closing_furtherNames (xs : List Formula) (r : List Char) :
    Closing (furtherNames xs ++ ')' :: r) := by
  cases xs with
  | nil => exact closing_bracket r
  | cons x xs =>
    intro c hc
    cases hc
    exact .inr rfl

theorem symbol_cons (operator : Operator) : ∃ c, operator.symbol.toList = [c] ∧
    c ∈ delimiters ∧ c ≠ '(' ∧ c ≠ ')' ∧ c ≠ ',' := by
  cases operator <;> exact ⟨_, rfl, by decide⟩

theorem following_symbol (operator : Operator) (r : List Char) :
    Following (operator.symbol.toList ++ r) := by
  obtain ⟨c, hc, delimiter, opening, -⟩ := symbol_cons operator
  rw [hc]
  refine ⟨fun d hd => ?_, fun hd => ?_⟩
  · cases hd; exact delimiter
  · cases hd; exact opening rfl

theorem Closing.ne_symbol (h : Closing r) (operator : Operator) :
    r ≠ operator.symbol.toList ++ s := by
  obtain ⟨c, hc, -, -, bracket, comma⟩ := symbol_cons operator
  rintro rfl
  rw [hc] at h
  rcases h c rfl with h | h
  · exact bracket h
  · exact comma h

theorem delimited_tail (x : Formula) (h : Following r) : Delimited (x.tail ++ r) := by
  cases x with
  | call =>
    intro c hc
    cases hc
    decide
  | _ => exact h.1

/-! ## Atoms -/

theorem lead_named (h : x.WellNamed) (atom : x.isOperation = false)
    (named : x.isConstant = false) : ∃ name, Ordinary name ∧ x.lead = name.toList := by
  cases x with
  | constant => cases named
  | operation => cases atom
  | call function => exact ⟨_, ordinary_function function, rfl⟩
  | var | prop => exact ⟨_, h, rfl⟩

theorem closed_lead (h : x.WellNamed) (atom : x.isOperation = false) : Closed x.lead := by
  cases x with
  | constant => exact Scalar.closed_columnName h
  | operation => cases atom
  | call function => exact (ordinary_function function).closed
  | var | prop => exact Ordinary.closed h

theorem atom_ne_bracket (h : x.WellNamed) (atom : x.isOperation = false) :
    x.columnName.toList ++ r ≠ '(' :: s := by
  obtain ⟨c, cs, hc, bracket⟩ : ∃ c cs, x.columnName.toList = c :: cs ∧ c ≠ '(' := by
    cases x with
    | constant value =>
      obtain ⟨c, cs, hc, bracket, -⟩ := Scalar.columnName_cons value
      exact ⟨c, cs, hc, bracket⟩
    | _ =>
      obtain ⟨name, ordinary, hn⟩ := lead_named h atom rfl
      obtain ⟨c, cs, hc, start⟩ := ordinary.start
      refine ⟨c, cs ++ tail _, by rw [toList_atom atom, hn, hc]; rfl, ?_⟩
      rintro rfl
      exact absurd start (by decide)
  rw [hc]
  intro he
  exact bracket (List.cons.inj he).1

theorem not_bracketed {single : Bool} (h : x.isBracketed single = false) :
    x.isOperation = false ∧ (single = true → x.isConstant = false) := by
  obtain ⟨constant, atom⟩ := Bool.or_eq_false_iff.1 h
  refine ⟨atom, fun hs => ?_⟩
  rwa [hs, Bool.true_and] at constant

/-- A negation is no constant with a sign. -/
theorem negation_ne_atom (hx : x.WellNamed) (hy : y.WellNamed) (atom : y.isOperation = false)
    (hr : Following r) (hs : Following s) :
    '-' :: (x.operandName true ++ r) ≠ y.columnName.toList ++ s := by
  intro h
  by_cases named : y.isConstant = false
  · obtain ⟨name, ordinary, hn⟩ := lead_named hy atom named
    obtain ⟨c, cs, hc, start⟩ := ordinary.start
    rw [toList_atom atom, hn, hc] at h
    cases (List.cons.inj h).1
    exact absurd start (by decide)
  cases y with
  | constant value =>
    obtain ⟨c, cs, hc, -, minus⟩ := Scalar.columnName_cons value
    rw [columnName, hc] at h
    obtain ⟨rfl, rest⟩ := List.cons.inj h
    -- after the minus stands a bracket or a name here, a digit or infinity there
    rw [operandName] at rest
    split at rest
    · rcases minus rfl with rfl | ⟨d, ds, rfl, digit⟩
      · exact absurd (List.cons.inj rest).1 (by decide)
      · cases (List.cons.inj rest).1
        exact absurd digit (by decide)
    · rename_i bare
      obtain ⟨bare, single⟩ := not_bracketed (Bool.eq_false_iff.2 bare)
      obtain ⟨name, ordinary, hn⟩ := lead_named hx bare (single rfl)
      rw [toList_atom bare, List.append_assoc, hn] at rest
      rcases minus rfl with rfl | ⟨d, ds, rfl, digit⟩
      · have closed : Closed ['i', 'n', 'f'] := closed_of_nameChars (by decide) (by decide)
        have same := ordinary.closed.unique closed (delimited_tail x hr) hs.1 rest
        exact ordinary.not_number.1 (String.toList_inj.1 same.1)
      · obtain ⟨c, cs, hc, start⟩ := ordinary.start
        rw [hc] at rest
        cases (List.cons.inj rest).1
        rw [isDigit_of_nameStart start] at digit
        cases digit
  | _ => exact named rfl

/-! ## Reading a name -/

/-- From what is written of `x` and of `y`, each with something allowed after it, one learns
their skeletons, and where they end. -/
def Separable (write : Formula → List Char) (Rest : List Char → Prop) (x y : Formula) : Prop :=
  ∀ r s, Rest r → Rest s → write x ++ r = write y ++ s → x.skeleton = y.skeleton ∧ r = s

theorem Separable.symm {write : Formula → List Char} {Rest : List Char → Prop}
    (h : Separable write Rest x y) : Separable write Rest y x := by
  intro r s hr hs he
  obtain ⟨same, rest⟩ := h s r hs hr he.symm
  exact ⟨same.symm, rest.symm⟩

def Whole (x y : Formula) : Prop := Separable (·.columnName.toList) Closing x y

def Operand (single : Bool) (x y : Formula) : Prop := Separable (operandName single) Following x y

/-- The formula is told from all others. -/
def Told (x : Formula) : Prop :=
  ∀ y : Formula, y.Readable → Whole x y ∧ ∀ single, Operand single x y

theorem furtherNames_unique {xs ys : List Formula} (hx : ∀ x ∈ xs, x.Told)
    (hy : ∀ y ∈ ys, y.Readable)
    (h : furtherNames xs ++ ')' :: r = furtherNames ys ++ ')' :: s) :
    skeletons xs = skeletons ys ∧ r = s := by
  induction xs generalizing ys with
  | nil =>
    cases ys with
    | nil => exact ⟨rfl, (List.cons.inj h).2⟩
    | cons => exact absurd (List.cons.inj h).1 (by decide)
  | cons x xs ih =>
    cases ys with
    | nil => exact absurd (List.cons.inj h).1 (by decide)
    | cons y ys =>
      simp only [furtherNames, List.cons_append, List.append_assoc, List.cons.injEq,
        true_and] at h
      have first := (hx x List.mem_cons_self y (hy y List.mem_cons_self)).1
      obtain ⟨hf, h⟩ := first _ _ (closing_furtherNames xs r) (closing_furtherNames ys s) h
      obtain ⟨hs, h⟩ := ih (fun z hz => hx z (List.mem_cons_of_mem _ hz))
        (fun z hz => hy z (List.mem_cons_of_mem _ hz)) h
      exact ⟨by rw [skeletons, skeletons, hf, hs], h⟩

theorem argumentNames_unique {xs ys : List Formula} (hx : ∀ x ∈ xs, x.Told)
    (hy : ∀ y ∈ ys, y.Readable) (hxs : xs ≠ []) (hys : ys ≠ [])
    (h : argumentNames xs ++ ')' :: r = argumentNames ys ++ ')' :: s) :
    skeletons xs = skeletons ys ∧ r = s := by
  obtain ⟨x, xs, rfl⟩ := List.exists_cons_of_ne_nil hxs
  obtain ⟨y, ys, rfl⟩ := List.exists_cons_of_ne_nil hys
  rw [argumentNames, argumentNames, List.append_assoc, List.append_assoc] at h
  obtain ⟨told, hx⟩ := List.forall_mem_cons.1 hx
  obtain ⟨readable, hy⟩ := List.forall_mem_cons.1 hy
  obtain ⟨first, h⟩ := (told y readable).1 _ _ (closing_furtherNames xs r)
    (closing_furtherNames ys s) h
  obtain ⟨rest, h⟩ := furtherNames_unique hx hy h
  exact ⟨by rw [skeletons, skeletons, first, rest], h⟩

theorem arguments_ne_nil {function : Builtin} {xs : List Formula}
    (h : (call function xs).WellNamed) : xs ≠ [] := by
  rintro rfl
  cases function <;> cases h

theorem leaf_cases (leaf : x.strategy? = none) :
    (∃ value, x = constant value) ∨ ∃ column, x.reads? = some column := by
  cases x with
  | constant value => exact .inl ⟨value, rfl⟩
  | var | prop => exact .inr ⟨_, rfl⟩
  | operation | call => cases leaf

theorem WellNamed.reads {column : String} (h : x.WellNamed) (hc : x.reads? = some column) :
    Ordinary column := by
  cases x with
  | var | prop => cases hc; exact h
  | _ => cases hc

theorem skeleton_of_leaf (hx : x.WellNamed) (hy : y.WellNamed) (leaf : x.strategy? = none)
    (leaf' : y.strategy? = none) (h : x.columnName = y.columnName) : x.skeleton = y.skeleton := by
  rcases leaf_cases leaf with ⟨v, rfl⟩ | ⟨column, hc⟩ <;>
    rcases leaf_cases leaf' with ⟨w, rfl⟩ | ⟨column', hd⟩
  · rw [Scalar.columnName_injective h]
  · rw [columnName_reference hd] at h
    exact absurd h.symm ((hy.reads hd).ne_columnName v)
  · rw [columnName_reference hc] at h
    exact absurd h ((hx.reads hc).ne_columnName w)
  · rw [columnName_reference hc, columnName_reference hd] at h
    rw [skeleton_reference hc, skeleton_reference hd, h]

theorem atom_unique (hx : ∀ z ∈ x.children, z.Told) (readable : x.Readable)
    (readable' : y.Readable) (atom : x.isOperation = false) (atom' : y.isOperation = false) :
    Separable (·.columnName.toList) Following x y := by
  intro r s hr hs h
  dsimp only at h
  rw [toList_atom atom, toList_atom atom', List.append_assoc, List.append_assoc] at h
  obtain ⟨word, rest⟩ := (closed_lead readable.self atom).unique (closed_lead readable'.self atom')
    (delimited_tail x hr) (delimited_tail y hs) h
  cases x with
  | operation => cases atom
  | call function arguments =>
    cases y with
    | operation => cases atom'
    | call function' arguments' =>
      obtain rfl := Builtin.name_injective word
      simp only [tail, List.cons_append, List.append_assoc, List.nil_append, List.cons.injEq,
        true_and] at rest
      obtain ⟨same, rest⟩ := argumentNames_unique hx (fun z hz => readable'.child hz)
        (arguments_ne_nil readable.self) (arguments_ne_nil readable'.self) rest
      exact ⟨congrArg (call function) same, rest⟩
    | _ => exact absurd rest.symm hs.ne_bracket
  | _ =>
    cases y with
    | operation => cases atom'
    | call => exact absurd rest hr.ne_bracket
    | _ =>
      have name := String.toList_inj.1 word
      exact ⟨skeleton_of_leaf readable.self readable'.self rfl rfl name, rest⟩

theorem operandName_bracketed {single : Bool} (h : x.isBracketed single = true) :
    x.operandName single = '(' :: (x.columnName.toList ++ [')']) := if_pos h

theorem operandName_bare {single : Bool} (h : x.isBracketed single = false) :
    x.operandName single = x.columnName.toList := if_neg (Bool.eq_false_iff.1 h)

theorem operand_of_whole {single : Bool} (hx : ∀ z ∈ x.children, z.Told) (readable : x.Readable)
    (readable' : y.Readable) (whole : x.isBracketed single = true → Whole x y) :
    Operand single x y := by
  intro r s hr hs h
  cases bare : x.isBracketed single <;> cases bare' : y.isBracketed single
  · rw [operandName_bare bare, operandName_bare bare'] at h
    exact atom_unique hx readable readable' (not_bracketed bare).1 (not_bracketed bare').1
      r s hr hs h
  · rw [operandName_bare bare, operandName_bracketed bare'] at h
    exact absurd h (atom_ne_bracket readable.self (not_bracketed bare).1)
  · rw [operandName_bracketed bare, operandName_bare bare'] at h
    exact absurd h.symm (atom_ne_bracket readable'.self (not_bracketed bare').1)
  · rw [operandName_bracketed bare, operandName_bracketed bare'] at h
    simp only [List.cons_append, List.append_assoc, List.nil_append, List.cons.injEq,
      true_and] at h
    obtain ⟨same, rest⟩ := whole bare _ _ (closing_bracket r) (closing_bracket s) h
    exact ⟨same, (List.cons.inj rest).2⟩

theorem operation_cases (h : x.WellNamed) : x.isOperation = false ∨
    (∃ z, x = operation .negate [z]) ∨
    ∃ operator z w, operator ≠ .negate ∧ x = operation operator [z, w] := by
  cases x with
  | operation operator operands =>
    refine .inr ?_
    cases operator with
    | negate =>
      match operands, h with
      | [z], _ => exact .inl ⟨z, rfl⟩
    | _ =>
      match operands, h with
      | [z, w], _ => exact .inr ⟨_, z, w, by decide, rfl⟩
  | _ => exact .inl rfl

theorem negation_ne_operand (hx : x.WellNamed) (hy : y.WellNamed) (hr : Following r)
    (hs : Following s) : '-' :: (x.operandName true ++ r) ≠ y.operandName false ++ s := by
  cases bare : y.isBracketed false
  · rw [operandName_bare bare]
    exact negation_ne_atom hx hy (not_bracketed bare).1 hr hs
  · rw [operandName_bracketed bare]
    intro h
    exact absurd (List.cons.inj h).1 (by decide)

/-- Negation and subtraction share a symbol, the operators with two operands do not. -/
theorem symbol_injective {operator other : Operator} (h : operator ≠ .negate)
    (h' : other ≠ .negate) (hs : operator.symbol.toList ++ r = other.symbol.toList ++ s) :
    operator = other ∧ r = s := by
  cases operator <;> cases other <;> simp_all [Operator.symbol]

theorem binary_ne_atom {z : Formula} (h : Operand false z y) (atom : y.isOperation = false)
    (hs : Closing s) (operator : Operator) :
    z.operandName false ++ (operator.symbol.toList ++ r) ≠ y.columnName.toList ++ s := by
  have bare : y.isBracketed false = false := atom
  intro he
  rw [← operandName_bare bare] at he
  obtain ⟨-, rest⟩ := h _ _ (following_symbol operator r) hs.following he
  exact hs.ne_symbol operator rest.symm

theorem whole_atom (hx : ∀ z ∈ x.children, z.Told) (readable : x.Readable)
    (readable' : y.Readable) (atom : x.isOperation = false) : Whole x y := by
  intro r s hr hs h
  dsimp only at h
  rcases operation_cases readable'.self with atom' | ⟨z, rfl⟩ | ⟨other, z, w, -, rfl⟩
  · exact atom_unique hx readable readable' atom atom' r s hr.following hs.following h
  · have inner : z.Readable := readable'.child List.mem_cons_self
    rw [toList_negation] at h
    exact absurd h.symm (negation_ne_atom inner.self readable.self atom hs.following hr.following)
  · have inner : z.Readable := readable'.child List.mem_cons_self
    have first : Operand false x z :=
      operand_of_whole hx readable inner fun h => by cases atom.symm.trans h
    -- an operator comes after the operand, but not after the whole of `x`
    rw [toList_binary, List.append_assoc, List.append_assoc] at h
    exact absurd h.symm (binary_ne_atom first.symm atom hr other)

theorem whole_negation {z : Formula} (hz : z.Told) (readable : z.Readable)
    (readable' : y.Readable) : Whole (operation .negate [z]) y := by
  intro r s hr hs h
  dsimp only at h
  rw [toList_negation] at h
  rcases operation_cases readable'.self with atom' | ⟨z', rfl⟩ | ⟨other, z', w', -, rfl⟩
  · exact absurd h (negation_ne_atom readable.self readable'.self atom' hr.following hs.following)
  · have inner : z'.Readable := readable'.child List.mem_cons_self
    rw [toList_negation] at h
    obtain ⟨same, rest⟩ := (hz z' inner).2 true r s hr.following hs.following (List.cons.inj h).2
    exact ⟨by simp only [skeleton, skeletons, same], rest⟩
  · have inner : z'.Readable := readable'.child List.mem_cons_self
    rw [toList_binary, List.append_assoc, List.append_assoc] at h
    exact absurd h (negation_ne_operand readable.self inner.self hr.following
      (following_symbol other _))

theorem whole_binary {operator : Operator} {z w : Formula} (binary : operator ≠ .negate)
    (hz : z.Told) (hw : w.Told) (readable : z.Readable) (readable' : y.Readable) :
    Whole (operation operator [z, w]) y := by
  intro r s hr hs h
  dsimp only at h
  rw [toList_binary, List.append_assoc, List.append_assoc] at h
  rcases operation_cases readable'.self with atom' | ⟨z', rfl⟩ | ⟨other, z', w', binary', rfl⟩
  · exact absurd h (binary_ne_atom ((hz y readable').2 false) atom' hs operator)
  · have inner : z'.Readable := readable'.child List.mem_cons_self
    rw [toList_negation] at h
    exact absurd h.symm (negation_ne_operand inner.self readable.self hs.following
      (following_symbol operator _))
  · have inner : z'.Readable := readable'.child List.mem_cons_self
    have inner' : w'.Readable := readable'.child (List.mem_cons_of_mem _ List.mem_cons_self)
    rw [toList_binary, List.append_assoc, List.append_assoc] at h
    obtain ⟨first, rest⟩ := (hz z' inner).2 false _ _ (following_symbol operator _)
      (following_symbol other _) h
    obtain ⟨rfl, others⟩ := symbol_injective binary binary' rest
    obtain ⟨second, same⟩ := (hw w' inner').2 false r s hr.following hs.following others
    exact ⟨by simp only [skeleton, skeletons, first, second], same⟩

theorem told_of_children (readable : x.Readable) (hx : ∀ z ∈ x.children, z.Told) : x.Told := by
  intro y readable'
  -- the cases are those of the first formula; each lemma goes through those of the second
  have whole : Whole x y := by
    rcases operation_cases readable.self with atom | ⟨z, rfl⟩ | ⟨operator, z, w, binary, rfl⟩
    · exact whole_atom hx readable readable' atom
    · have hz : z ∈ children (operation .negate [z]) := List.mem_cons_self
      exact whole_negation (hx z hz) (readable.child hz) readable'
    · have hz : z ∈ children (operation operator [z, w]) := List.mem_cons_self
      have hw : w ∈ children (operation operator [z, w]) :=
        List.mem_cons_of_mem _ List.mem_cons_self
      exact whole_binary binary (hx z hz) (hx w hw) (readable.child hz) readable'
  exact ⟨whole, fun _ => operand_of_whole hx readable readable' fun _ => whole⟩

/-- What is written of the children is told apart as arguments and as operands, so what is
written of the formula is told apart too. -/
theorem told {x : Formula} (h : x.Readable) : x.Told := by
  induction x using byKind with
  | constant => exact told_of_children h fun _ hz => absurd hz List.not_mem_nil
  | reference x _ hx =>
    refine told_of_children h fun z hz => ?_
    rw [children_reference hx] at hz
    exact absurd hz List.not_mem_nil
  | derivation x _ _ ih => exact told_of_children h fun z hz => ih z hz (h.child hz)

theorem skeleton_of_columnName (hx : x.Readable) (hy : y.Readable)
    (h : x.columnName = y.columnName) : x.skeleton = y.skeleton :=
  ((told hx y hy).1 [] [] nofun nofun (congrArg (·.toList ++ []) h)).1

theorem Resolved.wellNamed {schema : Schema} (h : x.Resolved schema Quotable)
    (ordinary : ∀ column ∈ schema.columns, Ordinary column) : x.WellNamed := by
  cases x with
  | constant value =>
    cases value with
    | text => exact h
    | integer | real => trivial
  | var => exact ordinary _ (Schema.mem_columns_of_variable h)
  | prop => exact ordinary _ (Schema.mem_columns_of_property h)
  | operation | call =>
    obtain ⟨_, check⟩ := h
    exact length_of_check check

end Formula

/-! ## Equations -/

namespace Equation

variable {s : Schema} {text other : String} {e f : Equation} {x y : Formula}

theorem readable_of_compile (ordinary : ∀ column ∈ s.columns, Ordinary column)
    (h : compile s text = .ok e) (hx : x ∈ e.root.parts) : x.Readable := fun y hy =>
  (compile_resolved h y (Formula.parts_trans hy hx)).wellNamed ordinary

/-- In equations over one schema, whatever their texts, two parts have the same name exactly if
they are the same but for what their references are read as. -/
theorem columnName_eq_iff (ordinary : ∀ column ∈ s.columns, Ordinary column)
    (he : compile s text = .ok e) (hf : compile s other = .ok f) (hx : x ∈ e.root.parts)
    (hy : y ∈ f.root.parts) : x.columnName = y.columnName ↔ x.skeleton = y.skeleton := by
  have hx := readable_of_compile ordinary he hx
  have hy := readable_of_compile ordinary hf hy
  refine ⟨Formula.skeleton_of_columnName hx hy, fun h => ?_⟩
  rw [← Formula.columnName_skeleton x, h, Formula.columnName_skeleton]

/-- A field that can be named in two ways. -/
def machines : Schema :=
  (Schema.empty.addVariable "Time" .result .real).addProperty "Machine" "machine"

def foundOn (identifier : String) : Formula :=
  .operation .negate [.call .find
    [.operation .subtract
      [.constant (.integer (-5)), .operation .negate [.var "Time" ⟨.result, .real⟩]],
      .prop identifier "machine", .constant (.text "-(5)")]]

theorem columnName_eq_iff_foundOn :
    compile machines "-find(-5 - -'Time', Machine, \"-(5)\")" =
        .ok ⟨"-find(-5 - -'Time', Machine, \"-(5)\")", foundOn "Machine"⟩ ∧
      compile machines "-find(-5 - -'Time', machine, \"-(5)\")" =
        .ok ⟨"-find(-5 - -'Time', machine, \"-(5)\")", foundOn "machine"⟩ ∧
      (∀ column ∈ machines.columns, Ordinary column) ∧
      (foundOn "Machine").columnName = "-find(-5-(-Time), machine, \"-(5)\")" ∧
      ((foundOn "Machine").columnName = (foundOn "machine").columnName ↔
        (foundOn "Machine").skeleton = (foundOn "machine").skeleton) := by
  have byIdentifier : compile machines "-find(-5 - -'Time', Machine, \"-(5)\")" =
      .ok ⟨"-find(-5 - -'Time', Machine, \"-(5)\")", foundOn "Machine"⟩ := by cbv
  have byColumn : compile machines "-find(-5 - -'Time', machine, \"-(5)\")" =
      .ok ⟨"-find(-5 - -'Time', machine, \"-(5)\")", foundOn "machine"⟩ := by cbv
  have ordinary : ∀ column ∈ machines.columns, Ordinary column := by
    have columns : machines.columns = ["Time", "machine"] := rfl
    intro column hc
    rw [columns, List.mem_cons, List.mem_singleton] at hc
    rcases hc with rfl | rfl <;>
      exact ⟨⟨_, _, rfl, by decide⟩, List.all_eq_true.1 (by decide), by decide⟩
  exact ⟨byIdentifier, byColumn, ordinary, by cbv,
    columnName_eq_iff ordinary byIdentifier byColumn (Formula.self_mem_parts _)
      (Formula.self_mem_parts _)⟩

/-- A formula over ordinary columns names no column twice for different things. -/
theorem unambiguous_of_compile (ordinary : ∀ column ∈ s.columns, Ordinary column)
    (h : compile s text = .ok e) : e.root.Unambiguous := fun _ hy _ hz =>
  Formula.skeleton_of_columnName (readable_of_compile ordinary h hy)
    (readable_of_compile ordinary h hz)

/-- So its evaluation writes no column that it reads. -/
theorem apart_of_compile (ordinary : ∀ column ∈ s.columns, Ordinary column)
    (h : compile s text = .ok e) : e.root.Apart := (unambiguous_of_compile ordinary h).apart

end Equation

end ColumnFormula
