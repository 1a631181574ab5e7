import ColumnFormula.Formula

/-!
# Parts of a formula

`parts` lists a formula and all that it is made of, arguments first. Three kinds of formulas
are told apart: constants, references (`reads?` gives the column), and derivations, which
make a column out of their children by a strategy (`strategy?`); `byKind` is induction over
these. `skeleton` forgets what the name of a column does not depend on.
-/

namespace ColumnFormula.Formula

/-- The column that a reference reads. -/
def reads? : Formula → Option String
  | var name _ => some name
  | prop _ column => some column
  | _ => none

/-- How a derivation makes its column. -/
def strategy? : Formula → Option Strategy
  | operation operator _ => some (.perRow operator.kernel)
  | call function _ => some function.strategy
  | _ => none

mutual

def parts : Formula → List Formula
  | constant value => [constant value]
  | var name type => [var name type]
  | prop identifier column => [prop identifier column]
  | operation operator operands => partsOfAll operands ++ [operation operator operands]
  | call function arguments => partsOfAll arguments ++ [call function arguments]

def partsOfAll : List Formula → List Formula
  | [] => []
  | x :: xs => x.parts ++ partsOfAll xs

end

/-- The columns that a formula reads. -/
def columnsRead (x : Formula) : List String := x.parts.filterMap reads?

/-- The parts that write a column of their own. -/
def writers (x : Formula) : List Formula := x.parts.filter (·.reads?.isNone)

/-! ## Induction -/

mutual

theorem byKind {P : Formula → Prop} (constant : ∀ value, P (constant value))
    (reference : ∀ x column, x.reads? = some column → P x)
    (derivation : ∀ x strategy, x.strategy? = some strategy → (∀ y ∈ x.children, P y) → P x) :
    ∀ x, P x
  | .constant value => constant value
  | .var .. => reference _ _ rfl
  | .prop .. => reference _ _ rfl
  | .operation _ operands =>
    derivation _ _ rfl (byKindAll constant reference derivation operands)
  | .call _ arguments => derivation _ _ rfl (byKindAll constant reference derivation arguments)

theorem byKindAll {P : Formula → Prop} (constant : ∀ value, P (.constant value))
    (reference : ∀ x column, x.reads? = some column → P x)
    (derivation : ∀ x strategy, x.strategy? = some strategy → (∀ y ∈ x.children, P y) → P x) :
    ∀ xs : List Formula, ∀ x ∈ xs, P x
  | [], _, h => nomatch h
  | x :: xs, y, h => (List.mem_cons.1 h).elim
    (fun hy => hy ▸ byKind constant reference derivation x)
    (byKindAll constant reference derivation xs y)

end

theorem partsOfAll_eq (xs : List Formula) : partsOfAll xs = xs.flatMap parts := by
  induction xs with
  | nil => rfl
  | cons x xs ih => rw [partsOfAll, ih, List.flatMap_cons]

theorem parts_constant (value : Scalar) : (constant value).parts = [constant value] := rfl

theorem parts_reference {x : Formula} {column : String} (h : x.reads? = some column) :
    x.parts = [x] := by
  cases x <;> first | rfl | cases h

theorem children_reference {x : Formula} {column : String} (h : x.reads? = some column) :
    x.children = [] := by
  cases x <;> first | rfl | cases h

theorem parts_derivation {x : Formula} {s : Strategy} (h : x.strategy? = some s) :
    x.parts = x.children.flatMap parts ++ [x] := by
  cases x with
  | operation | call => rw [parts, partsOfAll_eq]; rfl
  | _ => cases h

theorem reads?_derivation {x : Formula} {s : Strategy} (h : x.strategy? = some s) :
    x.reads? = none := by
  cases x <;> first | rfl | cases h

theorem columnName_reference {x : Formula} {column : String} (h : x.reads? = some column) :
    x.columnName = column := by
  cases x with
  | var | prop => exact Option.some.inj h
  | _ => cases h

theorem self_mem_parts (x : Formula) : x ∈ x.parts := by
  induction x using byKind with
  | constant => simp [parts_constant]
  | reference x _ h => simp [parts_reference h]
  | derivation x _ h => simp [parts_derivation h]

/-- A part of a derivation is the whole or part of a child. -/
theorem mem_parts_derivation {x y : Formula} {s : Strategy} (h : x.strategy? = some s) :
    y ∈ x.parts ↔ (∃ z ∈ x.children, y ∈ z.parts) ∨ y = x := by
  rw [parts_derivation h, List.mem_append, List.mem_flatMap, List.mem_singleton]

theorem mem_parts {x y : Formula} (h : y ∈ x.parts) :
    (∃ z ∈ x.children, y ∈ z.parts) ∨ y = x := by
  cases x with
  | operation | call => exact (mem_parts_derivation rfl).1 h
  | _ => exact .inr (List.mem_singleton.1 h)

theorem parts_trans {x y z : Formula} (hx : x ∈ y.parts) (hy : y ∈ z.parts) : x ∈ z.parts := by
  induction z using byKind with
  | constant value =>
    rw [parts_constant, List.mem_singleton] at hy
    rwa [hy] at hx
  | reference z _ h =>
    rw [parts_reference h, List.mem_singleton] at hy
    rwa [hy] at hx
  | derivation z s h ih =>
    rcases (mem_parts_derivation h).1 hy with ⟨w, hw, hy⟩ | rfl
    · exact (mem_parts_derivation h).2 (.inl ⟨w, hw, ih w hw hy⟩)
    · exact hx

theorem child_mem_parts {x y : Formula} (h : y ∈ x.children) : y ∈ x.parts := by
  cases x with
  | operation | call =>
    exact (mem_parts_derivation rfl).2 (.inl ⟨y, h, self_mem_parts y⟩)
  | _ => cases h

theorem mem_columnsRead {x : Formula} {column : String} :
    column ∈ x.columnsRead ↔ ∃ y ∈ x.parts, y.reads? = some column := by
  simp [columnsRead]

theorem columnsRead_child {x y : Formula} (h : y ∈ x.children) {column : String}
    (hc : column ∈ y.columnsRead) : column ∈ x.columnsRead := by
  obtain ⟨z, hz, hr⟩ := mem_columnsRead.1 hc
  exact mem_columnsRead.2 ⟨z, parts_trans hz (child_mem_parts h), hr⟩

theorem mem_writers {x y : Formula} : y ∈ x.writers ↔ y ∈ x.parts ∧ y.reads? = none := by
  simp [writers]

/-! ## Skeletons -/

mutual

/-- The formula with one form of leaf for each column read, whatever it is read as. -/
def skeleton : Formula → Formula
  | constant value => constant value
  | var name _ => prop "" name
  | prop _ column => prop "" column
  | operation operator operands => operation operator (skeletons operands)
  | call function arguments => call function (skeletons arguments)

def skeletons : List Formula → List Formula
  | [] => []
  | x :: xs => x.skeleton :: skeletons xs

end

theorem skeletons_eq (xs : List Formula) : skeletons xs = xs.map skeleton := by
  induction xs with
  | nil => rfl
  | cons x xs ih => rw [skeletons, ih, List.map_cons]

theorem skeleton_reference {x : Formula} {column : String} (h : x.reads? = some column) :
    x.skeleton = prop "" column := by
  cases x with
  | var | prop => cases h; rfl
  | _ => cases h

@[simp] theorem strategy?_skeleton (x : Formula) : x.skeleton.strategy? = x.strategy? := by
  cases x <;> rfl

@[simp] theorem reads?_skeleton (x : Formula) : x.skeleton.reads? = x.reads? := by
  cases x <;> rfl

@[simp] theorem isConstant_skeleton (x : Formula) : x.skeleton.isConstant = x.isConstant := by
  cases x <;> rfl

@[simp] theorem isOperation_skeleton (x : Formula) :
    x.skeleton.isOperation = x.isOperation := by
  cases x <;> rfl

theorem children_skeleton (x : Formula) : x.skeleton.children = x.children.map skeleton := by
  cases x with
  | operation | call => exact skeletons_eq _
  | _ => rfl

theorem parts_skeleton (x : Formula) : x.skeleton.parts = x.parts.map skeleton := by
  induction x using byKind with
  | constant => rfl
  | reference x _ h => rw [skeleton_reference h, parts_reference h, List.map_singleton,
      skeleton_reference h, parts]
  | derivation x s h ih =>
    rw [parts_derivation (s := s) (by simpa using h), parts_derivation h, children_skeleton,
      List.map_append, List.map_singleton, List.flatMap_map, List.map_flatMap]
    rw [List.flatMap_def, List.flatMap_def, List.map_congr_left ih]

/-! ## Names -/

theorem operandNames_eq_map (xs : List Formula) :
    operandNames xs =
      xs.map fun x => if x.isOperation then bracketed x.columnName else x.columnName := by
  induction xs with
  | nil => rfl
  | cons x xs ih => rw [operandNames, ih, List.map_cons]

/-- The name of a column does not tell what its references are read as. -/
theorem columnName_skeleton (x : Formula) : x.skeleton.columnName = x.columnName := by
  induction x using byKind with
  | constant => rfl
  | reference x _ h => rw [skeleton_reference h, columnName_reference h]; rfl
  | derivation x s h ih =>
    cases x with
    | operation operator operands =>
      have names : operandNames (operands.map skeleton) = operandNames operands := by
        rw [operandNames_eq_map, operandNames_eq_map, List.map_map]
        refine List.map_congr_left fun y hy => ?_
        simp only [Function.comp_apply, isOperation_skeleton, ih y hy]
      rw [skeleton, skeletons_eq]
      match operands with
      | [] => rfl
      | [y] => simp [columnName, ih y (List.mem_singleton_self y)]
      | y :: z :: ys =>
        rw [List.map_cons, List.map_cons] at names ⊢
        rw [columnName, columnName, names]
        · simp
        · simp
    | call function arguments =>
      rw [skeleton, skeletons_eq, columnName, columnName, columnNames_eq_map,
        columnNames_eq_map, List.map_map]
      congr 3
      exact List.map_congr_left ih
    | _ => cases h

theorem length_bracketed (name : String) : (bracketed name).length = name.length + 2 := by
  have left : "(".length = 1 := by decide
  have right : ")".length = 1 := by decide
  rw [bracketed, String.length_append, String.length_append, left, right]
  omega

theorem length_le_operandName (x : Formula) : x.columnName.length ≤
    (if x.isOperation then bracketed x.columnName else x.columnName).length := by
  split
  · rw [length_bracketed]; omega
  · exact Nat.le_refl _

theorem length_le_intercalate (separator : String) {name : String} {names : List String}
    (h : name ∈ names) : name.length ≤ (separator.intercalate names).length := by
  induction names with
  | nil => cases h
  | cons first rest ih =>
    cases rest with
    | nil =>
      obtain rfl := List.mem_singleton.1 h
      exact Nat.le_of_eq (by rw [String.intercalate_singleton])
    | cons second rest =>
      rw [String.intercalate_cons_cons, String.length_append, String.length_append]
      rcases List.mem_cons.1 h with rfl | h
      · omega
      · have := ih h; omega

/-- With two operands or more, something stands beside each of them. -/
theorem length_lt_intercalate {separator name first second : String} {rest : List String}
    (hs : 0 < separator.length) (h : name ∈ first :: second :: rest) :
    name.length < (separator.intercalate (first :: second :: rest)).length := by
  rw [String.intercalate_cons_cons, String.length_append, String.length_append]
  rcases List.mem_cons.1 h with rfl | h
  · omega
  · have := length_le_intercalate separator h
    omega

/-- The name of a derivation is longer than those of its children. -/
theorem length_columnName_child {x y : Formula} (h : y ∈ x.children) :
    y.columnName.length < x.columnName.length := by
  cases x with
  | operation operator operands =>
    have symbol : 0 < operator.symbol.length := by cases operator <;> decide
    match operands, h with
    | [z], h =>
      obtain rfl := List.mem_singleton.1 h
      rw [columnName, String.length_append]
      split
      · rw [length_bracketed]; omega
      · omega
    | z :: w :: zs, h =>
      have operand := List.mem_map_of_mem
        (f := fun x => if x.isOperation then bracketed x.columnName else x.columnName) h
      rw [← operandNames_eq_map] at operand
      rw [columnName]
      · exact Nat.lt_of_le_of_lt (length_le_operandName y) (length_lt_intercalate symbol operand)
      · simp
  | call function arguments =>
    have argument : y.columnName ∈ columnNames arguments := by
      rw [columnNames_eq_map]
      exact List.mem_map_of_mem h
    have := length_le_intercalate ", " argument
    rw [columnName, String.length_append, length_bracketed]
    omega
  | _ => cases h

theorem length_columnName_part {x y : Formula} (h : y ∈ x.parts) :
    y.columnName.length ≤ x.columnName.length := by
  induction x using byKind with
  | constant => rw [parts_constant, List.mem_singleton] at h; exact h ▸ Nat.le_refl _
  | reference x _ hx => rw [parts_reference hx, List.mem_singleton] at h; exact h ▸ Nat.le_refl _
  | derivation x s hx ih =>
    rcases (mem_parts_derivation hx).1 h with ⟨z, hz, hy⟩ | rfl
    · exact Nat.le_of_lt (Nat.lt_of_le_of_lt (ih z hz hy) (length_columnName_child hz))
    · exact Nat.le_refl _

end ColumnFormula.Formula
