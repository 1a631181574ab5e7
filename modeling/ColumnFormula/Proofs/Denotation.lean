import ColumnFormula.Evaluation
import ColumnFormula.Proofs.Parts

/-!
# Denotation

What a formula stands for on a table, without a pass: `denote` goes from the columns of the
parts to the column of the whole and writes nothing. Names occur in it as labels only, in
errors and in the cells that an aggregate makes up.
-/

namespace ColumnFormula

/-- The cell of a row, absent past the end of the column. -/
def Column.at (column : Column) (row : Nat) : Option Measurement := column[row]?.join

namespace Strategy

/-- A column of `size` cells. -/
def eachRow (size : Nat) (cell : Nat → Option Measurement) : Column := (List.range size).map cell

/-- The first row in which the cells of two columns are there and agree. -/
def firstMatch? (size : Nat) (property value : Column) : Option Nat :=
  (List.range size).find? fun row =>
    match property.at row, value.at row with
    | some p, some c => p.quantity.agrees c.quantity
    | _, _ => false

/-- In this row the cells of two columns are there and agree. -/
def Hit (property value : Column) (row : Nat) : Prop :=
  ∃ m n, property.at row = some m ∧ value.at row = some n ∧ m.quantity.agrees n.quantity = true

/-- The column that a strategy makes out of the whole columns of its arguments. -/
def combine (s : Strategy) (formula : String) (names : List String) (size : Nat)
    (columns : List Column) : Except EvaluationError Column :=
  match s, names, columns with
  | perRow kernel, _, columns =>
    .ok (eachRow size fun row => applyKernel kernel (columns.map (·.at row)))
  | aggregate reduction, [name], [column] => .ok (reduction.spread name column)
  | lookup, [_, property, value], [x, p, c] =>
    if size = 0 then .ok []
    else
      match firstMatch? size p c with
      | some row => .ok (eachRow size fun _ => (x.at row).bind Measurement.toReal?)
      | none => .error (.noMatchingRow property value formula)
  | conditional, [_, _], [l, r] => .ok (eachRow size fun row => flag [l.at row, r.at row])
  | coalesce, [_, _], [l, r] => .ok (eachRow size fun row => either [l.at row, r.at row])
  | _, _, _ => .ok (eachRow size fun _ => none)

end Strategy

/-- A column that has to be there. -/
def Table.read (t : Table) (name : String) : Except EvaluationError Column :=
  if t.has name then .ok (t.column name) else .error (.missingColumn name name)

namespace Formula

mutual

def denote (t : Table) : Formula → Except EvaluationError Column
  | constant value => .ok (constantColumn value t.size)
  | var name _ => t.read name
  | prop _ column => t.read column
  | operation operator operands =>
    match denoteAll t operands with
    | .error e => .error e
    | .ok columns =>
      (Strategy.perRow operator.kernel).combine (operation operator operands).columnName
        (columnNames operands) t.size columns
  | call function arguments =>
    match denoteAll t arguments with
    | .error e => .error e
    | .ok columns =>
      function.strategy.combine (call function arguments).columnName (columnNames arguments)
        t.size columns

def denoteAll (t : Table) : List Formula → Except EvaluationError (List Column)
  | [] => .ok []
  | x :: xs =>
    match denote t x with
    | .error e => .error e
    | .ok column =>
      match denoteAll t xs with
      | .error e => .error e
      | .ok columns => .ok (column :: columns)

end

end Formula

/-! ## Columns and rows -/

theorem Column.at_column (t : Table) (name : String) (row : Nat) :
    (t.column name).at row = t.cell? row name := by
  simp only [Column.at, Table.column, Table.cell?, List.getElem?_map]
  cases t.rows[row]? <;> rfl

theorem Table.length_column (t : Table) (name : String) : (t.column name).length = t.size := by
  simp [Table.column, Table.size]

/-- Tables of one size with the same cells have the same rows. -/
theorem Table.rows_eq_of_cell? {t u : Table} (hs : t.size = u.size)
    (hc : ∀ row < t.size, ∀ column, t.cell? row column = u.cell? row column) :
    t.rows = u.rows := by
  refine List.ext_getElem hs fun row ht hu => Named.ext fun column => ?_
  simpa [cell?, ht, hu] using hc row ht column

theorem Table.has_of_read {t : Table} {name : String} {column : Column}
    (h : t.read name = .ok column) : t.has name = true := by
  rw [Table.read] at h
  split at h
  · assumption
  · cases h

/-- Row by row or column by column, the cells are the same. -/
theorem Table.select_eq (t : Table) (names : List String) :
    t.select names =
      (List.range t.size).map fun row => (names.map t.column).map (·.at row) := by
  apply List.ext_getElem?
  intro row
  rw [Table.select, List.getElem?_map, List.getElem?_map]
  by_cases h : row < t.rows.length
  · have cells : ∀ name, (t.column name).at row = t.rows[row].get? name := fun name => by
      rw [Column.at_column, Table.cell?, List.getElem?_eq_getElem h, Option.bind_some]
    rw [List.getElem?_eq_getElem h, List.getElem?_range (show row < t.size from h)]
    simp [cells]
  · rw [List.getElem?_eq_none (Nat.le_of_not_lt h), List.getElem?_eq_none]
    · rfl
    · simpa [Table.size] using h

namespace Strategy

theorem length_eachRow (size : Nat) (cell : Nat → Option Measurement) :
    (eachRow size cell).length = size := by
  simp [eachRow]

theorem map_select (t : Table) (names : List String)
    (cell : List (Option Measurement) → Option Measurement) :
    (t.select names).map cell =
      eachRow t.size fun row => cell ((names.map t.column).map (·.at row)) := by
  rw [Table.select_eq, List.map_map]
  rfl

/-- The first hit among the rows is the first match between the columns. -/
theorem found?_columns (size : Nat) (x p c : Column) :
    found? ((List.range size).map fun row => [x, p, c].map (·.at row)) =
      (firstMatch? size p c).map fun row => (x.at row).bind Measurement.toReal? := by
  have same : (hits ∘ fun row => [x, p, c].map (·.at row)) = fun row =>
      match p.at row, c.at row with
      | some p, some c => p.quantity.agrees c.quantity
      | _, _ => false := by
    funext row
    simp only [Function.comp_apply, List.map_cons, List.map_nil, hits]
    cases p.at row <;> cases c.at row <;> rfl
  rw [found?, List.find?_map, same, Option.map_map]
  rfl

theorem firstMatch?_eq_find? (size : Nat) (p c : Column) :
    ∃ test : Nat → Bool, (∀ row, test row = true ↔ Hit p c row) ∧
      firstMatch? size p c = (List.range size).find? test := by
  refine ⟨_, fun row => ?_, rfl⟩
  unfold Hit
  cases p.at row <;> cases c.at row <;> simp

theorem firstMatch?_eq_none_iff {size : Nat} {p c : Column} :
    firstMatch? size p c = none ↔ ∀ row < size, ¬Hit p c row := by
  obtain ⟨test, hit, search⟩ := firstMatch?_eq_find? size p c
  simp [search, ← hit]

theorem firstMatch?_eq_some_iff {size first : Nat} {p c : Column} :
    firstMatch? size p c = some first ↔
      first < size ∧ Hit p c first ∧ ∀ earlier < first, ¬Hit p c earlier := by
  obtain ⟨test, hit, search⟩ := firstMatch?_eq_find? size p c
  rw [search, List.find?_range_eq_some, List.mem_range, hit, and_left_comm]
  simp only [Bool.not_eq_true', ← Bool.not_eq_true, hit]

theorem column_lookup (formula x p c : String) (t : Table) :
    lookup.column formula [x, p, c] (t.select [x, p, c]) =
      lookup.combine formula [x, p, c] t.size [t.column x, t.column p, t.column c] := by
  have hits := found?_columns t.size (t.column x) (t.column p) (t.column c)
  have rows : t.select [x, p, c] =
      (List.range t.size).map fun row =>
        [t.column x, t.column p, t.column c].map (·.at row) := t.select_eq _
  simp only [column, combine]
  rw [rows, hits]
  rcases Nat.eq_zero_or_pos t.size with h | h
  · simp [h]
  · obtain ⟨n, hn⟩ : ∃ n, t.size = n + 1 := ⟨t.size - 1, by omega⟩
    rw [if_neg (by omega)]
    cases firstMatch? t.size (t.column p) (t.column c) with
    | none => simp [hn, List.range_succ_eq_map]
    | some row => simp [hn, List.range_succ_eq_map, eachRow]

/-- Row by row as column by column, a strategy makes the same of the same cells. -/
theorem column_select (s : Strategy) (formula : String) (names : List String) (t : Table) :
    s.column formula names (t.select names) =
      s.combine formula names t.size (names.map t.column) := by
  cases s with
  | perRow kernel => exact congrArg Except.ok (map_select t names _)
  | aggregate reduction =>
    rcases names with _ | ⟨name, _ | ⟨other, rest⟩⟩
    · exact congrArg Except.ok (map_select t _ _)
    · simp [column, combine, Table.select, Table.column, Function.comp_def]
    · exact congrArg Except.ok (map_select t _ _)
  | lookup =>
    rcases names with _ | ⟨x, _ | ⟨p, _ | ⟨c, _ | ⟨other, rest⟩⟩⟩⟩
    · exact congrArg Except.ok (map_select t _ _)
    · exact congrArg Except.ok (map_select t _ _)
    · exact congrArg Except.ok (map_select t _ _)
    · exact column_lookup formula x p c t
    · exact congrArg Except.ok (map_select t _ _)
  | conditional | coalesce =>
    rcases names with _ | ⟨l, _ | ⟨r, _ | ⟨other, rest⟩⟩⟩ <;>
      exact congrArg Except.ok (map_select t _ _)

/-- A strategy makes a cell for every row. -/
theorem length_combine {s : Strategy} {formula : String} {names : List String} {size : Nat}
    {columns : List Column} {column : Column} (hc : ∀ c ∈ columns, c.length = size)
    (h : s.combine formula names size columns = .ok column) : column.length = size := by
  unfold combine at h
  split at h
  · cases h; exact length_eachRow ..
  · cases h; simpa [Reduction.spread] using hc
  · split at h
    · cases h; simp_all
    · split at h
      · cases h; exact length_eachRow ..
      · cases h
  all_goals cases h; exact length_eachRow ..

end Strategy

namespace Formula

theorem denote_reference {x : Formula} {column : String} (h : x.reads? = some column)
    (t : Table) : x.denote t = t.read column := by
  cases x with
  | var | prop => cases h; rfl
  | _ => cases h

theorem denote_derivation {x : Formula} {s : Strategy} (h : x.strategy? = some s) (t : Table) :
    x.denote t =
      match denoteAll t x.children with
      | .error e => .error e
      | .ok columns => s.combine x.columnName (columnNames x.children) t.size columns := by
  cases x with
  | operation | call => cases h; rfl
  | _ => cases h

/-- Formulas that stand for the same one by one stand for the same as a list. -/
theorem denoteAll_congr {t u : Table} {f : Formula → Formula} {xs : List Formula}
    (h : ∀ x ∈ xs, (f x).denote t = x.denote u) : denoteAll t (xs.map f) = denoteAll u xs := by
  induction xs with
  | nil => rfl
  | cons x xs ih =>
    rw [List.map_cons, denoteAll, denoteAll, h x (List.mem_cons_self ..),
      ih fun y hy => h y (List.mem_cons_of_mem _ hy)]

/-- What a formula stands for does not depend on what its references are read as. -/
theorem denote_skeleton (x : Formula) (t : Table) : x.skeleton.denote t = x.denote t := by
  induction x using byKind with
  | constant => rfl
  | reference x _ h => rw [skeleton_reference h, denote_reference h]; rfl
  | derivation x s h ih =>
    have names : columnNames (x.children.map skeleton) = columnNames x.children := by
      rw [columnNames_eq_map, columnNames_eq_map, List.map_map]
      exact List.map_congr_left fun y _ => columnName_skeleton y
    rw [denote_derivation (s := s) (by simpa using h), denote_derivation h, children_skeleton,
      denoteAll_congr ih, names, columnName_skeleton]

/-- Formulas that name the same column and have the same skeleton stand for the same. -/
theorem denote_congr {x y : Formula} (h : x.skeleton = y.skeleton) (t : Table) :
    x.denote t = y.denote t := by
  rw [← denote_skeleton x, h, denote_skeleton]

theorem denoteAll_eq_map {t : Table} {xs : List Formula} {f : Formula → Column}
    (h : ∀ x ∈ xs, x.denote t = .ok (f x)) : denoteAll t xs = .ok (xs.map f) := by
  induction xs with
  | nil => rfl
  | cons x xs ih =>
    rw [denoteAll, h x (List.mem_cons_self ..), ih fun y hy => h y (List.mem_cons_of_mem _ hy)]
    rfl

theorem mem_denoteAll {t : Table} {xs : List Formula} {columns : List Column}
    (h : denoteAll t xs = .ok columns) {column : Column} (hc : column ∈ columns) :
    ∃ x ∈ xs, x.denote t = .ok column := by
  induction xs generalizing columns with
  | nil => cases h; cases hc
  | cons x xs ih =>
    rw [denoteAll] at h
    split at h
    · cases h
    · rename_i c hx
      split at h
      · cases h
      · rename_i cs hxs
        cases h
        rcases List.mem_cons.1 hc with rfl | hc
        · exact ⟨x, List.mem_cons_self .., hx⟩
        · obtain ⟨y, hy, hd⟩ := ih hxs hc
          exact ⟨y, List.mem_cons_of_mem _ hy, hd⟩

/-- What a formula stands for has a cell for every row. -/
theorem length_denote {x : Formula} {t : Table} {column : Column}
    (h : x.denote t = .ok column) : column.length = t.size := by
  induction x using byKind generalizing column with
  | constant value => cases h; simp [constantColumn]
  | reference x c hx =>
    rw [denote_reference hx, Table.read] at h
    split at h
    · cases h; exact t.length_column c
    · cases h
  | derivation x s hs ih =>
    rw [denote_derivation hs] at h
    split at h
    · cases h
    · rename_i columns hc
      refine Strategy.length_combine (fun c hm => ?_) h
      obtain ⟨y, hy, hd⟩ := mem_denoteAll hc hm
      exact ih y hy hd

end Formula

end ColumnFormula
