import ColumnFormula.Measurement
import ColumnFormula.Named

/-!
# Tables

A table declares columns in an order of their own, and each of its rows holds measurements
under some of them. A cell that a row does not hold is absent.
-/

namespace ColumnFormula

/-- The cells of one row, by column. -/
abbrev Row := Named Measurement

/-- The cells of one column, by row. -/
abbrev Column := List (Option Measurement)

structure Table where
  columns : List String
  rows : List Row
  deriving DecidableEq

namespace Table

def empty : Table := ⟨[], []⟩

instance : Inhabited Table := ⟨empty⟩

/-! ## Reading -/

def size (t : Table) : Nat := t.rows.length

def has (t : Table) (column : String) : Bool := t.columns.contains column

def column (t : Table) (name : String) : Column := t.rows.map (·.get? name)

def cell? (t : Table) (row : Nat) (column : String) : Option Measurement :=
  t.rows[row]?.bind (·.get? column)

/-- The cells of several columns, row by row. -/
def select (t : Table) (names : List String) : List (List (Option Measurement)) :=
  t.rows.map fun row => names.map row.get?

/-- Identity of the columns, in order, and of all cells. -/
def same (t u : Table) : Bool :=
  t.columns == u.columns && sameRows t.rows u.rows
where
  sameCells : List (String × Measurement) → List (String × Measurement) → Bool
    | [], [] => true
    | (k, m) :: r, (l, n) :: s => k == l && m.same n && sameCells r s
    | _, _ => false
  sameRows : List Row → List Row → Bool
    | [], [] => true
    | r :: rs, s :: ss => sameCells r.entries s.entries && sameRows rs ss
    | _, _ => false

/-! ## Writing -/

/-- The names, each added at the end unless it is there already. -/
def extend (columns names : List String) : List String :=
  names.foldl (fun columns name => if columns.contains name then columns else columns ++ [name])
    columns

def declare (t : Table) (column : String) : Table :=
  { t with columns := extend t.columns [column] }

def ofColumns (names : List String) : Table := ⟨extend [] names, []⟩

/-- One more row. Columns it brings along are declared in the order of their names. -/
def push (t : Table) (row : Row) : Table := ⟨extend t.columns row.names, t.rows ++ [row]⟩

/-- The rows with a column's cells replaced: absent past the end of the values, which may
also be more than the rows. -/
def putCells (name : String) : List Row → Column → List Row
  | [], _ => []
  | row :: rows, [] => row.erase name :: putCells name rows []
  | row :: rows, value :: values => row.set name value :: putCells name rows values

def put (t : Table) (name : String) (values : Column) : Table :=
  ⟨extend t.columns [name], putCells name t.rows values⟩

@[simp] theorem length_putCells (name : String) (rows : List Row) (values : Column) :
    (putCells name rows values).length = rows.length := by
  fun_induction putCells <;> simp_all

@[simp] theorem size_put (t : Table) (name : String) (values : Column) :
    (t.put name values).size = t.size := by
  simp [put, size]

theorem getElem?_putCells (name : String) (rows : List Row) (values : Column) (r : Nat) :
    (putCells name rows values)[r]? = rows[r]?.map fun row => row.set name values[r]?.join := by
  fun_induction putCells generalizing r with
  | case1 => simp
  | case2 row rows ih => cases r <;> simp_all [Named.set]
  | case3 row rows value values ih => cases r <;> simp_all

/-- Writing a column changes that column only. -/
theorem cell?_put (t : Table) (name column : String) (values : Column) (r : Nat) :
    (t.put name values).cell? r column =
      if column = name then (if r < t.size then values[r]?.join else none)
      else t.cell? r column := by
  simp only [cell?, put, getElem?_putCells, size]
  by_cases hr : r < t.rows.length
  · simp [hr]
  · simp [hr]

theorem column_put_of_ne {t : Table} {name column : String} {values : Column}
    (h : column ≠ name) : (t.put name values).column column = t.column column := by
  apply List.ext_getElem?
  intro r
  simp only [Table.column, put, List.getElem?_map, getElem?_putCells, Option.map_map]
  congr 1
  funext row
  simp [h]

theorem column_put_self {t : Table} {name : String} {values : Column}
    (h : values.length = t.size) : (t.put name values).column name = values := by
  apply List.ext_getElem?
  intro r
  simp only [Table.column, put, List.getElem?_map, getElem?_putCells, Option.map_map]
  by_cases hr : r < t.rows.length
  · have hv : r < values.length := by rw [h]; exact hr
    simp [List.getElem?_eq_getElem hr, List.getElem?_eq_getElem hv]
  · have hv : values.length ≤ r := by rw [h]; exact Nat.le_of_not_lt hr
    simp [List.getElem?_eq_none (Nat.le_of_not_lt hr), List.getElem?_eq_none hv]

theorem mem_extend {columns names : List String} {c : String} :
    c ∈ extend columns names ↔ c ∈ columns ∨ c ∈ names := by
  induction names generalizing columns with
  | nil => simp [extend]
  | cons name names ih =>
    have : extend columns (name :: names)
        = extend (if columns.contains name then columns else columns ++ [name]) names := rfl
    rw [this, ih]
    split <;> grind

@[simp] theorem has_put (t : Table) (name column : String) (values : Column) :
    (t.put name values).has column = (t.has column || column == name) := by
  rw [Bool.eq_iff_iff]
  simp [has, put, mem_extend]

end Table

end ColumnFormula
