import ColumnFormula.Proofs.Pass

/-!
# Formulas that work row by row

A formula without aggregates and lookups makes each cell out of the row it stands in. So it does
not matter to it which rows there are, in which order and how often: to choose rows of a table
(`Table.pick`) and to evaluate come to the same in either order (`evaluate_pick`), whatever the
outcome and whether or not names collide.
-/

namespace ColumnFormula

namespace Table

variable {t : Table} {places : List Nat}

/-- The rows at the given places, in the order given. A place past the last row has none. -/
def pick (t : Table) (places : List Nat) : Table :=
  ⟨t.columns, places.filterMap (t.rows[·]?)⟩

/-- Where all places have a row, the one at the `i`-th of them comes `i`-th. -/
theorem rows_pick (h : ∀ place ∈ places, place < t.size) (i : Nat) :
    (t.pick places).rows[i]? = places[i]?.bind (t.rows[·]?) := by
  induction places generalizing i with
  | nil => rfl
  | cons place places ih =>
    obtain ⟨first, rest⟩ := List.forall_mem_cons.1 h
    have row : t.rows[place]? = some (t.rows.get ⟨place, first⟩) := List.getElem?_eq_getElem first
    have rows : (t.pick (place :: places)).rows =
        t.rows.get ⟨place, first⟩ :: (t.pick places).rows := List.filterMap_cons_some row
    rw [rows]
    cases i with
    | zero => exact row.symm
    | succ i => exact ih rest i

/-- Cells made out of the rows they stand in are written row by row. -/
theorem putCells_map (name : String) (rows : List Row) (cell : Row → Option Measurement) :
    putCells name rows (rows.map cell) = rows.map fun row => row.set name (cell row) := by
  induction rows with
  | nil => rfl
  | cons row rows ih => rw [List.map_cons, putCells, ih, List.map_cons]

theorem put_pick (t : Table) (name : String) (cell : Row → Option Measurement)
    (places : List Nat) :
    (t.pick places).put name ((t.pick places).rows.map cell) =
      (t.put name (t.rows.map cell)).pick places := by
  have rows : (places.filterMap (t.rows[·]?)).map (fun row => row.set name (cell row)) =
      places.filterMap ((t.rows.map fun row => row.set name (cell row))[·]?) := by
    rw [List.map_filterMap]
    simp only [List.getElem?_map]
  unfold put pick
  rw [putCells_map, putCells_map, rows]

end Table

/-! ## Strategies -/

namespace Strategy

/-- The strategy makes each cell out of those of the arguments in the same row. -/
def IsRowWise (s : Strategy) : Prop :=
  ∀ formula names, ∃ cell, ∀ rows, s.column formula names rows = .ok (rows.map cell)

theorem isRowWise_perRow (kernel : Kernel) : (perRow kernel).IsRowWise :=
  fun _ _ => ⟨applyKernel kernel, fun _ => rfl⟩

theorem isRowWise_conditional : conditional.IsRowWise := by
  intro formula names
  match names with
  | [_, _] => exact ⟨flag, fun _ => rfl⟩
  | [] | [_] | _ :: _ :: _ :: _ => exact ⟨fun _ => none, fun _ => rfl⟩

theorem isRowWise_coalesce : coalesce.IsRowWise := by
  intro formula names
  match names with
  | [_, _] => exact ⟨either, fun _ => rfl⟩
  | [] | [_] | _ :: _ :: _ :: _ => exact ⟨fun _ => none, fun _ => rfl⟩

end Strategy

/-- The functions whose cells depend on whole columns. -/
def Builtin.wholeColumn : List Builtin := [avg, min, max, find]

theorem Builtin.isRowWise_strategy {function : Builtin} (h : function ∉ wholeColumn) :
    function.strategy.IsRowWise := by
  cases function with
  | avg | min | max | find => exact absurd (by decide) h
  | ifeq => exact Strategy.isRowWise_conditional
  | or => exact Strategy.isRowWise_coalesce
  | _ => exact Strategy.isRowWise_perRow _

/-! ## Runs -/

/-- The pass over the rows at the given places. -/
def Pass.pick (p : Pass) (places : List Nat) : Pass := ⟨p.table.pick places, p.written⟩

@[simp] theorem Pass.written_pick (p : Pass) (places : List Nat) :
    (p.pick places).written = p.written := rfl

namespace Formula

variable {x : Formula} {s : Strategy} {places : List Nat}

/-- No part of the formula calls for a whole column. -/
def IsRowWise (x : Formula) : Prop :=
  ∀ function arguments, call function arguments ∈ x.parts → function ∉ Builtin.wholeColumn

theorem IsRowWise.child {y : Formula} (h : x.IsRowWise) (hy : y ∈ x.children) : y.IsRowWise :=
  fun function arguments hp => h function arguments (parts_trans hp (child_mem_parts hy))

theorem IsRowWise.strategy (h : x.IsRowWise) (hs : x.strategy? = some s) : s.IsRowWise := by
  cases x with
  | operation operator =>
    cases hs
    exact Strategy.isRowWise_perRow operator.kernel
  | call function arguments =>
    cases hs
    exact Builtin.isRowWise_strategy (h function arguments (self_mem_parts _))
  | _ => cases hs

/-- The outcome as it is, and the pass over the rows at the given places. -/
def pickOutcome {α : Type} (places : List Nat) (r : Except EvaluationError α × Pass) :
    Except EvaluationError α × Pass :=
  (r.1, r.2.pick places)

theorem write_pick (p : Pass) (name : String) (cell : Row → Option Measurement)
    (places : List Nat) :
    (p.pick places).write name ((p.pick places).table.rows.map cell) =
      (p.write name (p.table.rows.map cell)).pick places := by
  unfold Pass.write Pass.pick
  rw [Table.put_pick]

theorem finish_pick (h : s.IsRowWise) (formula : String) (names : List String) (p : Pass) :
    finish s formula names (p.pick places) =
      pickOutcome places (finish s formula names p) := by
  obtain ⟨cell, hc⟩ := h formula names
  have cells : ∀ t : Table, s.column formula names (t.select names) =
      .ok (t.rows.map fun row => cell (names.map row.get?)) := fun t => by
    rw [hc, Table.select, List.map_map]
    rfl
  unfold finish
  rw [cells, cells]
  exact congrArg (Prod.mk _) (write_pick p formula _ places)

theorem runAll_pick {xs : List Formula}
    (h : ∀ x ∈ xs, ∀ p : Pass, x.run (p.pick places) = pickOutcome places (x.run p)) (p : Pass) :
    runAll xs (p.pick places) = pickOutcome places (runAll xs p) := by
  induction xs generalizing p with
  | nil => rfl
  | cons x xs ih =>
    rw [runAll, runAll, h x List.mem_cons_self]
    rcases x.run p with ⟨e | name, q⟩
    · rfl
    · have rest := ih (fun y hy => h y (List.mem_cons_of_mem _ hy)) q
      simp only [pickOutcome] at rest ⊢
      rw [rest]
      rcases runAll xs q with ⟨e | names, q⟩ <;> rfl

/-- A run over chosen rows does what the run over all rows does, on the chosen ones. -/
theorem run_pick (h : x.IsRowWise) (p : Pass) :
    x.run (p.pick places) = pickOutcome places (x.run p) := by
  induction x using byKind generalizing p with
  | constant value =>
    have cells : ∀ t : Table, constantColumn value t.size =
        t.rows.map fun _ => some (.bare value.kind.name .unknown value) := fun t => by
      rw [constantColumn, Table.size, List.map_const']
    rw [run_constant, run_constant, cells, cells, Pass.written_pick]
    by_cases hw : p.written.contains value.columnName = true
    · rw [if_pos hw, if_pos hw]
      rfl
    · rw [if_neg hw, if_neg hw]
      exact congrArg (Prod.mk _) (write_pick p _ _ places)
  | reference x column hc => rw [run_reference hc, run_reference hc]; rfl
  | derivation x s hs ih =>
    have children := runAll_pick (fun y hy q => ih y hy (h.child hy) q) p
    rw [run_derivation hs, run_derivation hs, children, Pass.written_pick]
    by_cases hw : p.written.contains x.columnName = true
    · rw [if_pos hw, if_pos hw]
      rfl
    · rw [if_neg hw, if_neg hw]
      rcases runAll x.children p with ⟨e | names, q⟩
      · rfl
      · exact finish_pick (h.strategy hs) x.columnName names q

/-! ## Evaluations -/

/-- An evaluation over chosen rows, repeated or in another order, has the outcome of that over
all rows, and leaves the rows that are chosen of the table which that leaves. -/
theorem evaluate_pick (h : x.IsRowWise) (p : Pass) (written : List String) (places : List Nat) :
    (Pass.evaluate ⟨p.table.pick places, written⟩ x).1 = (p.evaluate x).1 ∧
      (Pass.evaluate ⟨p.table.pick places, written⟩ x).2.table =
        (p.evaluate x).2.table.pick places := by
  have same : Pass.evaluate ⟨p.table.pick places, written⟩ x =
      pickOutcome places (p.evaluate x) := run_pick h ⟨p.table, []⟩
  rw [same]
  exact ⟨rfl, rfl⟩

/-- Reads the column that the number in it is written to. -/
def clashing : Formula :=
  .operation .add [.var "2" ⟨.result, .real⟩, .constant (.integer 2)]

/-- A measurement, a gap and another measurement. -/
def withGap : Table :=
  (((Table.ofColumns ["2"]).push (.ofList [("2", .bare "2" .all (.real 5.0))])).push .empty).push
    (.ofList [("2", .bare "2" .all (.real 7.0))])

theorem evaluate_pick_clashing : clashing.IsRowWise ∧
    (Pass.evaluate ⟨withGap.pick [2, 1, 2], ["2"]⟩ clashing).1 = .ok "2+2" ∧
      (Pass.evaluate ⟨withGap.pick [2, 1, 2], ["2"]⟩ clashing).2.table =
        (Pass.evaluate ⟨withGap, []⟩ clashing).2.table.pick [2, 1, 2] := by
  have rowWise : clashing.IsRowWise := fun function arguments hp => by
    simp [clashing, parts, partsOfAll] at hp
  obtain ⟨outcome, table⟩ := evaluate_pick rowWise ⟨withGap, []⟩ ["2"] [2, 1, 2]
  exact ⟨rowWise, outcome.trans rfl, table⟩

end Formula

end ColumnFormula
