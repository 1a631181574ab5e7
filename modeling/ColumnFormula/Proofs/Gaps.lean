import Mathlib.Logic.Relation
import ColumnFormula.Proofs.Denotation
import ColumnFormula.Proofs.Signatures

/-!
# Gaps

A row without a number in a column, since its cell there is absent or a text, is a gap of the
column. Putting gaps in and taking them out, wherever and however many, leaves the numbers of the
column as they are (`ofColumn_regapped`), and so what it is reduced to. The reduced number is then
spread over all rows alike: it replaces the number in a row that has one and fills the gaps
(`aggregate_fills`).
-/

namespace ColumnFormula

namespace Table

variable {column : String} {t u : Table} {row : Row} {before after : List Row}

/-- The row has no number in the column. -/
def Gap (column : String) (row : Row) : Prop :=
  ∀ m, row.get? column = some m → m.kind = .text

/-- A gap is put into a table or taken out of it. Which columns are declared does not matter. -/
inductive Regap (column : String) : Table → Table → Prop where
  | insert (columns columns' : List String) (before after : List Row) {row : Row} :
      Gap column row → Regap column ⟨columns, before ++ after⟩ ⟨columns', before ++ row :: after⟩
  | delete (columns columns' : List String) (before after : List Row) {row : Row} :
      Gap column row → Regap column ⟨columns, before ++ row :: after⟩ ⟨columns', before ++ after⟩

/-- One table comes from another by putting gaps in and taking gaps out. -/
def Regapped (column : String) : Table → Table → Prop := Relation.ReflTransGen (Regap column)

/-! ## The numbers of a column -/

theorem sample_of_gap (h : Gap column row) :
    (row.get? column).bind Sample.ofMeasurement? = none := by
  cases there : row.get? column with
  | none => rfl
  | some m =>
    have text : m.real? = none := by
      rw [← Option.not_isSome_iff_eq_none, Measurement.isSome_real?, not_not]
      exact h m there
    rw [Option.bind_some, Sample.ofMeasurement?, text]
    rfl

theorem ofColumn_gap (columns columns' : List String) (h : Gap column row) :
    Sample.ofColumn (Table.column ⟨columns, before ++ row :: after⟩ column) =
      Sample.ofColumn (Table.column ⟨columns', before ++ after⟩ column) := by
  simp only [Sample.ofColumn, Table.column, List.map_append, List.map_cons, List.filterMap_append,
    List.filterMap_cons, sample_of_gap h]

theorem ofColumn_regap (h : Regap column t u) :
    Sample.ofColumn (u.column column) = Sample.ofColumn (t.column column) := by
  cases h with
  | insert _ _ _ _ gap => exact ofColumn_gap _ _ gap
  | delete _ _ _ _ gap => exact (ofColumn_gap _ _ gap).symm

theorem ofColumn_regapped (h : Regapped column t u) :
    Sample.ofColumn (u.column column) = Sample.ofColumn (t.column column) := by
  induction h with
  | refl => rfl
  | tail _ step ih => exact (ofColumn_regap step).trans ih

end Table

/-! ## Filling -/

/-- A number is replaced and everything else of the measurement kept. -/
theorem Measurement.withReal_toReal? {m wide : Measurement} (h : m.toReal? = some wide)
    (value : Float) (error : Option Float) :
    wide.withReal value error = m.withReal value error := by
  obtain ⟨own, counted, -, -, rfl⟩ := exists_of_toReal? h
  rfl

namespace Reduction

variable {r : Reduction} {t : Table} {name : String} {row : Nat}

theorem at_spread (inside : row < t.size) :
    (r.spread name (t.column name)).at row =
      let reduced := r.reduce (t.column name)
      let origin := ((t.cell? row name).bind Measurement.toReal?).getD
        (.bare name .unknown (.real reduced.value))
      some (origin.withReal reduced.value reduced.error) := by
  have there : (t.column name)[row]? = some (t.cell? row name) := by
    have length : row < (t.column name).length := by rwa [Table.length_column]
    rw [← Column.at_column, Column.at, List.getElem?_eq_getElem length]
    rfl
  rw [Reduction.spread, Column.at, List.getElem?_map, there]
  rfl

theorem at_spread_of_number {own : Measurement} (there : t.cell? row name = some own)
    (number : own.kind ≠ .text) (inside : row < t.size) :
    (r.spread name (t.column name)).at row =
      some (own.withReal (r.reduce (t.column name)).value (r.reduce (t.column name)).error) := by
  obtain ⟨wide, hw⟩ := Option.isSome_iff_exists.1 (Measurement.isSome_toReal?.2 number)
  rw [at_spread inside, there, Option.bind_some, hw]
  exact congrArg some (Measurement.withReal_toReal? hw _ _)

theorem at_spread_of_gap (gap : ∀ own, t.cell? row name = some own → own.kind = .text)
    (inside : row < t.size) :
    (r.spread name (t.column name)).at row =
      let reduced := r.reduce (t.column name)
      some ((Measurement.bare name .unknown (.real reduced.value)).withReal
        reduced.value reduced.error) := by
  have none : (t.cell? row name).bind Measurement.toReal? = none := by
    cases there : t.cell? row name with
    | none => rfl
    | some own => exact Measurement.toReal?_eq_none_iff.2 (gap own there)
  rw [at_spread inside, none]
  rfl

/-- A reduction does not see the gaps of a column and fills them. -/
theorem aggregate_fills (r : Reduction) (t : Table) (name formula : String) :
    (∀ u, t.Regapped name u → r.reduce (u.column name) = r.reduce (t.column name)) ∧
      ∃ cells value error,
        (Strategy.aggregate r).column formula [name] (t.select [name]) = .ok cells ∧
        r.reduce (t.column name) = ⟨value, error⟩ ∧ cells.length = t.size ∧
        ∀ row < t.size,
          (∃ m, cells.at row = some m ∧ m.quantity = .real value ∧ m.error = error.map .real) ∧
          (∀ own, t.cell? row name = some own → own.kind ≠ .text →
            cells.at row = some { own with quantity := .real value, error := error.map .real }) ∧
          ((∀ own, t.cell? row name = some own → own.kind = .text) →
            cells.at row = some
              { name, quantity := .real value, error := error.map .real, errorModel := none,
                rank := .unknown, count := none, pauseCount := none }) := by
  refine ⟨fun u h => congrArg r.ofSamples (Table.ofColumn_regapped h), _, _, _,
    Strategy.column_select (.aggregate r) formula [name] t, rfl, ?_, fun row inside => ⟨?_, ?_, ?_⟩⟩
  · show (r.spread name (t.column name)).length = t.size
    rw [spread, List.length_map, Table.length_column]
  · exact ⟨_, at_spread inside, rfl, rfl⟩
  · exact fun own there number => at_spread_of_number there number inside
  · exact fun gap => at_spread_of_gap gap inside

def ownTime : Measurement :=
  { name := "time", quantity := .integer 1, error := some (.real 0.5), rank := .process 0,
    count := some 3 }

def ownRow : Row := .ofList [("time", ownTime)]

def lateRow : Row := .ofList [("time", .bare "time" .all (.text "late"))]

def threeRow : Row := .ofList [("time", .bare "time" .all (.real 3.0))]

/-- Two times and a text between them. -/
def late : Table := ⟨["time"], [ownRow, lateRow, threeRow]⟩

/-- In place of the text a row without any cell, in front. -/
def early : Table := ⟨["time"], [.empty, ownRow, threeRow]⟩

theorem regapped_late : late.Regapped "time" early := by
  have text : Table.Gap "time" lateRow := by
    rintro m ⟨⟩
    rfl
  have nothing : Table.Gap "time" .empty := fun _ h => by cases h
  have delete : Table.Regap "time" late ⟨["time"], [ownRow, threeRow]⟩ :=
    .delete _ _ [ownRow] [threeRow] text
  have insert : Table.Regap "time" ⟨["time"], [ownRow, threeRow]⟩ early :=
    .insert _ _ [] [ownRow, threeRow] nothing
  exact (Relation.ReflTransGen.single delete).tail insert

theorem aggregate_fills_late :
    late.Regapped "time" early ∧ mean.reduce (early.column "time") = ⟨2.0, some 0.5⟩ ∧
      late.cell? 0 "time" = some ownTime ∧ ownTime.kind ≠ .text ∧
      ∃ cells,
        (Strategy.aggregate mean).column "avg(time)" ["time"] (late.select ["time"]) = .ok cells ∧
        cells.at 0 = some { ownTime with quantity := .real 2.0, error := some (.real 0.5) } ∧
        cells.at 1 = some
          { name := "time", quantity := .real 2.0, error := some (.real 0.5),
            rank := .unknown } := by
  have number : ownTime.kind ≠ .text := by decide
  have gap : ∀ own, late.cell? 1 "time" = some own → own.kind = .text := by
    rintro m ⟨⟩
    rfl
  have computed : mean.reduce (late.column "time") = ⟨2.0, some 0.5⟩ := by decide +kernel
  obtain ⟨same, cells, value, error, made, reduced, -, filled⟩ :=
    aggregate_fills mean late "time" "avg(time)"
  obtain ⟨rfl, rfl⟩ := Sample.mk.inj (computed.symm.trans reduced)
  exact ⟨regapped_late, (same early regapped_late).trans computed, rfl, number, cells, made,
    (filled 0 (by decide)).2.1 ownTime rfl number, (filled 1 (by decide)).2.2 gap⟩

end Reduction

end ColumnFormula
