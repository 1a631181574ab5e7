import Mathlib
import ColumnFormula.Equation
import ColumnFormula.Proofs.Agreement
import ColumnFormula.Proofs.Failure

/-!
# Overwriting what is read

Results and data are columns of one table. A pass leaves the columns that its formula reads
alone on every table exactly if none of them is on the schedule of the formula (`Apart`): on a
table without rows nothing fails, so there the whole schedule is written. Names alone do not
keep the two apart. A quoted name may be any text without a quote: `'2'` is a variable, and the
literal `2` is written to the column of that name.
-/

namespace ColumnFormula

/-- A table without rows. -/
def Table.blank (columns : List String) : Table := ofColumns columns

theorem Table.has_blank {columns : List String} {column : String} (h : column ∈ columns) :
    (blank columns).has column = true :=
  List.contains_iff_mem.2 (mem_extend.2 (.inr h))

namespace Formula

variable {x : Formula}

/-- No column read is due to be written. -/
def Apart (x : Formula) : Prop := ∀ column ∈ x.columnsRead, column ∉ x.schedule []

/-- On a table that lacks nothing and has no rows, all that is scheduled gets written. -/
theorem written_without_rows {p : Pass} (hp : p.table.size = 0)
    (hc : ∀ column ∈ x.columnsRead, p.table.has column = true) :
    (x.run p).2.written = x.schedule p.written := by
  have keeps := keeps_run x p
  match h : x.run p with
  | (.ok name, q) => rw [h] at keeps; exact keeps
  | (.error e, q) =>
    cases failure_of_run h with
    | missing hm ht => rw [hc _ hm] at ht; cases ht
    | unmatched _ _ ht => omega

/-- Whatever is scheduled is the column of a part that writes one. -/
theorem writer_of_schedule {column : String} (h : column ∈ x.schedule []) : x.Writer column := by
  have written := written_without_rows (x := x) (p := ⟨.blank x.columnsRead, []⟩) rfl
    fun _ hc => Table.has_blank hc
  rw [← written] at h
  exact ((run_writes x _).mem_written h).resolve_left List.not_mem_nil

/-- Where every column has one meaning, none is read and written. -/
theorem Unambiguous.apart (h : x.Unambiguous) : x.Apart := by
  intro column hr hs
  obtain ⟨y, hy, rfl⟩ := writer_of_schedule hs
  obtain ⟨hy, derived⟩ := mem_writers.1 hy
  obtain ⟨z, hz, reads⟩ := mem_columnsRead.1 hr
  have same := h y hy z hz (columnName_reference reads).symm
  rw [← reads?_skeleton, ← same, reads?_skeleton, derived] at reads
  cases reads

end Formula

namespace Equation

/-- An evaluation spares the columns that its formula reads on every table exactly if they
are apart from those that are due to be written. -/
theorem spares_iff_apart (e : Equation) :
    (∀ t : Table, ∀ column ∈ e.root.columnsRead,
      column ∉ (Pass.evaluate ⟨t, []⟩ e.root).2.written ∧
        (e.evaluate t).2.column column = t.column column) ↔ e.root.Apart := by
  constructor
  · intro h column hc hs
    have written := Formula.written_without_rows (x := e.root)
      (p := ⟨.blank e.root.columnsRead, []⟩) rfl fun _ hm => Table.has_blank hm
    exact (h (.blank e.root.columnsRead) column hc).1 (by rw [Pass.evaluate, written]; exact hs)
  · intro h t column hc
    have unwritten : column ∉ (Pass.evaluate ⟨t, []⟩ e.root).2.written := fun hw =>
      h column hc (Formula.mem_schedule hw)
    exact ⟨unwritten, ((Formula.run_writes e.root ⟨t, []⟩).column_eq column (.inr unwritten)).1⟩

/-- A schema with a variable that looks like a number. -/
def numberNamed : Schema := Schema.empty.addVariable "2" .result .real

def numberNamedTable : Table :=
  (Table.ofColumns ["2"]).push (.ofList [("2", .bare "2" .all (.real 5.0))])

theorem literal_overwrites_variable : ∃ e : Equation,
    compile numberNamed "'2' + 2" = .ok e ∧ "2" ∈ e.root.columnsRead ∧
      numberNamedTable.column "2" = [some (.bare "2" .all (.real 5.0))] ∧
      (e.evaluate numberNamedTable).2.column "2" =
        [some (.bare "Integer" .unknown (.integer 2))] := by
  refine ⟨⟨"'2' + 2", .operation .add [.var "2" ⟨.result, .real⟩, .constant (.integer 2)]⟩,
    by cbv, by decide, by decide, ?_⟩
  rfl

end Equation

end ColumnFormula
