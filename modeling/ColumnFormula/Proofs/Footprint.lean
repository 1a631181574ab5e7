import ColumnFormula.Equation
import ColumnFormula.Proofs.Pass

/-!
# What an evaluation may touch

All that an evaluation does to a table is to write columns of parts that are no references, so
the rows stay, further columns are declared behind those there are, and every other cell is as it
was (`Touches`). This holds of a failure too, where moreover the column of the whole is left
alone: it is written last, and no part of a formula has its name. An equation that cannot be
compiled touches nothing.
-/

namespace ColumnFormula

namespace Pass.Writes

variable {Name : String → Prop} {p q : Pass}

/-- New columns stand behind the old ones, each of them once. -/
theorem columns_extend (h : Writes Name p q) :
    ∃ added, q.table.columns = p.table.columns ++ added ∧ added.Nodup ∧
      ∀ column ∈ added, column ∉ p.table.columns ∧ Name column := by
  induction h with
  | refl => exact ⟨[], (List.append_nil _).symm, List.nodup_nil, nofun⟩
  | @write q name values _ hn _ ih =>
    obtain ⟨added, columns, nodup, new⟩ := ih
    by_cases there : name ∈ q.table.columns
    · refine ⟨added, ?_, nodup, new⟩
      rw [← columns]
      exact if_pos (List.contains_iff_mem.2 there)
    · have apart : name ∉ p.table.columns ∧ name ∉ added := by
        rwa [columns, List.mem_append, not_or] at there
      refine ⟨added ++ [name], ?_, ?_, ?_⟩
      · rw [← List.append_assoc, ← columns]
        exact if_neg (mt List.contains_iff_mem.1 there)
      · exact List.nodup_append.2 ⟨nodup, List.pairwise_singleton _ _,
          fun _ ha _ hb e => apart.2 (List.mem_singleton.1 hb ▸ e ▸ ha)⟩
      · exact List.forall_mem_append.2 ⟨new, List.forall_mem_singleton.2 ⟨apart.1, hn⟩⟩

end Pass.Writes

namespace Formula

open Pass

variable {x : Formula} {p q : Pass}

/-- The children of a formula never write its own column: their names are shorter. -/
theorem children_write (x : Formula) (p : Pass) :
    Writes (fun name => x.Writer name ∧ name ≠ x.columnName) p (runAll x.children p).2 :=
  runAll_writes (fun y hy q => (run_writes y q).mono fun name hn => by
    have shorter := hn.length_lt hy
    exact ⟨hn.of_child hy, fun same => by rw [same] at shorter; omega⟩) p

/-- A formula that fails has not come to write its own column. -/
theorem unwritten_of_error {e : EvaluationError} (h : x.run p = (.error e, q))
    (hw : x.columnName ∉ p.written) : x.columnName ∉ q.written := by
  cases hs : x.strategy? with
  | none =>
    cases x with
    | constant value =>
      rw [run_constant] at h
      split at h <;> cases h
    | var | prop =>
      rw [run_reference rfl] at h
      rwa [← (Prod.mk.inj h).2]
    | operation | call => cases hs
  | some s =>
    have children := children_write x p
    have fresh : x.columnName ∉ (runAll x.children p).2.written := fun written =>
      (children.mem_written written).elim hw fun hn => hn.2 rfl
    rw [run_derivation hs, if_neg (mt List.contains_iff_mem.1 hw)] at h
    split at h
    · rename_i hr
      cases h
      rwa [hr] at fresh
    · rename_i hr
      rw [hr] at fresh
      rw [finish_eq] at h
      split at h
      · cases h
        exact fresh
      · cases h

/-- The table `u` is `t` with columns written that belong to constants, operations and calls
in `x`. -/
structure Touches (x : Formula) (t u : Table) : Prop where
  size : u.size = t.size
  columns : ∃ added, u.columns = t.columns ++ added ∧ added.Nodup ∧
    ∀ column ∈ added, column ∉ t.columns ∧ x.Writer column
  cells : ∀ column, ¬x.Writer column → ∀ row, u.cell? row column = t.cell? row column

theorem touches_of_writes (h : Writes x.Writer ⟨p.table, []⟩ q) :
    Touches x p.table q.table where
  size := h.size_eq
  columns := h.columns_extend
  cells column hc row := by
    have unwritten : column ∉ q.written := fun hw =>
      (h.mem_written hw).elim List.not_mem_nil hc
    rw [← Column.at_column, ← Column.at_column, (h.column_eq column (.inr unwritten)).1]

end Formula

namespace Equation

open Formula

/-- A fault of form or meaning is found before the table is touched. -/
theorem derive_unchanged {t : Table} {s : Schema} {text : String} {fault : Fault}
    (h : (t.derive s text).1 = .error fault) (hf : ∀ e, fault ≠ .evaluation e) :
    (t.derive s text).2 = t := by
  unfold Table.derive at h ⊢
  split at h
  · rfl
  · split at h
    · cases h
      exact absurd rfl (hf _)
    · cases h

/-- An evaluation keeps the rows, declares new columns behind the old ones, and changes cells in
the columns of constants, operations and calls only. If it fails, the column of the whole is
neither declared nor changed. An equation of wrong form or meaning leaves the table as it is. -/
theorem evaluate_touches (x : Formula) (p : Pass) :
    x.Touches p.table (p.evaluate x).2.table ∧
      (∀ e, (p.evaluate x).1 = .error e →
        (p.evaluate x).2.table.has x.columnName = p.table.has x.columnName ∧
          ∀ row, (p.evaluate x).2.table.cell? row x.columnName =
            p.table.cell? row x.columnName) ∧
      ∀ s text fault, (p.table.derive s text).1 = .error fault →
        (∀ e, fault ≠ .evaluation e) → (p.table.derive s text).2 = p.table := by
  have writes := run_writes x ⟨p.table, []⟩
  refine ⟨touches_of_writes writes, fun e he => ?_, fun _ _ _ => derive_unchanged⟩
  have unwritten := unwritten_of_error (Prod.ext he rfl) (List.not_mem_nil (a := x.columnName))
  obtain ⟨cells, declared⟩ := writes.column_eq x.columnName (.inr unwritten)
  refine ⟨declared, fun row => ?_⟩
  rw [← Column.at_column, ← Column.at_column]
  exact congrArg (·.at row) cells

end Equation

end ColumnFormula
