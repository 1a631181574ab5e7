import ColumnFormula.Proofs.Agreement
import ColumnFormula.Proofs.Footprint

/-!
# The order of evaluations

After a success, the columns of a formula's parts hold what these stand for on the table that was
there before, and all else is as it was (`Completes`). A formula whose parts do not want another
one's columns for different things stands for the same before and after that one's evaluation, so
two evaluations in a row complete the parts of both (`Completes.trans`). As this settles every
cell, either order of the two comes to the same table (`evaluate_comm`).
-/

namespace ColumnFormula

/-- Tables of one size with the same columns have the same rows. -/
theorem Table.rows_eq_of_column {t u : Table} (hs : t.size = u.size)
    (hc : ∀ name, t.column name = u.column name) : t.rows = u.rows :=
  rows_eq_of_cell? hs fun row _ name => by
    rw [← Column.at_column, ← Column.at_column, hc name]

/-- What a pass has written is declared. -/
theorem Pass.Writes.has_written {Name : String → Prop} {p q : Pass} (h : Writes Name p q)
    {column : String} (hw : column ∈ q.written) (hp : column ∉ p.written) :
    q.table.has column = true := by
  induction h with
  | refl => exact absurd hw hp
  | write values _ _ _ ih =>
    rw [Pass.write, Table.has_put, Bool.or_eq_true, beq_iff_eq]
    exact (List.mem_append.1 hw).imp ih List.mem_singleton.1

namespace Formula

variable {x y : Formula} {xs ys : List Formula} {t u v : Table} {column : String}

/-- What a formula stands for depends on the rows and on the columns that it reads. -/
theorem denote_eq_of_read (hs : t.size = u.size)
    (hr : ∀ column ∈ x.columnsRead, t.read column = u.read column) : x.denote t = x.denote u := by
  induction x using byKind with
  | constant value => rw [denote, denote, hs]
  | reference x column hc =>
    rw [denote_reference hc, denote_reference hc]
    exact hr column (mem_columnsRead.2 ⟨x, self_mem_parts x, hc⟩)
  | derivation x s hd ih =>
    have same : denoteAll t (x.children.map id) = denoteAll u x.children :=
      denoteAll_congr fun y hy => ih y hy fun column hc => hr column (columnsRead_child hy hc)
    rw [List.map_id] at same
    rw [denote_derivation hd, denote_derivation hd, same, hs]

/-! ## Formulas that go together -/

/-- Formulas of the list that name one column differ at most in what their references are read
as. -/
def Compatible (xs : List Formula) : Prop :=
  ∀ y ∈ xs, ∀ z ∈ xs, y.columnName = z.columnName → y.skeleton = z.skeleton

theorem Compatible.mono (h : Compatible ys) (hx : ∀ x ∈ xs, x ∈ ys) : Compatible xs :=
  fun y hy z hz => h y (hx y hy) z (hx z hz)

/-- One of the formulas writes the column. -/
def Written (xs : List Formula) (column : String) : Prop :=
  ∃ y ∈ xs, y.reads? = none ∧ y.columnName = column

theorem writer_iff : x.Writer column ↔ Written x.parts column :=
  exists_congr fun _ => by rw [mem_writers, and_assoc]

theorem written_append : Written (xs ++ ys) column ↔ Written xs column ∨ Written ys column := by
  simp only [Written, List.mem_append, or_and_right, exists_or]

/-- None of the formulas writes what another one reads. -/
theorem Compatible.not_written (h : Compatible xs) (hy : y ∈ xs) (hr : y.reads? = some column) :
    ¬Written xs column := by
  rintro ⟨z, hz, none, name⟩
  have same := h y hy z hz ((columnName_reference hr).trans name.symm)
  rw [← reads?_skeleton, same, reads?_skeleton, none] at hr
  cases hr

/-! ## What an evaluation completes -/

/-- The table `u` is `t` with the columns written that belong to the formulas, each with what its
formula stands for on `t`. -/
structure Completes (xs : List Formula) (t u : Table) : Prop where
  size : u.size = t.size
  columns : ∃ added, u.columns = t.columns ++ added ∧ added.Nodup ∧
    ∀ column, column ∈ added ↔ column ∉ t.columns ∧ Written xs column
  shown : ∀ y ∈ xs, y.denote t = .ok (u.column y.columnName)
  cells : ∀ column, ¬Written xs column → u.column column = t.column column

theorem completes_of_evaluate (hu : x.Unambiguous) {name : String}
    (h : (x.evaluate t).1 = .ok name) : Completes x.parts t (x.evaluate t).2 := by
  have writes := run_writes x ⟨t, []⟩
  have agrees := agrees_run hu (self_mem_parts x) (Faithful.start x t)
  have ok : Agrees x t x (.ok name, (x.run ⟨t, []⟩).2) := h ▸ agrees
  obtain ⟨-, values, hv⟩ := ok.denote_ok
  obtain ⟨added, columns, nodup, new⟩ := writes.columns_extend
  refine ⟨writes.size_eq, ⟨added, columns, nodup, fun column => ⟨fun hc => ?_, ?_⟩⟩,
    shows_of_evaluate hu h, fun column hc => ?_⟩
  · exact ⟨(new column hc).1, writer_iff.1 (new column hc).2⟩
  · rintro ⟨fresh, y, hy, hr, rfl⟩
    -- the results of a part that is no reference can only be in a written column
    have written : y.columnName ∈ (x.run ⟨t, []⟩).2.written :=
      (ok.ready values hv y hy).resolve_right fun reads => by rw [hr] at reads; cases reads.1
    have declared := List.contains_iff_mem.1 (writes.has_written written List.not_mem_nil)
    rw [columns] at declared
    exact (List.mem_append.1 declared).resolve_left fresh
  · have unwritten : column ∉ (x.run ⟨t, []⟩).2.written := fun hw =>
      hc (writer_iff.1 ((writes.mem_written hw).resolve_left List.not_mem_nil))
    exact (writes.column_eq column (.inr unwritten)).1

namespace Completes

theorem has_iff (h : Completes xs t u) :
    u.has column = true ↔ t.has column = true ∨ Written xs column := by
  obtain ⟨added, columns, -, new⟩ := h.columns
  unfold Table.has
  rw [List.contains_iff_mem, List.contains_iff_mem, columns, List.mem_append, new]
  by_cases there : column ∈ t.columns <;> simp [there]

/-- What is not written is read as before. -/
theorem read_eq (h : Completes xs t u) (hc : ¬Written xs column) :
    t.read column = u.read column := by
  have declared : t.has column = u.has column := by
    rw [Bool.eq_iff_iff, h.has_iff, or_iff_left hc]
  rw [Table.read, Table.read, declared, h.cells column hc]

/-- A formula that goes together with those completed stands for the same as before. -/
theorem denote_eq (h : Completes xs t u) (hc : Compatible (xs ++ y.parts)) :
    y.denote t = y.denote u := by
  refine denote_eq_of_read h.size.symm fun column hr => h.read_eq fun hw => ?_
  obtain ⟨z, hz, reads⟩ := mem_columnsRead.1 hr
  exact hc.not_written (List.mem_append_right _ hz) reads (written_append.2 (.inl hw))

/-- What is completed on top of what was completed before is completed along with it. -/
theorem trans (h : Completes xs t u) (h' : Completes ys u v) (hc : Compatible (xs ++ ys))
    (hy : ∀ y ∈ ys, ∀ z ∈ y.parts, z ∈ ys) : Completes (xs ++ ys) t v := by
  have later : ∀ y ∈ ys, y.denote t = .ok (v.column y.columnName) := by
    intro y hmem
    have parts : Compatible (xs ++ y.parts) := hc.mono fun z hz =>
      List.mem_append.2 ((List.mem_append.1 hz).imp_right (hy y hmem z))
    rw [h.denote_eq parts, h'.shown y hmem]
  obtain ⟨added, columns, nodup, new⟩ := h.columns
  obtain ⟨more, columns', nodup', new'⟩ := h'.columns
  refine ⟨h'.size.trans h.size, ⟨added ++ more, ?_, ?_, fun column => ?_⟩, fun y hmem => ?_,
    fun column hw => ?_⟩
  · rw [columns', columns, List.append_assoc]
  · refine List.nodup_append.2 ⟨nodup, nodup', fun a ha b hb => ?_⟩
    rintro rfl
    exact ((new' a).1 hb).1 (columns ▸ List.mem_append_right _ ha)
  · rw [List.mem_append, new, new', columns, List.mem_append, written_append, new]
    by_cases there : column ∈ t.columns <;> by_cases hx : Written xs column <;> simp [there, hx]
  · rcases List.mem_append.1 hmem with hx | hy
    · by_cases hw : Written ys y.columnName
      · -- written again, but for a formula that stands for the same
        obtain ⟨z, hz, -, name⟩ := hw
        have same := hc z (List.mem_append_right _ hz) y hmem name
        rw [← denote_congr same, later z hz, name]
      · rw [h.shown y hx, h'.cells _ hw]
    · exact later y hy
  · rw [written_append, not_or] at hw
    rw [h'.cells column hw.2, h.cells column hw.1]

/-- Two tables complete in the same have the same rows, and the same columns in some order. -/
theorem unique (h : Completes xs t u) (h' : Completes ys t v) (hxy : ∀ x, x ∈ xs ↔ x ∈ ys) :
    u.rows = v.rows ∧ u.columns.Perm v.columns := by
  have written : ∀ column, Written xs column ↔ Written ys column := fun column => by
    simp only [Written, hxy]
  constructor
  · refine Table.rows_eq_of_column (h.size.trans h'.size.symm) fun column => ?_
    by_cases hw : Written xs column
    · obtain ⟨y, hy, -, rfl⟩ := hw
      have shown := h.shown y hy
      rw [h'.shown y ((hxy y).1 hy)] at shown
      exact (Except.ok.inj shown).symm
    · rw [h.cells column hw, h'.cells column (mt (written column).2 hw)]
  · obtain ⟨added, columns, nodup, new⟩ := h.columns
    obtain ⟨added', columns', nodup', new'⟩ := h'.columns
    have same : added.Perm added' := (List.perm_ext_iff_of_nodup nodup nodup').2 fun column => by
      rw [new, new', written]
    rw [columns, columns']
    exact same.append_left _

end Completes

/-! ## Two evaluations -/

theorem evaluate_eq (hu : x.Unambiguous) (t : Table) :
    (x.evaluate t).1 = (x.denote t).map fun _ => x.columnName :=
  (agrees_run hu (self_mem_parts x) (Faithful.start x t)).outcome

/-- Two formulas whose parts all go together can be evaluated in either order: if one order
succeeds so does the other, with the same results in the same rows. -/
theorem evaluate_comm (h : Compatible (x.parts ++ y.parts)) {m n : String}
    (hx : (x.evaluate t).1 = .ok m) (hy : (y.evaluate (x.evaluate t).2).1 = .ok n) :
    (y.evaluate t).1 = .ok n ∧ (x.evaluate (y.evaluate t).2).1 = .ok m ∧
      (x.evaluate (y.evaluate t).2).2.rows = (y.evaluate (x.evaluate t).2).2.rows ∧
      (x.evaluate (y.evaluate t).2).2.columns.Perm (y.evaluate (x.evaluate t).2).2.columns := by
  have ux : x.Unambiguous := h.mono fun _ => List.mem_append_left _
  have uy : y.Unambiguous := h.mono fun _ => List.mem_append_right _
  have swapped : ∀ z, z ∈ y.parts ++ x.parts ↔ z ∈ x.parts ++ y.parts := fun z => by
    rw [List.mem_append, List.mem_append, or_comm]
  have h' : Compatible (y.parts ++ x.parts) := h.mono fun z => (swapped z).1
  have closed : ∀ z : Formula, ∀ a ∈ z.parts, ∀ b ∈ a.parts, b ∈ z.parts :=
    fun _ _ ha _ hb => parts_trans hb ha
  have first := completes_of_evaluate ux hx
  have both := first.trans (completes_of_evaluate uy hy) h (closed y)
  have yx : (y.evaluate t).1 = .ok n := by
    rw [evaluate_eq uy, first.denote_eq h, ← evaluate_eq uy, hy]
  have first' := completes_of_evaluate uy yx
  have xy : (x.evaluate (y.evaluate t).2).1 = .ok m := by
    rw [evaluate_eq ux, ← first'.denote_eq h', ← evaluate_eq ux, hx]
  have both' := first'.trans (completes_of_evaluate ux xy) h' (closed x)
  exact ⟨yx, xy, both'.unique both swapped⟩

def timeVar : Formula := .var "time" ⟨.result, .real⟩

def deviation : Formula := .operation .subtract [timeVar, .call .avg [timeVar]]

/-- Needs the mean that `deviation` needs too. -/
def halfMean : Formula := .operation .divide [.call .avg [timeVar], .constant (.integer 2)]

def twoTimes : Table :=
  ((Table.ofColumns ["time"]).push (.ofList [("time", .bare "time" .all (.real 4.0))])).push
    (.ofList [("time", .bare "time" .all (.real 2.0))])

theorem evaluate_comm_sharedMean :
    Compatible (deviation.parts ++ halfMean.parts) ∧
      (deviation.evaluate twoTimes).1 = .ok "time-avg(time)" ∧
      (halfMean.evaluate (deviation.evaluate twoTimes).2).1 = .ok "avg(time)/2" ∧
      (deviation.evaluate (halfMean.evaluate twoTimes).2).2.rows =
        (halfMean.evaluate (deviation.evaluate twoTimes).2).2.rows ∧
      (deviation.evaluate (halfMean.evaluate twoTimes).2).2.columns =
        ["time", "avg(time)", "2", "avg(time)/2", "time-avg(time)"] := by
  have together : Compatible (deviation.parts ++ halfMean.parts) := by
    intro y hy z hz h
    simp only [deviation, halfMean, timeVar, parts, partsOfAll, List.append_nil, List.cons_append,
      List.nil_append, List.mem_cons, List.not_mem_nil, or_false] at hy hz
    rcases hy with rfl | rfl | rfl | rfl | rfl | rfl | rfl | rfl <;>
      rcases hz with rfl | rfl | rfl | rfl | rfl | rfl | rfl | rfl <;>
      first | rfl | exact absurd h (by decide)
  have first : (deviation.evaluate twoTimes).1 = .ok "time-avg(time)" := rfl
  have second : (halfMean.evaluate (deviation.evaluate twoTimes).2).1 = .ok "avg(time)/2" := rfl
  exact ⟨together, first, second, (evaluate_comm together first second).2.2.1, rfl⟩

end Formula

end ColumnFormula
