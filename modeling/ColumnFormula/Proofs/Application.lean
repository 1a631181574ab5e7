import ColumnFormula.Proofs.Custody
import ColumnFormula.Proofs.Replay

/-!
# Applying a definition

An application that succeeds copies the column of its equation to the column with the name of the
definition (`Copied`), renames the cells of the copy and puts the name on record; one that fails
leaves the workbook alone. The copy shares its table with the columns of the equation's own parts,
and one of these may have its name. Applied once more, the equation then writes its own cells over
the copy. But as long as it reads neither the copy nor its own results it sees what it saw before,
so the columns of this second pass are those of the first, and the copy that is put over them is
the one that was there (`putAll_put_again`).
-/

namespace ColumnFormula

namespace Table

variable {t : Table} {name : String} {values : Column} {log : List (String × Column)}

/-- Columns that are there are written without a change to the declarations. -/
theorem columns_putAll (h : ∀ entry ∈ log, t.has entry.1 = true) :
    (t.putAll log).columns = t.columns := by
  induction log generalizing t with
  | nil => rfl
  | cons entry log ih =>
    rw [putAll_cons, ih fun other ho => ?_]
    · exact columns_put_of_has (h entry List.mem_cons_self)
    · rw [has_put, h other (List.mem_cons_of_mem _ ho), Bool.true_or]

/-- A column written after a log is as it was once the log and the column are written again. -/
theorem putAll_put_again (t : Table) (hn : (log.map Prod.fst).Nodup) (name : String)
    (values : Column) :
    (((t.putAll log).put name values).putAll log).put name values =
      (t.putAll log).put name values := by
  have declared : ∀ entry ∈ log, ((t.putAll log).put name values).has entry.1 = true :=
    fun entry he => by
      rw [has_put, has_putAll.2 (.inr (List.mem_map_of_mem he)), Bool.true_or]
  have there : (((t.putAll log).put name values).putAll log).has name = true :=
    has_putAll.2 (.inl (by simp))
  refine eq_of_cell? ((columns_put_of_has there).trans (columns_putAll declared)) (by simp)
    fun r hr column => ?_
  have inside : r < t.size := by simpa using hr
  have inside' : r < ((t.putAll log).put name values).size := by simpa using hr
  by_cases same : column = name
  · simp [cell?_put, same]
  rw [cell?_put, if_neg same]
  by_cases logged : column ∈ log.map Prod.fst
  · obtain ⟨⟨_, cells⟩, he, rfl⟩ := List.mem_map.1 logged
    rw [cell?_putAll hn he inside', cell?_put, if_neg same, cell?_putAll hn he inside]
  · rw [cell?_putAll_of_notMem logged]

end Table

namespace Workbook

/-- The table `u` is `t` with the column `source` copied to `name`, under that name in the
cells too. -/
structure Copied (source name : String) (t u : Table) : Prop where
  size : u.size = t.size
  columns : u.columns = if t.has name then t.columns else t.columns ++ [name]
  copy : ∀ row, u.cell? row name = (t.cell? row source).map (·.renamed name)
  others : ∀ column, column ≠ name → ∀ row, u.cell? row column = t.cell? row column

theorem copied_copyColumn (t : Table) (source name : String) :
    Copied source name t (copyColumn t source name) where
  size := Table.size_put ..
  columns := rfl
  copy row := by
    rw [copyColumn, Table.cell?_put, if_pos rfl, ← Column.at_column, Column.at,
      List.getElem?_map]
    by_cases inside : row < t.size
    · rw [if_pos inside]
      cases (t.column source)[row]? <;> rfl
    · have outside : (t.column source)[row]? = none :=
        List.getElem?_eq_none (by rw [Table.length_column]; omega)
      rw [if_neg inside, outside]
      rfl
  others column h row := by rw [copyColumn, Table.cell?_put, if_neg h]

/-! ## One application -/

variable {w w' : Workbook} {name source : String} {t u : Table} {e : Equation} {p : Pass}
  {outcome : Except EvaluationError String}

theorem apply_of_evaluate (hd : w.get? name = some e) (hn : ¬(t.has name = true ∧ name ∉ w.applied))
    (hp : Pass.evaluate ⟨t, []⟩ e.root = (.ok source, p)) :
    w.apply name t =
      (.ok name, { w with applied := w.applied.insert name }, copyColumn p.table source name) := by
  rcases apply_cases (t := t) hd with
    ⟨there, new, -⟩ | ⟨-, error, q, hq, -⟩ | ⟨-, other, q, hq, hr, -⟩
  · exact absurd ⟨there, new⟩ hn
  · rw [hp] at hq
    cases (Prod.mk.inj hq).1
  · rw [hp] at hq
    cases hq
    exact hr

/-- An application that succeeds evaluates its equation, and then copies the column. -/
theorem apply_eq_ok {result : String} (h : w.apply name t = (.ok result, w', u)) :
    result = name ∧ ∃ e p, w.get? name = some e ∧
      Pass.evaluate ⟨t, []⟩ e.root = (.ok e.columnName, p) ∧
      w' = { w with applied := w.applied.insert name } ∧
      u = copyColumn p.table e.columnName name := by
  cases hd : w.get? name with
  | none =>
    rw [(apply_undefined hd).1] at h
    cases (Prod.mk.inj h).1
  | some e =>
    rcases apply_cases (t := t) hd with
      ⟨-, -, hr, -⟩ | ⟨-, _, _, -, hr, -⟩ | ⟨-, source, p, hp, hr, -⟩
    · rw [h] at hr
      cases (Prod.mk.inj hr).1
    · rw [h] at hr
      cases (Prod.mk.inj hr).1
    · rw [h] at hr
      cases hr
      obtain rfl := Formula.name_of_run hp
      exact ⟨rfl, e, p, rfl, hp, rfl, rfl⟩

theorem apply_eq_error {error : EvaluationError} (h : w.apply name t = (.error error, w', u)) :
    w' = w := by
  cases hd : w.get? name with
  | none =>
    rw [(apply_undefined hd).1] at h
    cases h
    rfl
  | some e =>
    rcases apply_cases (t := t) hd with
      ⟨-, -, hr, -⟩ | ⟨-, _, _, -, hr, -⟩ | ⟨-, _, _, -, hr, -⟩
    · rw [h] at hr
      cases hr
      rfl
    · rw [h] at hr
      cases hr
      rfl
    · rw [h] at hr
      cases (Prod.mk.inj hr).1

/-! ## The same application again -/

/-- The second pass writes the columns of the first, and the copy made from them is the one that
is there. -/
theorem copyColumn_again (hc : name ∉ e.root.columnsRead)
    (hx : ∀ y ∈ e.root.writers, y.columnName ∉ e.root.columnsRead)
    (hp : Pass.evaluate ⟨t, []⟩ e.root = (.ok source, p)) :
    ∃ q, Pass.evaluate ⟨copyColumn p.table source name, []⟩ e.root = (.ok source, q) ∧
      copyColumn q.table source name = copyColumn p.table source name := by
  have nodup := (Formula.run_writes e.root ⟨t, []⟩).nodup List.nodup_nil
  have evaluated := Formula.alike_evaluated hx ⟨t, []⟩
  rw [hp] at evaluated
  -- neither the first pass nor the copy has changed what the equation reads
  have alike : Pass.Alike e.root.columnsRead ⟨t, []⟩ ⟨copyColumn p.table source name, []⟩ :=
    evaluated.put_right hc _
  obtain ⟨_, log, first, second, holds⟩ := Formula.run_inStep (fun _ hr => hr) alike
  rw [Pass.evaluate] at hp
  rw [first] at hp nodup
  obtain ⟨rfl, rfl⟩ := Prod.mk.inj hp
  have cells := (alike.replay log).column (holds source rfl source List.mem_cons_self)
  refine ⟨_, second, ?_⟩
  rw [copyColumn, ← cells]
  exact Table.putAll_put_again t nodup name _

theorem apply_again (hd : w.get? name = some e) (hc : name ∉ e.root.columnsRead)
    (hx : ∀ y ∈ e.root.writers, y.columnName ∉ e.root.columnsRead)
    (hp : Pass.evaluate ⟨t, []⟩ e.root = (.ok source, p)) :
    let w' := { w with applied := w.applied.insert name }
    let u := copyColumn p.table source name
    w'.apply name u = (.ok name, w', u) := by
  intro w' u
  obtain ⟨q, hq, same⟩ := copyColumn_again hc hx hp
  have known : name ∈ w'.applied := List.mem_insert_self
  have recorded : w'.applied.insert name = w'.applied := List.insert_of_mem known
  rw [apply_of_evaluate (w := w') hd (fun refused => refused.2 known) hq, same, recorded]

/-- An application that fails leaves the workbook as it is. One that succeeds evaluates the
equation, copies its column under the name of the definition, leaves every other column as the
evaluation left it, and adds the name to those on record. Unless the equation reads the copy or
a result of its own, the same application on the table that it left succeeds and changes neither
the table nor the workbook. -/
theorem apply_copies (h : w.apply name t = (outcome, w', u)) :
    (∀ error, outcome = .error error → w' = w) ∧
    ∀ result, outcome = .ok result → result = name ∧
      ∃ e, w.get? name = some e ∧ (e.evaluate t).1 = .ok e.columnName ∧
        Copied e.columnName name (e.evaluate t).2 u ∧
        w'.equations = w.equations ∧
        (∀ other, other ∈ w'.applied ↔ other = name ∨ other ∈ w.applied) ∧
        (name ∉ e.root.columnsRead → (∀ y ∈ e.root.writers, y.columnName ∉ e.root.columnsRead) →
          w'.apply name u = (.ok name, w', u)) := by
  refine ⟨?_, ?_⟩
  · rintro error rfl
    exact apply_eq_error h
  · rintro result rfl
    obtain ⟨same, e, p, hd, hp, rfl, rfl⟩ := apply_eq_ok h
    have evaluated : e.evaluate t = (.ok e.columnName, p.table) := by
      rw [Equation.evaluate, Formula.evaluate, hp]
    refine ⟨same, e, hd, congrArg Prod.fst evaluated, ?_, rfl, fun _ => List.mem_insert_iff,
      fun hc hx => apply_again hd hc hx hp⟩
    rw [evaluated]
    exact copied_copyColumn ..

/-- Takes the opposite of the count on the way, in a column `-count`. -/
def twiceOpposite : Equation :=
  ⟨"-'count' * 2", .operation .multiply
    [.operation .negate [.var "count" ⟨.result, .integer⟩], .constant (.integer 2)]⟩

/-- Gives the name of that column to the result. -/
def opposites : Workbook := ⟨Named.empty.insert "-count" twiceOpposite, []⟩

/-- The copy has the place of an intermediate column, and comes back there. -/
theorem apply_copies_opposites :
    let r := opposites.apply "-count" Formula.twoCounts
    r.1 = .ok "-count" ∧ r.2.1.applied = ["-count"] ∧
      r.2.2.columns = ["count", "-count", "2", "(-count)*2"] ∧
      r.2.2.column "-count" =
        [some (.bare "-count" .all (.real (-8.0))), some (.bare "-count" .all (.real (-4.0)))] ∧
      r.2.1.apply "-count" r.2.2 = (.ok "-count", r.2.1, r.2.2) := by
  have applied : opposites.apply "-count" Formula.twoCounts = (.ok "-count", _, _) := rfl
  obtain ⟨-, e, hd, -, -, -, -, again⟩ := (apply_copies applied).2 "-count" rfl
  cases hd
  exact ⟨rfl, rfl, rfl, by decide +kernel, again (by decide) (by decide)⟩

end Workbook

end ColumnFormula
