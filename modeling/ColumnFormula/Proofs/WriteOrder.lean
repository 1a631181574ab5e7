import ColumnFormula.Proofs.Agreement
import ColumnFormula.Proofs.Editing
import ColumnFormula.Proofs.Replay

/-!
# The order of writes

The columns that a formula writes are those of its constants, operations and calls, arguments
first (`results`). A pass leaves out the parts whose column it has written, and all that they are
made of. For an unambiguous formula nothing is lost by that: the columns of a part's own parts are
written before its own (`Settled`), so the pass writes `results` without repetitions
(`schedule_eq_extend`), and declares of these what was not there before.
-/

namespace ColumnFormula

namespace Table

variable {t : Table}

theorem extend_append (columns names more : List String) :
    extend columns (names ++ more) = extend (extend columns names) more := List.foldl_append ..

/-- What is there already is not added. -/
theorem extend_of_subset {columns names : List String} (h : ∀ name ∈ names, name ∈ columns) :
    extend columns names = columns := by
  induction names with
  | nil => rfl
  | cons name names ih =>
    obtain ⟨first, rest⟩ := List.forall_mem_cons.1 h
    rw [extend_cons, extend_singleton, if_pos (List.contains_iff_mem.2 first), ih rest]

/-- Different names are added as they come, but for those that are there. -/
theorem extend_of_nodup {names : List String} (h : names.Nodup) (columns : List String) :
    extend columns names = columns ++ names.filter fun name => !columns.contains name := by
  induction names generalizing columns with
  | nil => exact (List.append_nil _).symm
  | cons name names ih =>
    obtain ⟨fresh, distinct⟩ := List.nodup_cons.1 h
    rw [extend_cons, extend_singleton, ih distinct]
    split
    · rename_i there
      rw [List.filter_cons_of_neg (by rw [there]; decide)]
    · rename_i new
      have others : (names.filter fun other => !(columns ++ [name]).contains other) =
          names.filter fun other => !columns.contains other := by
        refine List.filter_congr fun other ho => ?_
        have apart : other ≠ name := fun same => fresh (same ▸ ho)
        simp [apart]
      rw [others, List.filter_cons_of_pos (by simpa using new), List.append_assoc]
      rfl

theorem columns_putAll_eq (t : Table) (log : List (String × Column)) :
    (t.putAll log).columns = extend t.columns (log.map Prod.fst) := by
  induction log generalizing t with
  | nil => rfl
  | cons entry log ih => rw [putAll_cons, ih, List.map_cons, extend_cons]; rfl

end Table

namespace Formula

variable {root x y : Formula} {xs : List Formula} {written : List String}

/-- The columns that a formula writes, arguments first, as often as they occur. -/
def results (x : Formula) : List String := x.writers.map columnName

theorem results_reference {column : String} (h : x.reads? = some column) : x.results = [] := by
  rw [results, writers, parts_reference h]
  simp [h]

theorem results_derivation {s : Strategy} (h : x.strategy? = some s) :
    x.results = x.children.flatMap results ++ [x.columnName] := by
  have last : [x].filter (·.reads?.isNone) = [x] := by simp [reads?_derivation h]
  rw [results, writers, parts_derivation h, List.filter_append, last, List.map_append,
    List.filter_flatMap, List.map_flatMap]
  rfl

theorem results_skeleton (x : Formula) : x.skeleton.results = x.results := by
  have kept : (fun y : Formula => y.reads?.isNone) ∘ skeleton = fun y => y.reads?.isNone := by
    funext y
    rw [Function.comp_apply, reads?_skeleton]
  rw [results, writers, parts_skeleton, List.filter_map, kept, List.map_map]
  exact List.map_congr_left fun y _ => columnName_skeleton y

theorem mem_results {name : String} : name ∈ x.results ↔ x.Writer name := List.mem_map

/-! ## What is left out -/

/-- A part of `root` whose column is written has the columns of all its parts written. -/
def Settled (root : Formula) (written : List String) : Prop :=
  ∀ y ∈ root.parts, y.columnName ∈ written → ∀ name ∈ y.results, name ∈ written

theorem Settled.extend (h : Settled root written) (hu : root.Unambiguous) (hx : x ∈ root.parts) :
    Settled root (Table.extend written x.results) := by
  intro y hy hw name hn
  rw [Table.mem_extend] at hw ⊢
  rcases hw with hw | hw
  · exact .inl (h y hy hw name hn)
  · -- a part of `x` has this column, so it has the same parts as `y`
    obtain ⟨z, hz, same⟩ := mem_results.1 hw
    have part := (mem_writers.1 hz).1
    have skeletons := hu z (parts_trans part hx) y hy same
    rw [← results_skeleton, ← skeletons, results_skeleton] at hn
    obtain ⟨w, hw, rfl⟩ := mem_results.1 hn
    obtain ⟨inner, reads⟩ := mem_writers.1 hw
    exact .inr (mem_results.2 ⟨w, mem_writers.2 ⟨parts_trans inner part, reads⟩, rfl⟩)

theorem scheduleAll_eq_extend (hu : root.Unambiguous) (hxs : ∀ x ∈ xs, x ∈ root.parts)
    (h : ∀ x ∈ xs, ∀ written, Settled root written →
      x.schedule written = Table.extend written x.results)
    (hw : Settled root written) :
    scheduleAll xs written = Table.extend written (xs.flatMap results) := by
  induction xs generalizing written with
  | nil => rfl
  | cons x xs ih =>
    obtain ⟨part, parts⟩ := List.forall_mem_cons.1 hxs
    obtain ⟨first, rest⟩ := List.forall_mem_cons.1 h
    rw [scheduleAll, first written hw, List.flatMap_cons, Table.extend_append]
    exact ih parts rest (hw.extend hu part)

/-- A part adds the columns that it writes, each behind those there are unless it is among
them. -/
theorem schedule_eq_extend (hu : root.Unambiguous) (hx : x ∈ root.parts)
    (hw : Settled root written) : x.schedule written = Table.extend written x.results := by
  induction x using byKind generalizing written with
  | constant value => rw [schedule]; rfl
  | reference x column h => rw [schedule_reference h, results_reference h]; rfl
  | derivation x s h ih =>
    have parts : ∀ y ∈ x.children, y ∈ root.parts := fun y hy =>
      parts_trans (child_mem_parts hy) hx
    rw [schedule_derivation h]
    split
    · rename_i there
      exact (Table.extend_of_subset (hw x hx (List.contains_iff_mem.1 there))).symm
    · rename_i new
      have children := scheduleAll_eq_extend hu parts
        (fun y hy written hw => ih y hy (parts y hy) hw) hw
      -- the children have shorter names, so the column of the whole is still to come
      have fresh : ¬(Table.extend written (x.children.flatMap results)).contains x.columnName := by
        rw [List.contains_iff_mem, Table.mem_extend]
        rintro (there | there)
        · exact new (List.contains_iff_mem.2 there)
        · obtain ⟨y, hy, hn⟩ := List.mem_flatMap.1 there
          exact absurd ((mem_results.1 hn).length_lt hy) (Nat.lt_irrefl _)
      rw [children, results_derivation h, Table.extend_append, Table.extend_singleton,
        if_neg fresh]

/-! ## The record of a pass -/

/-- All that a pass does is to write the columns on its record. -/
theorem exists_log (x : Formula) (t : Table) :
    ∃ log : List (String × Column), (x.run ⟨t, []⟩).2 = Pass.replay ⟨t, []⟩ log := by
  have alike : Pass.Alike x.columnsRead ⟨t, []⟩ ⟨t, []⟩ :=
    ⟨rfl, rfl, fun _ _ => rfl, fun _ _ => rfl⟩
  obtain ⟨outcome, log, hr, -, -⟩ := run_inStep (fun _ hc => hc) alike
  exact ⟨log, by rw [hr]⟩

theorem written_of_evaluate (hu : x.Unambiguous) {p : Pass} {name : String}
    (h : (p.evaluate x).1 = .ok name) : (p.evaluate x).2.written = x.results.eraseDups := by
  have keeps := keeps_run x ⟨p.table, []⟩
  have ok : (x.run ⟨p.table, []⟩).1 = .ok name := h
  rw [Keeps, ok] at keeps
  have scheduled : (p.evaluate x).2.written = x.schedule [] := keeps
  rw [scheduled, schedule_eq_extend hu (self_mem_parts x) fun _ _ hw => absurd hw List.not_mem_nil]
  exact Table.columns_ofColumns x.results

/-- An evaluation is a sequence of writes, no two of them to one column. If it succeeds, and the
formula is unambiguous, these are the columns of the constants, operations and calls, arguments
first and without repetitions, and those that the table did not have are declared in this order
behind the others. -/
theorem evaluate_writes_once (x : Formula) (p : Pass) :
    ∃ log : List (String × Column),
      (p.evaluate x).2.table = p.table.putAll log ∧
        (p.evaluate x).2.written = log.map Prod.fst ∧ (log.map Prod.fst).Nodup ∧
        (x.Unambiguous → ∀ name, (p.evaluate x).1 = .ok name →
          log.map Prod.fst = (x.writers.map columnName).eraseDups ∧
            (p.evaluate x).2.table.columns = p.table.columns ++
              (log.map Prod.fst).filter fun column => !p.table.has column) := by
  obtain ⟨log, hr⟩ := exists_log x p.table
  have left : p.evaluate x = ((p.evaluate x).1, Pass.replay ⟨p.table, []⟩ log) := Prod.ext rfl hr
  have table : (p.evaluate x).2.table = p.table.putAll log := by rw [left]; rfl
  have record : (p.evaluate x).2.written = log.map Prod.fst := by rw [left]; rfl
  have distinct : (log.map Prod.fst).Nodup :=
    record ▸ (run_writes x ⟨p.table, []⟩).nodup List.nodup_nil
  refine ⟨log, table, record, distinct, fun hu name ok => ⟨?_, ?_⟩⟩
  · rw [← record, written_of_evaluate hu ok]
    rfl
  · rw [table, Table.columns_putAll_eq, Table.extend_of_nodup distinct]
    rfl

/-- The constant and the search occur twice and are written once, and the column of the constant
was left over from an earlier pass. -/
theorem evaluate_writes_once_foundTwice :
    foundTwice.Unambiguous ∧
      (Pass.evaluate ⟨twoMachines.put "\"b\"" [], []⟩ foundTwice).1 = .ok foundTwice.columnName ∧
      (Pass.evaluate ⟨twoMachines.put "\"b\"" [], []⟩ foundTwice).2.written =
        ["\"b\"", "find(time, machine, \"b\")",
          "or(find(time, machine, \"b\"), find(time, machine, \"b\"))"] ∧
      (Pass.evaluate ⟨twoMachines.put "\"b\"" [], []⟩ foundTwice).2.table.columns =
        ["time", "machine", "\"b\"", "find(time, machine, \"b\")",
          "or(find(time, machine, \"b\"), find(time, machine, \"b\"))"] := by
  obtain ⟨log, -, record, -, once⟩ :=
    evaluate_writes_once foundTwice ⟨twoMachines.put "\"b\"" [], []⟩
  have ok : (Pass.evaluate ⟨twoMachines.put "\"b\"" [], []⟩ foundTwice).1 =
      .ok foundTwice.columnName := rfl
  obtain ⟨names, columns⟩ := once foundTwice_unambiguous _ ok
  have results : (foundTwice.writers.map columnName).eraseDups =
      ["\"b\"", "find(time, machine, \"b\")",
        "or(find(time, machine, \"b\"), find(time, machine, \"b\"))"] := by decide
  rw [results] at names
  rw [names] at record columns
  exact ⟨foundTwice_unambiguous, ok, record, columns⟩

end Formula

end ColumnFormula
