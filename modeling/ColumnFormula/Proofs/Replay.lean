import ColumnFormula.Proofs.Pass

/-!
# What a pass sees

Of its table a pass sees the number of rows and the columns that its formula reads, and of all
that was written before nothing but its own results. Two passes that are alike in this
(`Alike`) do the same: they write the same columns in the same order, cell by cell, and come to
the same outcome (`run_inStep`). So columns left over from elsewhere never show in a result
(`evaluate_eq_of_read`), and a pass over a table that an earlier pass of the same formula has
left writes what is there already (`evaluate_again`).
-/

namespace ColumnFormula

namespace Table

variable {t u : Table} {name column : String} {values : Column} {log : List (String × Column)}

theorem read_eq_of_has (hd : t.has column = u.has column)
    (hc : t.has column = true → t.column column = u.column column) :
    t.read column = u.read column := by
  unfold read
  rw [← hd]
  split
  · rename_i there
    rw [hc there]
  · rfl

/-- What a write makes of its column depends on the number of rows alone. -/
theorem column_put_congr (h : t.size = u.size) :
    (t.put name values).column name = (u.put name values).column name := by
  apply List.ext_getElem?
  intro r
  simp only [Table.column, put, List.getElem?_map, getElem?_putCells, Option.map_map]
  unfold size at h
  by_cases hr : r < t.rows.length
  · have hu : r < u.rows.length := h ▸ hr
    simp [List.getElem?_eq_getElem hr, List.getElem?_eq_getElem hu]
  · have hu : u.rows.length ≤ r := h ▸ Nat.le_of_not_lt hr
    rw [List.getElem?_eq_none (Nat.le_of_not_lt hr), List.getElem?_eq_none hu]

theorem read_put_of_ne (h : column ≠ name) : (t.put name values).read column = t.read column := by
  rw [read, read, has_put, column_put_of_ne h]
  simp [h]

theorem read_put_self : (t.put name values).read name =
    .ok ((t.put name values).column name) := by
  rw [read, has_put]
  simp

/-! ## Writing twice -/

/-- A table is told by its columns, its size and its cells. -/
theorem eq_of_cell? (hd : t.columns = u.columns) (hs : t.size = u.size)
    (hc : ∀ r < t.size, ∀ column, t.cell? r column = u.cell? r column) : t = u := by
  have rows := rows_eq_of_cell? hs hc
  cases t
  cases u
  simp_all

/-- What is declared already is not declared once more. -/
theorem columns_put_of_has (h : t.has name = true) : (t.put name values).columns = t.columns :=
  if_pos h

/-- A write of what a column holds already changes nothing. -/
theorem put_eq_self (hn : t.has name = true)
    (hc : ∀ r < t.size, t.cell? r name = values[r]?.join) : t.put name values = t := by
  refine eq_of_cell? (columns_put_of_has hn) (size_put ..) fun r hr column => ?_
  rw [size_put] at hr
  rw [cell?_put, if_pos hr]
  split
  · rename_i same
    rw [same, hc r hr]
  · rfl

/-- The table with several columns written, one after the other. -/
def putAll (t : Table) (log : List (String × Column)) : Table :=
  log.foldl (fun t entry => t.put entry.1 entry.2) t

theorem putAll_cons (t : Table) (name : String) (values : Column)
    (log : List (String × Column)) :
    t.putAll ((name, values) :: log) = (t.put name values).putAll log := rfl

theorem putAll_append (t : Table) (log more : List (String × Column)) :
    t.putAll (log ++ more) = (t.putAll log).putAll more := List.foldl_append ..

@[simp] theorem size_putAll (t : Table) (log : List (String × Column)) :
    (t.putAll log).size = t.size := by
  induction log generalizing t with
  | nil => rfl
  | cons entry log ih => rw [putAll_cons, ih, size_put]

theorem has_putAll : (t.putAll log).has column = true ↔
    t.has column = true ∨ column ∈ log.map Prod.fst := by
  induction log generalizing t with
  | nil => simp [putAll]
  | cons entry log ih => rw [putAll_cons, ih, has_put]; simp [or_assoc]

theorem cell?_putAll_of_notMem {r : Nat} (h : column ∉ log.map Prod.fst) :
    (t.putAll log).cell? r column = t.cell? r column := by
  induction log generalizing t with
  | nil => rfl
  | cons entry log ih =>
    obtain ⟨first, rest⟩ := not_or.1 (mt List.mem_cons.2 h)
    rw [putAll_cons, ih rest, cell?_put, if_neg first]

/-- Each column written once is found as it was written. -/
theorem cell?_putAll {r : Nat} (hn : (log.map Prod.fst).Nodup) (hl : (name, values) ∈ log)
    (hr : r < t.size) : (t.putAll log).cell? r name = values[r]?.join := by
  induction log generalizing t with
  | nil => cases hl
  | cons entry log ih =>
    obtain ⟨fresh, nodup⟩ := List.nodup_cons.1 hn
    rcases List.mem_cons.1 hl with rfl | hl
    · rw [putAll_cons, cell?_putAll_of_notMem fresh, cell?_put, if_pos rfl, if_pos hr]
    · exact ih nodup hl (by rwa [size_put])

theorem putAll_eq_self (h : ∀ entry ∈ log, t.put entry.1 entry.2 = t) : t.putAll log = t := by
  induction log with
  | nil => rfl
  | cons entry log ih =>
    rw [putAll_cons, h entry List.mem_cons_self]
    exact ih fun other ho => h other (List.mem_cons_of_mem _ ho)

/-- Columns of different names can be written again without a trace. -/
theorem putAll_putAll (t : Table) (hn : (log.map Prod.fst).Nodup) :
    (t.putAll log).putAll log = t.putAll log := by
  refine putAll_eq_self fun entry he => put_eq_self ?_ fun r hr => ?_
  · exact has_putAll.2 (.inr (List.mem_map_of_mem he))
  · rw [size_putAll] at hr
    exact cell?_putAll hn he hr

end Table

/-! ## Passes that are alike -/

namespace Pass

variable {reads : List String} {p q : Pass} {name : String}

/-- The pass after the columns of a log were written. -/
def replay (p : Pass) (log : List (String × Column)) : Pass :=
  ⟨p.table.putAll log, p.written ++ log.map Prod.fst⟩

theorem replay_nil (p : Pass) : p.replay [] = p := by simp [replay, Table.putAll]

theorem replay_append (p : Pass) (log more : List (String × Column)) :
    p.replay (log ++ more) = (p.replay log).replay more := by
  simp [replay, Table.putAll_append]

/-- Passes with the same results so far, over tables that are the same as far as the columns
in `reads` go. -/
structure Alike (reads : List String) (p q : Pass) : Prop where
  size : p.table.size = q.table.size
  written : p.written = q.written
  read : ∀ column ∈ reads, p.table.read column = q.table.read column
  results : ∀ column ∈ p.written, p.table.column column = q.table.column column

theorem Alike.write (h : Alike reads p q) (name : String) (values : Column) :
    Alike reads (p.write name values) (q.write name values) where
  size := by rw [Pass.write, Pass.write, Table.size_put, Table.size_put, h.size]
  written := congrArg (· ++ [name]) h.written
  read column hc := by
    rw [Pass.write, Pass.write]
    by_cases e : column = name
    · rw [e, Table.read_put_self, Table.read_put_self, Table.column_put_congr h.size]
    · rw [Table.read_put_of_ne e, Table.read_put_of_ne e, h.read column hc]
  results column hc := by
    rw [Pass.write, Pass.write]
    by_cases e : column = name
    · rw [e, Table.column_put_congr h.size]
    · have earlier : column ∈ p.written := by simpa [Pass.write, e] using hc
      rw [Table.column_put_of_ne e, Table.column_put_of_ne e, h.results column earlier]

/-- A column that is not read can be written in one table alone. -/
theorem Alike.put_right {t u : Table} (h : Alike reads ⟨t, []⟩ ⟨u, []⟩) (hn : name ∉ reads)
    (values : Column) : Alike reads ⟨t, []⟩ ⟨u.put name values, []⟩ where
  size := h.size.trans (Table.size_put ..).symm
  written := rfl
  read column hc := by
    have other : column ≠ name := fun same => hn (same ▸ hc)
    rw [Table.read_put_of_ne other, h.read column hc]
  results _ hc := absurd hc List.not_mem_nil

theorem Alike.replay (h : Alike reads p q) (log : List (String × Column)) :
    Alike reads (p.replay log) (q.replay log) := by
  induction log generalizing p q with
  | nil => rwa [replay_nil, replay_nil]
  | cons entry log ih =>
    have one : ∀ p : Pass, p.replay (entry :: log) = (p.write entry.1 entry.2).replay log :=
      fun p => p.replay_append [entry] log
    rw [one, one]
    exact ih (h.write ..)

/-- The pass has the column: it is a result, or one that is read and is there. -/
def Holds (reads : List String) (p : Pass) (name : String) : Prop :=
  name ∈ p.written ∨ name ∈ reads ∧ p.table.has name = true

theorem Holds.replay (h : Holds reads p name) (log : List (String × Column)) :
    Holds reads (p.replay log) name :=
  h.imp (List.mem_append_left _) fun h => ⟨h.1, Table.has_putAll.2 (.inl h.2)⟩

theorem Alike.column (h : Alike reads p q) (hn : Holds reads p name) :
    p.table.column name = q.table.column name := by
  rcases hn with hw | ⟨hr, there⟩
  · exact h.results name hw
  · have same := h.read name hr
    rw [Table.read, if_pos there, Table.read] at same
    split at same
    · exact Except.ok.inj same
    · cases same

/-! ## Runs -/

/-- Two runs, from `p` and from `q`, with one outcome and one log between them. The columns
that the outcome names are there. -/
def InStep {α : Type} (reads : List String) (names : α → List String) (p q : Pass)
    (r s : Except EvaluationError α × Pass) : Prop :=
  ∃ outcome log, r = (outcome, p.replay log) ∧ s = (outcome, q.replay log) ∧
    ∀ result, outcome = .ok result → ∀ name ∈ names result, Holds reads (p.replay log) name

/-- Runs that fail alike, after the same log. -/
theorem inStep_error {α : Type} {names : α → List String} (e : EvaluationError)
    (log : List (String × Column)) :
    InStep reads names p q (.error e, p.replay log) (.error e, q.replay log) := by
  refine ⟨.error e, log, rfl, rfl, ?_⟩
  rintro _ ⟨⟩

end Pass

namespace Formula

open Pass

variable {x : Formula} {reads : List String} {p q : Pass}

theorem runAll_inStep {xs : List Formula}
    (h : ∀ x ∈ xs, ∀ p q, Alike reads p q → InStep reads ([·]) p q (x.run p) (x.run q))
    (hpq : Alike reads p q) : InStep reads id p q (runAll xs p) (runAll xs q) := by
  induction xs generalizing p q with
  | nil =>
    refine ⟨.ok [], [], by rw [replay_nil, runAll], by rw [replay_nil, runAll], ?_⟩
    rintro _ ⟨⟩ _ hn
    exact absurd hn List.not_mem_nil
  | cons x xs ih =>
    obtain ⟨outcome, log, hp, hq, first⟩ := h x List.mem_cons_self p q hpq
    rw [runAll, runAll, hp, hq]
    cases outcome with
    | error e => exact inStep_error e log
    | ok name =>
      obtain ⟨outcome, more, hp, hq, rest⟩ :=
        ih (fun y hy => h y (List.mem_cons_of_mem _ hy)) (hpq.replay log)
      simp only [hp, hq, ← replay_append]
      rw [← replay_append] at rest
      cases outcome with
      | error e => exact inStep_error e (log ++ more)
      | ok names =>
        refine ⟨.ok (name :: names), log ++ more, rfl, rfl, ?_⟩
        rintro _ ⟨⟩ found hf
        rcases List.mem_cons.1 hf with rfl | hf
        · rw [replay_append]
          exact (first _ rfl _ List.mem_cons_self).replay more
        · exact rest _ rfl _ hf

/-- What a pass has on record needs no work. -/
theorem inStep_memo {name : String} (h : name ∈ p.written) :
    InStep reads ([·]) p q (.ok name, p) (.ok name, q) := by
  refine ⟨.ok name, [], by rw [replay_nil], by rw [replay_nil], ?_⟩
  rintro _ ⟨⟩ _ hn
  rw [List.mem_singleton.1 hn, replay_nil]
  exact .inl h

/-- Passes that write a column one like the other, after the same log. -/
theorem inStep_write (log : List (String × Column)) (name : String) (values : Column) :
    InStep reads ([·]) p q (.ok name, (p.replay log).write name values)
      (.ok name, (q.replay log).write name values) := by
  refine ⟨.ok name, log ++ [(name, values)], by rw [replay_append]; rfl,
    by rw [replay_append]; rfl, ?_⟩
  rintro _ ⟨⟩ _ hn
  rw [List.mem_singleton.1 hn]
  exact .inl (by simp [replay])

/-- Passes that are alike write the same and come to the same. -/
theorem run_inStep (hx : ∀ column ∈ x.columnsRead, column ∈ reads) (h : Alike reads p q) :
    InStep reads ([·]) p q (x.run p) (x.run q) := by
  induction x using byKind generalizing p q with
  | constant value =>
    rw [run_constant, run_constant, ← h.written, ← h.size]
    split
    · rename_i hw
      exact inStep_memo (List.contains_iff_mem.1 hw)
    · have step : InStep reads _ p q _ _ :=
        inStep_write [] value.columnName (constantColumn value p.table.size)
      rwa [replay_nil, replay_nil] at step
  | reference x column hc =>
    have there : column ∈ reads := hx column (mem_columnsRead.2 ⟨x, self_mem_parts x, hc⟩)
    rw [run_reference hc, run_reference hc, require_eq, require_eq, ← h.read column there]
    refine ⟨_, [], by rw [replay_nil], by rw [replay_nil], fun result hr name hn => ?_⟩
    cases hread : p.table.read column with
    | error e => rw [hread] at hr; cases hr
    | ok values =>
      rw [hread] at hr
      cases hr
      rw [List.mem_singleton.1 hn, replay_nil]
      exact .inr ⟨there, Table.has_of_read hread⟩
  | derivation x s hs ih =>
    rw [run_derivation hs, run_derivation hs, ← h.written]
    split
    · rename_i hw
      exact inStep_memo (List.contains_iff_mem.1 hw)
    · have children : ∀ y ∈ x.children, ∀ p q, Alike reads p q →
          InStep reads ([·]) p q (y.run p) (y.run q) := fun y hy p q =>
        ih y hy fun column hc => hx column (columnsRead_child hy hc)
      obtain ⟨outcome, log, hp, hq, holds⟩ := runAll_inStep children h
      rw [hp, hq]
      cases outcome with
      | error e => exact inStep_error e log
      | ok names =>
        have alike := h.replay log
        have cells : names.map (p.replay log).table.column =
            names.map (q.replay log).table.column :=
          List.map_congr_left fun name hn => alike.column (holds names rfl name hn)
        simp only [finish_eq, ← cells, ← alike.size]
        split
        · rename_i e _
          exact inStep_error e log
        · exact inStep_write log _ _

/-! ## Evaluations -/

/-- An evaluation on one table comes out like that on another one of the same size which has
the columns that are read, or lacks them, alike: whatever else the tables hold and whatever was
written before. -/
theorem evaluate_eq_of_read (hs : p.table.size = q.table.size)
    (hd : ∀ column ∈ x.columnsRead, p.table.has column = q.table.has column)
    (hc : ∀ column ∈ x.columnsRead, p.table.has column = true →
      p.table.column column = q.table.column column) :
    (p.evaluate x).1 = (q.evaluate x).1 ∧
      ∀ name, (p.evaluate x).1 = .ok name →
        (p.evaluate x).2.table.column name = (q.evaluate x).2.table.column name := by
  have alike : Alike x.columnsRead ⟨p.table, []⟩ ⟨q.table, []⟩ :=
    ⟨hs, rfl, fun column hr => Table.read_eq_of_has (hd column hr) (hc column hr), nofun⟩
  obtain ⟨outcome, log, hp, hq, holds⟩ := run_inStep (fun _ hr => hr) alike
  rw [Pass.evaluate, Pass.evaluate, hp, hq]
  exact ⟨rfl, fun name hn => (alike.replay log).column (holds name hn name List.mem_cons_self)⟩

/-- Unless a formula writes what it reads, it sees the same before and after its evaluation. -/
theorem alike_evaluated (h : ∀ y ∈ x.writers, y.columnName ∉ x.columnsRead) (p : Pass) :
    Alike x.columnsRead ⟨p.table, []⟩ ⟨(p.evaluate x).2.table, []⟩ := by
  have writes := run_writes x ⟨p.table, []⟩
  refine ⟨writes.size_eq.symm, rfl, fun column hr => ?_, nofun⟩
  have unwritten : column ∉ (p.evaluate x).2.written := fun hw => by
    obtain ⟨y, hy, rfl⟩ := (writes.mem_written hw).resolve_left List.not_mem_nil
    exact h y hy hr
  obtain ⟨cells, there⟩ := writes.column_eq column (.inr unwritten)
  exact Table.read_eq_of_has there.symm fun _ => cells.symm

/-- A formula none of whose results is written to a column that it reads can be evaluated again
on the table that it leaves: that has the same outcome, writes the same columns and changes
nothing, also after a failure. -/
theorem evaluate_again (h : ∀ y ∈ x.writers, y.columnName ∉ x.columnsRead) (p : Pass)
    (written : List String) :
    Pass.evaluate ⟨(p.evaluate x).2.table, written⟩ x = p.evaluate x := by
  obtain ⟨outcome, log, hp, hq, -⟩ := run_inStep (fun _ hr => hr) (alike_evaluated h p)
  have left : p.evaluate x = (outcome, replay ⟨p.table, []⟩ log) := hp
  have distinct : (log.map Prod.fst).Nodup := by
    have nodup := (run_writes x ⟨p.table, []⟩).nodup List.nodup_nil
    rwa [hp] at nodup
  rw [Pass.evaluate, hq, left, replay, replay, Table.putAll_putAll p.table distinct]

/-- The count of a run above the mean. -/
def excess : Formula :=
  .operation .subtract
    [.var "count" ⟨.result, .integer⟩, .call .avg [.var "count" ⟨.result, .integer⟩]]

def twoCounts : Table :=
  ((Table.ofColumns ["count"]).push (.ofList [("count", .bare "count" .all (.integer 4))])).push
    (.ofList [("count", .bare "count" .all (.integer 2))])

/-- The same counts with a mean that is out of date. -/
def staleMean : Table :=
  twoCounts.put "avg(count)" [some (.bare "old" .unknown (.text "old")), none]

theorem evaluate_eq_of_read_staleMean :
    staleMean.column "avg(count)" ≠ twoCounts.column "avg(count)" ∧
      (Pass.evaluate ⟨staleMean, ["avg(count)"]⟩ excess).1 = .ok "count-avg(count)" ∧
      (Pass.evaluate ⟨staleMean, ["avg(count)"]⟩ excess).2.table.column "count-avg(count)" =
        (Pass.evaluate ⟨twoCounts, []⟩ excess).2.table.column "count-avg(count)" := by
  have only : ∀ column ∈ excess.columnsRead, column = "count" := by decide
  have same := evaluate_eq_of_read (x := excess) (p := ⟨staleMean, ["avg(count)"]⟩)
    (q := ⟨twoCounts, []⟩) rfl (fun column hc => by rw [only column hc]; rfl)
    fun column hc _ => by rw [only column hc]; rfl
  have outcome : (Pass.evaluate ⟨staleMean, ["avg(count)"]⟩ excess).1 = .ok "count-avg(count)" :=
    same.1.trans rfl
  exact ⟨by decide, outcome, same.2 _ outcome⟩

/-- Fails at its second operand, when the first has been written. -/
def halfway : Formula :=
  .operation .add
    [.operation .negate [.var "count" ⟨.result, .integer⟩],
      .call .find [.var "count" ⟨.result, .integer⟩, .var "count" ⟨.result, .integer⟩,
        .constant (.integer 3)]]

theorem evaluate_again_halfway :
    (∀ y ∈ halfway.writers, y.columnName ∉ halfway.columnsRead) ∧
      (Pass.evaluate ⟨twoCounts, []⟩ halfway).1 =
        .error (.noMatchingRow "count" "3" "find(count, count, 3)") ∧
      (Pass.evaluate ⟨twoCounts, []⟩ halfway).2.table.columns = ["count", "-count", "3"] ∧
      Pass.evaluate ⟨(Pass.evaluate ⟨twoCounts, []⟩ halfway).2.table, []⟩ halfway =
        Pass.evaluate ⟨twoCounts, []⟩ halfway := by
  have apart : ∀ y ∈ halfway.writers, y.columnName ∉ halfway.columnsRead := by decide
  exact ⟨apart, rfl, rfl, evaluate_again apart ⟨twoCounts, []⟩ []⟩

end Formula

end ColumnFormula
