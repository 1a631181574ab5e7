import Mathlib
import ColumnFormula.Proofs.Failure
import ColumnFormula.Workbook

/-!
# Custody of columns

A workbook works on tables that belong to a host, who declares and fills columns of its own.
A run of both is a list of events (`Desk.run`); the desk keeps a record of what the workbook
wrote where. A column is foreign on a table that has it if the workbook never wrote it there.

An application leaves foreign columns alone (`Respects`) in two cases only: it is refused, or
its name is not foreign and the evaluation happens to write no foreign column. And it is
refused exactly if the table has a column of its name and no application of that name has
succeeded before, to whatever table: a workbook knows the names it wrote, not the tables.
-/

namespace ColumnFormula

namespace Workbook

/-- The columns that an application writes. -/
def writes (w : Workbook) (name : String) (t : Table) : List String :=
  match w.get? name with
  | none => []
  | some equation =>
    if t.has name && !w.applied.contains name then []
    else
      match Pass.evaluate ⟨t, []⟩ equation.root with
      | (.error _, p) => p.written
      | (.ok _, p) => p.written ++ [name]

/-- The application ends before it has begun, for the sake of a column that is there. -/
def Refuses (w : Workbook) (name : String) (t : Table) : Prop :=
  w.apply name t = (.error (.columnExists name), w, t)

variable {w : Workbook} {name : String} {t : Table} {e : Equation}

/-- All that can come of an application. -/
theorem apply_cases (hd : w.get? name = some e) :
    (t.has name = true ∧ name ∉ w.applied ∧
      w.apply name t = (.error (.columnExists name), w, t) ∧ w.writes name t = []) ∨
    (¬(t.has name = true ∧ name ∉ w.applied) ∧ ∃ error p,
      Pass.evaluate ⟨t, []⟩ e.root = (.error error, p) ∧
      w.apply name t = (.error error, w, p.table) ∧ w.writes name t = p.written) ∨
    (¬(t.has name = true ∧ name ∉ w.applied) ∧ ∃ source p,
      Pass.evaluate ⟨t, []⟩ e.root = (.ok source, p) ∧
      w.apply name t =
        (.ok name, { w with applied := w.applied.insert name }, copyColumn p.table source name) ∧
      w.writes name t = p.written ++ [name]) := by
  have guard : (t.has name && !w.applied.contains name) = true ↔
      t.has name = true ∧ name ∉ w.applied := by
    simp
  rw [apply, writes, hd]
  simp only [← guard, Equation.evaluate, Formula.evaluate]
  by_cases h : (t.has name && !w.applied.contains name) = true
  · simp [guard.1 h]
  · rw [if_neg h, if_neg h]
    match hp : Pass.evaluate ⟨t, []⟩ e.root with
    | (.error error, p) => exact .inr (.inl ⟨h, error, p, rfl, rfl, rfl⟩)
    | (.ok source, p) => exact .inr (.inr ⟨h, source, p, rfl, rfl, rfl⟩)

theorem apply_undefined (hd : w.get? name = none) :
    w.apply name t = (.error (.unknownDefinition name), w, t) ∧ w.writes name t = [] := by
  rw [apply, writes, hd]
  exact ⟨rfl, rfl⟩

/-- No evaluation ends in the way of a refusal. -/
theorem evaluate_ne_columnExists {x : Formula} {column : String} {p q : Pass}
    (h : p.evaluate x = (.error (.columnExists column), q)) : False := by
  cases Formula.failure_of_run h

/-- A workbook refuses to write over a column unless it has applied one of that name. -/
theorem refuses_iff (hd : w.get? name = some e) :
    w.Refuses name t ↔ t.has name = true ∧ name ∉ w.applied := by
  rw [Refuses]
  rcases apply_cases (t := t) hd with
    ⟨hn, ha, hr, -⟩ | ⟨hn, error, p, hp, hr, -⟩ | ⟨hn, source, p, -, hr, -⟩
  · exact iff_of_true hr ⟨hn, ha⟩
  · refine iff_of_false (fun h => ?_) hn
    rw [hr] at h
    cases (Prod.mk.inj h).1
    exact evaluate_ne_columnExists hp
  · refine iff_of_false (fun h => ?_) hn
    rw [hr] at h
    cases (Prod.mk.inj h).1

theorem writes_of_refuses (hd : w.get? name = some e) (hr : w.Refuses name t) :
    w.writes name t = [] := by
  have guard := (refuses_iff hd).1 hr
  rcases apply_cases (t := t) hd with ⟨-, -, -, hw⟩ | ⟨hn, -⟩ | ⟨hn, -⟩
  · exact hw
  · exact absurd guard hn
  · exact absurd guard hn

/-- Unless it is refused, an application writes what the evaluation writes, and its own
column after a success. -/
theorem mem_writes (hd : w.get? name = some e) (hr : ¬w.Refuses name t) {column : String} :
    column ∈ w.writes name t ↔ column ∈ (Pass.evaluate ⟨t, []⟩ e.root).2.written ∨
      column = name ∧ ∃ source, (Pass.evaluate ⟨t, []⟩ e.root).1 = .ok source := by
  rcases apply_cases (t := t) hd with
    ⟨-, -, hr', -⟩ | ⟨-, error, p, hp, -, hw⟩ | ⟨-, source, p, hp, -, hw⟩
  · exact absurd hr' hr
  · simp [hw, hp]
  · simp [hw, hp]

/-- A column that an application does not write is as it was. -/
theorem apply_column {column : String} (h : column ∉ w.writes name t) :
    (w.apply name t).2.2.column column = t.column column ∧
      (w.apply name t).2.2.has column = t.has column := by
  cases hd : w.get? name with
  | none => rw [(apply_undefined hd).1]; exact ⟨rfl, rfl⟩
  | some e =>
    have frame := (Formula.run_writes e.root ⟨t, []⟩).column_eq column
    rcases apply_cases (t := t) hd with
      ⟨-, -, hr, -⟩ | ⟨-, error, p, hp, hr, hw⟩ | ⟨-, source, p, hp, hr, hw⟩
    · rw [hr]; exact ⟨rfl, rfl⟩
    · rw [hw] at h
      rw [Pass.evaluate] at hp
      rw [hr]
      rw [hp] at frame
      exact frame (.inr h)
    · rw [hw, List.mem_append, List.mem_singleton, not_or] at h
      rw [Pass.evaluate] at hp
      rw [hr, copyColumn, Table.column_put_of_ne h.2, Table.has_put]
      rw [hp] at frame
      have kept := frame (.inr h.1)
      exact ⟨kept.1, by rw [kept.2]; simp [h.2]⟩

end Workbook

/-! ## Runs -/

/-- What a workbook does, and what the host does to its tables. -/
inductive Event where
  | define (schema : Schema) (name text : String)
  | remove (name : String)
  | apply (name table : String)
  | declare (table column : String)
  | fill (table column : String) (values : Column)
  | push (table : String) (row : Row)

/-- A workbook, the tables of its host by name, and a record of what it did to them. -/
structure Desk where
  workbook : Workbook
  tables : String → Table
  /-- The tables and columns that the workbook wrote. -/
  own : List (String × String)
  /-- The tables and names of the applications that succeeded. -/
  applied : List (String × String)

namespace Desk

/-- A new workbook among the tables of its host. -/
def start (tables : String → Table) : Desk := ⟨.empty, tables, [], []⟩

def setTable (d : Desk) (table : String) (t : Table) : Desk :=
  { d with tables := fun other => if other = table then t else d.tables other }

def step (d : Desk) : Event → Desk
  | .define schema name text =>
    match d.workbook.define schema name text with
    | .error _ => d
    | .ok w => { d with workbook := w }
  | .remove name => { d with workbook := d.workbook.remove name }
  | .apply name table =>
    let t := d.tables table
    let own := d.own ++ (d.workbook.writes name t).map fun column => (table, column)
    match d.workbook.apply name t with
    | (.error _, w, t) => { d.setTable table t with workbook := w, own }
    | (.ok _, w, t) =>
      { d.setTable table t with workbook := w, own, applied := d.applied ++ [(table, name)] }
  | .declare table column => d.setTable table ((d.tables table).declare column)
  | .fill table column values => d.setTable table ((d.tables table).put column values)
  | .push table row => d.setTable table ((d.tables table).push row)

def run (d : Desk) (events : List Event) : Desk := events.foldl step d

/-- A column of the host that the workbook never wrote on that table. -/
def Foreign (d : Desk) (table column : String) : Prop :=
  (d.tables table).has column = true ∧ (table, column) ∉ d.own

/-- The workbook remembers the names that it applied, on some table each. -/
structure Recorded (d : Desk) : Prop where
  applied : ∀ name, name ∈ d.workbook.applied ↔ ∃ table, (table, name) ∈ d.applied
  own : ∀ entry ∈ d.applied, entry ∈ d.own

theorem Recorded.step {d : Desk} (h : d.Recorded) (event : Event) :
    (d.step event).Recorded := by
  cases event with
  | define schema name text =>
    rw [Desk.step, Workbook.define]
    cases Equation.compile schema text with
    | error => exact h
    | ok => exact ⟨h.applied, h.own⟩
  | apply name table =>
    rw [Desk.step]
    cases hd : d.workbook.get? name with
    | none =>
      rw [(Workbook.apply_undefined hd).1, (Workbook.apply_undefined hd).2]
      exact ⟨h.applied, fun entry hn => List.mem_append_left _ (h.own entry hn)⟩
    | some e =>
      rcases Workbook.apply_cases (t := d.tables table) hd with
        ⟨-, -, hr, hw⟩ | ⟨-, error, p, -, hr, hw⟩ | ⟨-, source, p, -, hr, hw⟩
      · rw [hr, hw]
        exact ⟨h.applied, fun entry hn => List.mem_append_left _ (h.own entry hn)⟩
      · rw [hr, hw]
        exact ⟨h.applied, fun entry hn => List.mem_append_left _ (h.own entry hn)⟩
      · rw [hr, hw]
        refine ⟨fun n => ?_, fun entry hn => ?_⟩
        · simp only [List.mem_insert_iff, h.applied, List.mem_append, List.mem_singleton,
            Prod.mk.injEq]
          constructor
          · rintro (rfl | ⟨k, hk⟩)
            · exact ⟨table, .inr ⟨rfl, rfl⟩⟩
            · exact ⟨k, .inl hk⟩
          · rintro ⟨k, hk | ⟨-, rfl⟩⟩
            · exact .inr ⟨k, hk⟩
            · exact .inl rfl
        · rcases List.mem_append.1 hn with hn | hn
          · exact List.mem_append_left _ (h.own entry hn)
          · rw [List.mem_singleton] at hn
            exact List.mem_append_right _ (List.mem_map.2 ⟨name, by simp, hn.symm⟩)
  | remove | declare | fill | push => exact ⟨h.applied, h.own⟩

theorem Recorded.run {d : Desk} (h : d.Recorded) (events : List Event) :
    (d.run events).Recorded := by
  induction events generalizing d with
  | nil => exact h
  | cons event events ih => exact ih (h.step event)

theorem recorded_start (tables : String → Table) : (start tables).Recorded where
  applied _ := iff_of_false nofun fun ⟨_, h⟩ => nomatch h
  own _ h := nomatch h

/-- What an application may do: write no foreign column, and none at all if it has the name
of one. -/
structure Respects (d : Desk) (name table : String) : Prop where
  unwritten : ∀ column, d.Foreign table column →
    column ∉ d.workbook.writes name (d.tables table)
  unchanged : ∀ other column, d.Foreign other column →
    ((d.step (.apply name table)).tables other).column column = (d.tables other).column column
  refused : d.Foreign table name → d.workbook.Refuses name (d.tables table)

theorem tables_apply (d : Desk) (name table other : String) :
    (d.step (.apply name table)).tables other =
      if other = table then (d.workbook.apply name (d.tables table)).2.2
      else d.tables other := by
  rw [step]
  split <;> rename_i hr <;> rw [hr] <;> rfl

/-- Where nothing foreign is written nothing foreign changes. -/
theorem Respects.of_unwritten {d : Desk} {name table : String}
    (h : ∀ column, d.Foreign table column →
      column ∉ d.workbook.writes name (d.tables table))
    (hr : d.Foreign table name → d.workbook.Refuses name (d.tables table)) :
    d.Respects name table where
  unwritten := h
  unchanged other column hf := by
    rw [tables_apply]
    split
    · rename_i ht
      subst ht
      exact (Workbook.apply_column (h column hf)).1
    · rfl
  refused := hr

/-- After any run, an application respects what is the host's exactly if it is refused, or
its name is not the host's and the evaluation writes no column that is. It is refused exactly
if the table has a column of its name and none of that name was ever applied. -/
theorem respects_iff (tables : String → Table) (events : List Event) {name : String}
    {e : Equation} (hd : ((start tables).run events).workbook.get? name = some e)
    (table : String) :
    let d := (start tables).run events
    let t := d.tables table
    (d.workbook.Refuses name t ↔ t.has name = true ∧ ∀ other, (other, name) ∉ d.applied) ∧
    (d.Respects name table ↔ d.workbook.Refuses name t ∨
      ¬d.Foreign table name ∧
        ∀ column, d.Foreign table column →
          column ∉ (Pass.evaluate ⟨t, []⟩ e.root).2.written) := by
  intro d t
  have recorded : d.Recorded := (recorded_start tables).run events
  refine ⟨by rw [Workbook.refuses_iff hd, recorded.applied, not_exists], fun h => ?_, ?_⟩
  · by_cases hr : d.workbook.Refuses name t
    · exact .inl hr
    · refine .inr ⟨fun hf => hr (h.refused hf), fun column hf hw => ?_⟩
      exact h.unwritten column hf ((Workbook.mem_writes hd hr).2 (.inl hw))
  · intro h
    by_cases hr : d.workbook.Refuses name t
    · refine .of_unwritten (fun column _ => ?_) fun _ => hr
      rw [Workbook.writes_of_refuses hd hr]
      exact List.not_mem_nil
    · obtain ⟨hn, hw⟩ := h.resolve_left hr
      refine .of_unwritten (fun column hf hm => ?_) fun hf => absurd hf hn
      rcases (Workbook.mem_writes hd hr).1 hm with hm | ⟨rfl, -⟩
      · exact hw column hf hm
      · exact hn hf

/-! ## A column taken for its own -/

def timed : Schema := Schema.empty.addVariable "Time" .result .real

def timeTwice : Equation :=
  ⟨"or('Time', 'Time')", .call .or [.var "Time" ⟨.result, .real⟩, .var "Time" ⟨.result, .real⟩]⟩

/-- Two tables of times. On the second the host keeps a column X. -/
def hosted : String → Table
  | "b" => (Table.ofColumns ["Time", "X"]).push
      (.ofList [("Time", .bare "Time" .all (.real 3.0)), ("X", .bare "X" .all (.real 7.0))])
  | _ => (Table.ofColumns ["Time"]).push (.ofList [("Time", .bare "Time" .all (.real 3.0))])

/-- X is defined as the time and applied to the first table. -/
def appliedOnce : Desk := (start hosted).run [.define timed "X" timeTwice.text, .apply "X" "a"]

theorem compile_timeTwice : Equation.compile timed timeTwice.text = .ok timeTwice := by cbv

theorem appliedOnce_eq : appliedOnce =
    step ⟨⟨Named.empty.insert "X" timeTwice, []⟩, hosted, [], []⟩ (.apply "X" "a") := by
  have defined : (start hosted).step (.define timed "X" timeTwice.text) =
      ⟨⟨Named.empty.insert "X" timeTwice, []⟩, hosted, [], []⟩ := by
    rw [step, Workbook.define, compile_timeTwice]
    rfl
  rw [appliedOnce, run, List.foldl_cons, defined]
  rfl

theorem get_appliedOnce : appliedOnce.workbook.get? "X" = some timeTwice := by
  rw [appliedOnce_eq]
  rfl

theorem respects_iff_appliedOnce :
    appliedOnce.workbook.get? "X" = some timeTwice ∧
      (appliedOnce.workbook.Refuses "X" (appliedOnce.tables "b") ↔
        (appliedOnce.tables "b").has "X" = true ∧ ∀ other, (other, "X") ∉ appliedOnce.applied) ∧
      (appliedOnce.Respects "X" "b" ↔ appliedOnce.workbook.Refuses "X" (appliedOnce.tables "b") ∨
        ¬appliedOnce.Foreign "b" "X" ∧
          ∀ column, appliedOnce.Foreign "b" column →
            column ∉ (Pass.evaluate ⟨appliedOnce.tables "b", []⟩ timeTwice.root).2.written) :=
  ⟨get_appliedOnce, respects_iff hosted _ get_appliedOnce "b"⟩

/-- The column X of the second table is the host's, and an application there replaces it. -/
theorem overwrites_foreign_column :
    appliedOnce.Foreign "b" "X" ∧
      (appliedOnce.tables "b").column "X" = [some (.bare "X" .all (.real 7.0))] ∧
      (appliedOnce.workbook.apply "X" (appliedOnce.tables "b")).1 = .ok "X" ∧
      ((appliedOnce.step (.apply "X" "b")).tables "b").column "X" =
        [some (.bare "X" .all (.real 3.0))] := by
  rw [Foreign, appliedOnce_eq]
  exact ⟨⟨rfl, by decide⟩, rfl, rfl, rfl⟩

end Desk

end ColumnFormula
